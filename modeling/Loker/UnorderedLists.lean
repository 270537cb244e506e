import Mathlib

/-! Lists whose order means nothing: when a stable sort of them, or the best of their elements,
depends on that order. -/

namespace Loker.UnorderedLists

section Sorting

variable {α κ : Type*} [LinearOrder κ] (key : α → κ)

lemma filter_orderedInsert (a : α) (l : List α) (k : κ) :
    (l.orderedInsert (fun a b => key a ≤ key b) a).filter (fun x => decide (key x = k)) =
      (a :: l).filter (fun x => decide (key x = k)) := by
  induction l with
  | nil => rfl
  | cons b l ih =>
    rw [List.orderedInsert_cons]
    split
    · rfl
    · next hgt =>
      have hlt : key b < key a := lt_of_not_ge hgt
      rw [List.filter_cons, ih]
      by_cases hb : key b = k
      · have ha : key a ≠ k := fun ha => absurd hlt (by rw [ha, hb]; exact lt_irrefl k)
        simp [hb, ha]
      · simp [hb, List.filter_cons]

/-- A stable sort keeps the order of the elements of one key. -/
theorem filter_insertionSort (l : List α) (k : κ) :
    (l.insertionSort fun a b => key a ≤ key b).filter (fun x => decide (key x = k)) =
      l.filter (fun x => decide (key x = k)) := by
  induction l with
  | nil => rfl
  | cons a l ih => rw [List.insertionSort_cons, filter_orderedInsert, List.filter_cons,
      List.filter_cons, ih]

lemma exists_perm_cons_cons {l : List α} {a b : α} (ha : a ∈ l) (hb : b ∈ l) (hne : a ≠ b) :
    ∃ rest, l.Perm (a :: b :: rest) := by
  obtain ⟨s, t, rfl⟩ := List.append_of_mem ha
  have hmem : b ∈ s ++ t := by
    have hmiddle : (s ++ a :: t).Perm (a :: (s ++ t)) := List.perm_middle
    exact (List.mem_cons.mp (hmiddle.mem_iff.mp hb)).resolve_left (Ne.symm hne)
  obtain ⟨u, v, hsplit⟩ := List.append_of_mem hmem
  refine ⟨u ++ v, List.perm_middle.trans ?_⟩
  rw [hsplit]
  exact List.perm_middle.cons a

/-- A sort of what is read from the elements does not depend on their order exactly if no two of
the results have one key. -/
theorem insertionSort_filterMap_perm_iff {β : Type*} {g : β → Option α} {l : List β} :
    (∀ l' : List β, l'.Perm l → ((l'.filterMap g).insertionSort fun a b => key a ≤ key b) =
      (l.filterMap g).insertionSort fun a b => key a ≤ key b) ↔
    ∀ x ∈ l, ∀ y ∈ l, ∀ a b, g x = some a → g y = some b → key a = key b → a = b := by
  constructor
  · intro h x hx y hy a b ha hb hkey
    by_contra hne
    have hxy : x ≠ y := by
      rintro rfl
      exact hne (Option.some.inj (ha.symm.trans hb))
    obtain ⟨rest, hperm⟩ := exists_perm_cons_cons hx hy hxy
    have hsorted := (h _ hperm.symm).trans (h _ ((List.Perm.swap x y rest).trans hperm.symm)).symm
    have hfiltered := congrArg (List.filter fun x => decide (key x = key b)) hsorted
    rw [filter_insertionSort, filter_insertionSort, List.filterMap_cons_some ha,
      List.filterMap_cons_some hb, List.filterMap_cons_some hb, List.filterMap_cons_some ha]
      at hfiltered
    simp only [List.filter_cons, hkey, decide_true, if_true, List.cons.injEq] at hfiltered
    exact hne hfiltered.1
  · intro h l' hperm
    have : Std.Total fun a b : α => key a ≤ key b := ⟨fun a b => le_total _ _⟩
    have : IsTrans α fun a b => key a ≤ key b := ⟨fun a b c => le_trans⟩
    apply List.Perm.eq_of_pairwise _ (List.pairwise_insertionSort _ _)
      (List.pairwise_insertionSort _ _)
    · exact (List.perm_insertionSort _ _).trans
        ((hperm.filterMap g).trans (List.perm_insertionSort _ _).symm)
    · intro a b ha hb hab hba
      rw [List.mem_insertionSort] at ha hb
      obtain ⟨x, hx, ha⟩ := List.mem_filterMap.mp ha
      obtain ⟨y, hy, hb⟩ := List.mem_filterMap.mp hb
      exact h x (hperm.mem_iff.mp hx) y hy a b ha hb (le_antisymm hab hba)

end Sorting

section Best

variable {α κ : Type*} [LinearOrder κ] (better : α → α → Bool)

/-- The next element is taken if there is none yet or it is better. -/
def improve (best : Option α) (x : α) : Option α := if best.all (better x) then some x else best

def bestOf (l : List α) : Option α := l.foldl (improve better) none

variable {better} {f : α → κ}

lemma foldl_improve (hbetter : ∀ x y, better x y = decide (f y < f x)) (l : List α) (x : α) :
    ∃ m, l.foldl (improve better) (some x) = some m ∧ m ∈ x :: l ∧ ∀ y ∈ x :: l, f y ≤ f m := by
  induction l generalizing x with
  | nil =>
    refine ⟨x, rfl, List.mem_cons_self, fun y hy => ?_⟩
    rw [List.mem_singleton.mp hy]
  | cons z l ih =>
    rw [List.foldl_cons, improve, Option.all_some, hbetter]
    by_cases hlt : f x < f z
    · obtain ⟨m, hm, hmem, hmax⟩ := ih z
      refine ⟨m, by rw [decide_eq_true hlt, if_pos rfl, hm], List.mem_cons_of_mem _ hmem, ?_⟩
      intro y hy
      rcases List.mem_cons.mp hy with rfl | hy
      · exact hlt.le.trans (hmax z List.mem_cons_self)
      · exact hmax y hy
    · obtain ⟨m, hm, hmem, hmax⟩ := ih x
      refine ⟨m, by rw [decide_eq_false hlt, if_neg Bool.false_ne_true, hm], ?_, ?_⟩
      · rcases List.mem_cons.mp hmem with rfl | hmem
        · exact List.mem_cons_self
        · exact List.mem_cons_of_mem _ (List.mem_cons_of_mem _ hmem)
      · intro y hy
        rcases List.mem_cons.mp hy with rfl | hy
        · exact hmax y List.mem_cons_self
        · rcases List.mem_cons.mp hy with rfl | hy
          · exact (le_of_not_gt hlt).trans (hmax x List.mem_cons_self)
          · exact hmax y (List.mem_cons_of_mem _ hy)

lemma bestOf_cons (x : α) (l : List α) :
    bestOf better (x :: l) = l.foldl (improve better) (some x) := rfl

/-- The best one is an element that none exceeds. -/
theorem bestOf_eq_some_iff (hbetter : ∀ x y, better x y = decide (f y < f x))
    (hf : Function.Injective f) {l : List α} {m : α} :
    bestOf better l = some m ↔ m ∈ l ∧ ∀ y ∈ l, f y ≤ f m := by
  cases l with
  | nil => exact ⟨nofun, fun h => nomatch h.1⟩
  | cons x l =>
    obtain ⟨n, hn, hmem, hmax⟩ := foldl_improve hbetter l x
    rw [bestOf_cons, hn]
    constructor
    · intro h
      cases h
      exact ⟨hmem, hmax⟩
    · rintro ⟨hm, hmaximal⟩
      have hsame : n = m := hf (le_antisymm (hmaximal n hmem) (hmax m hm))
      rw [hsame]

lemma bestOf_eq_none_iff (hbetter : ∀ x y, better x y = decide (f y < f x)) {l : List α} :
    bestOf better l = none ↔ l = [] := by
  cases l with
  | nil => exact ⟨fun _ => rfl, fun _ => rfl⟩
  | cons x l =>
    obtain ⟨n, hn, _⟩ := foldl_improve hbetter l x
    rw [bestOf_cons, hn]
    exact ⟨nofun, nofun⟩

lemma bestOf_congr (hbetter : ∀ x y, better x y = decide (f y < f x))
    (hf : Function.Injective f) {l l' : List α} (hmem : ∀ x, x ∈ l ↔ x ∈ l') :
    bestOf better l = bestOf better l' := by
  cases hbest : bestOf better l' with
  | none =>
    rw [bestOf_eq_none_iff hbetter] at hbest ⊢
    apply List.eq_nil_iff_forall_not_mem.mpr
    intro x hx
    have hx' := (hmem x).mp hx
    rw [hbest] at hx'
    cases hx'
  | some m =>
    rw [bestOf_eq_some_iff hbetter hf] at hbest ⊢
    exact ⟨(hmem m).mpr hbest.1, fun y hy => hbest.2 y ((hmem y).mp hy)⟩

lemma exists_bestOf (hbetter : ∀ x y, better x y = decide (f y < f x)) {l : List α}
    (hne : l ≠ []) : ∃ m, bestOf better l = some m := by
  cases hbest : bestOf better l with
  | none => exact absurd ((bestOf_eq_none_iff hbetter).mp hbest) hne
  | some m => exact ⟨m, rfl⟩

end Best

end Loker.UnorderedLists
