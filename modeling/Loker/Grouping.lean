import Mathlib

/-! Entries collected by their keys, each key with what its values add up to, and the order in
which such a map is listed. -/

namespace Loker.Grouping

section Definitions

variable {κ β γ : Type*} [DecidableEq κ] (add : β → γ → β) (start : β)

/-- One more entry: added to what its key has, or the first one of its key. -/
def insertGroup (groups : List (κ × β)) (entry : κ × γ) : List (κ × β) :=
  if (groups.lookup entry.1).isSome then
    groups.map fun g => if g.1 = entry.1 then (g.1, add g.2 entry.2) else g
  else groups ++ [(entry.1, add start entry.2)]

def groupsOf (entries : List (κ × γ)) : List (κ × β) := entries.foldl (insertGroup add start) []

/-- The values of one key, in their order. -/
def valuesOf (entries : List (κ × γ)) (key : κ) : List γ :=
  (entries.filter (·.1 = key)).map Prod.snd

/-- Every key is listed once, with what its values add up to. -/
structure Groups (entries : List (κ × γ)) (groups : List (κ × β)) : Prop where
  unique : (groups.map Prod.fst).Nodup
  mem_iff : ∀ key total, (key, total) ∈ groups ↔
    key ∈ entries.map Prod.fst ∧ total = (valuesOf entries key).foldl add start

end Definitions

section Groups

variable {κ β γ : Type*} [DecidableEq κ] {add : β → γ → β} {start : β}
  {entries : List (κ × γ)} {groups : List (κ × β)} {entry : κ × γ} {key : κ}

lemma valuesOf_snoc_self : valuesOf (entries ++ [entry]) entry.1 =
    valuesOf entries entry.1 ++ [entry.2] := by
  simp [valuesOf]

lemma valuesOf_snoc_of_ne (h : entry.1 ≠ key) :
    valuesOf (entries ++ [entry]) key = valuesOf entries key := by
  simp [valuesOf, h]

lemma valuesOf_of_notMem (h : key ∉ entries.map Prod.fst) : valuesOf entries key = [] := by
  rw [valuesOf, List.map_eq_nil_iff, List.filter_eq_nil_iff]
  intro entry hentry hkey
  exact h (List.mem_map.mpr ⟨entry, hentry, of_decide_eq_true hkey⟩)

lemma Groups.mem_keys (h : Groups add start entries groups) :
    key ∈ groups.map Prod.fst ↔ key ∈ entries.map Prod.fst := by
  constructor
  · intro hmem
    obtain ⟨⟨key, total⟩, hg, rfl⟩ := List.mem_map.mp hmem
    exact ((h.mem_iff key total).mp hg).1
  · intro hmem
    exact List.mem_map.mpr ⟨_, (h.mem_iff key _).mpr ⟨hmem, rfl⟩, rfl⟩

lemma Groups.lookup_isSome (h : Groups add start entries groups) :
    (groups.lookup key).isSome = true ↔ key ∈ entries.map Prod.fst := by
  rw [List.lookup_isSome_iff, ← h.mem_keys, List.mem_map]
  simp only [beq_iff_eq]
  exact exists_congr fun g => and_congr_right fun _ => eq_comm

lemma Groups.lookup (h : Groups add start entries groups) (hmem : key ∈ entries.map Prod.fst) :
    groups.lookup key = some ((valuesOf entries key).foldl add start) := by
  cases hfound : groups.lookup key with
  | none =>
    have hsome := h.lookup_isSome.mpr hmem
    rw [hfound] at hsome
    cases hsome
  | some total =>
    obtain ⟨before, after, hsplit, _⟩ := List.lookup_eq_some_iff.mp hfound
    have hg : (key, total) ∈ groups := by simp [hsplit]
    rw [((h.mem_iff key total).mp hg).2]

/-- A key that is there already takes the value in. -/
lemma Groups.raised (h : Groups add start entries groups) (hold : entry.1 ∈ entries.map Prod.fst) :
    Groups add start (entries ++ [entry])
      (groups.map fun g => if g.1 = entry.1 then (g.1, add g.2 entry.2) else g) := by
  have hkeys : (groups.map fun g => if g.1 = entry.1 then (g.1, add g.2 entry.2) else g).map
      Prod.fst = groups.map Prod.fst := by
    rw [List.map_map]
    apply List.map_congr_left
    intro g _
    rw [Function.comp_apply]
    split <;> rfl
  constructor
  · rw [hkeys]
    exact h.unique
  · intro key total
    have hcontents : key ∈ (entries ++ [entry]).map Prod.fst ↔ key ∈ entries.map Prod.fst := by
      rw [List.map_append, List.mem_append, List.map_singleton, List.mem_singleton]
      exact or_iff_left_of_imp fun heq => heq ▸ hold
    rw [hcontents, List.mem_map]
    constructor
    · rintro ⟨⟨k, b⟩, hg, heq⟩
      obtain ⟨hmem, rfl⟩ := (h.mem_iff k b).mp hg
      by_cases hkey : k = entry.1
      · rw [if_pos hkey] at heq
        cases heq
        subst hkey
        exact ⟨hmem, by rw [valuesOf_snoc_self, List.foldl_concat]⟩
      · rw [if_neg hkey] at heq
        cases heq
        exact ⟨hmem, by rw [valuesOf_snoc_of_ne (Ne.symm hkey)]⟩
    · rintro ⟨hmem, rfl⟩
      refine ⟨_, (h.mem_iff key _).mpr ⟨hmem, rfl⟩, ?_⟩
      by_cases hkey : key = entry.1
      · subst hkey
        rw [if_pos rfl, valuesOf_snoc_self, List.foldl_concat]
      · rw [if_neg hkey, valuesOf_snoc_of_ne (Ne.symm hkey)]

lemma Groups.added (h : Groups add start entries groups) (hnew : entry.1 ∉ entries.map Prod.fst) :
    Groups add start (entries ++ [entry]) (groups ++ [(entry.1, add start entry.2)]) := by
  constructor
  · rw [List.map_append, List.map_singleton]
    apply h.unique.append (List.nodup_singleton _)
    intro key hkey hlast
    rw [List.mem_singleton.mp hlast] at hkey
    exact hnew (h.mem_keys.mp hkey)
  · intro key total
    rw [List.mem_append, List.mem_singleton, h.mem_iff, List.map_append, List.mem_append,
      List.map_singleton, List.mem_singleton, Prod.mk.injEq]
    by_cases hkey : key = entry.1
    · subst hkey
      rw [valuesOf_snoc_self, valuesOf_of_notMem hnew]
      simp [hnew]
    · rw [valuesOf_snoc_of_ne (Ne.symm hkey)]
      simp [hkey]

lemma Groups.insert (h : Groups add start entries groups) (entry : κ × γ) :
    Groups add start (entries ++ [entry]) (insertGroup add start groups entry) := by
  unfold insertGroup
  split
  · next hfound => exact h.raised (h.lookup_isSome.mp hfound)
  · next hfound => exact h.added fun hmem => hfound (h.lookup_isSome.mpr hmem)

/-- The entries one after the other make up the groups. -/
theorem groups_groupsOf (entries : List (κ × γ)) :
    Groups add start entries (groupsOf add start entries) := by
  unfold groupsOf
  induction entries using List.reverseRecOn with
  | nil => exact ⟨List.nodup_nil, fun key total => by simp⟩
  | append_singleton entries entry ih =>
    rw [List.foldl_append, List.foldl_cons, List.foldl_nil]
    exact ih.insert entry

/-- Where the order of the values does not matter, that of the entries does not either. -/
theorem Groups.perm {entries' : List (κ × γ)} {groups' : List (κ × β)}
    (hcomm : ∀ b x y, add (add b x) y = add (add b y) x) (hperm : entries.Perm entries')
    (h : Groups add start entries groups) (h' : Groups add start entries' groups') :
    groups.Perm groups' := by
  have hnodup : groups.Nodup := List.Nodup.of_map _ h.unique
  have hnodup' : groups'.Nodup := List.Nodup.of_map _ h'.unique
  apply (List.perm_ext_iff_of_nodup hnodup hnodup').mpr
  rintro ⟨key, total⟩
  have hvalues : (valuesOf entries key).foldl add start = (valuesOf entries' key).foldl add start :=
    ((hperm.filter _).map _).foldl_eq' (fun x _ y _ b => hcomm b x y) start
  rw [h.mem_iff, h'.mem_iff, hvalues, (hperm.map Prod.fst).mem_iff]

end Groups

section Listing

variable {α κ : Type*} {le : α → α → Prop} {key : α → κ}

/-- Lists that are sorted by a key of their own for every entry are equal if they have the same
entries. -/
theorem eq_of_sorted {l l' : List α} (hanti : ∀ a b, le a b → le b a → key a = key b)
    (hunique : (l.map key).Nodup) (hperm : l.Perm l') (hl : l.Pairwise le) (hl' : l'.Pairwise le) :
    l = l' := by
  apply List.Perm.eq_of_pairwise _ hl hl' hperm
  intro a b ha hb hab hba
  exact List.inj_on_of_nodup_map hunique ha (hperm.mem_iff.mpr hb) (hanti a b hab hba)

end Listing

section Sums

/-- An addition that stops at the highest value. -/
def capped (cap : ℕ) (a x : ℕ) : ℕ := min (a + x) cap

lemma capped_comm (cap a x y : ℕ) : capped cap (capped cap a x) y = capped cap (capped cap a y) x := by
  unfold capped
  omega

/-- The additions add up to the capped sum. -/
theorem foldl_capped (cap : ℕ) (values : List ℕ) (a : ℕ) (ha : a ≤ cap) :
    values.foldl (capped cap) a = min (a + values.sum) cap := by
  induction values generalizing a with
  | nil => simp [ha]
  | cons x values ih =>
    rw [List.foldl_cons, ih (capped cap a x) (Nat.min_le_right _ _), capped, List.sum_cons]
    omega

end Sums

end Loker.Grouping
