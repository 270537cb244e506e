import Loker.TextOps

/-! Where a pattern occurs in a text that was put together from pieces. -/

namespace Loker.TextSearch

open TextOps

variable {α : Type} {pat mid l tail : List α} {c : α} {i : ℕ}

/-- The pattern is in the text at this position. -/
def OccursAt (pat : List α) (i : ℕ) (s : List α) : Prop := pat <+: s.drop i

instance [DecidableEq α] {s : List α} : Decidable (OccursAt pat i s) :=
  inferInstanceAs (Decidable (pat <+: s.drop i))

lemma infix_iff_occursAt {s : List α} : pat <:+: s ↔ ∃ i, OccursAt pat i s := by
  constructor
  · rintro ⟨l, r, rfl⟩
    exact ⟨l.length, r, by rw [List.append_assoc, List.drop_left]⟩
  · rintro ⟨i, hi⟩
    exact hi.isInfix.trans (List.drop_suffix i s).isInfix

lemma OccursAt.length_le {s : List α} (h : OccursAt pat i s) (hpat : pat ≠ []) :
    i + pat.length ≤ s.length := by
  have hlen := List.IsPrefix.length_le h
  have hpos := List.length_pos_iff.mpr hpat
  rw [List.length_drop] at hlen
  omega

lemma OccursAt.get {s : List α} (h : OccursAt pat i s) {j : ℕ} (hj : j < pat.length) :
    s[i + j]? = pat[j]? := by
  obtain ⟨r, hr⟩ := h
  rw [← List.getElem?_drop, ← hr, List.getElem?_append_left hj]

/-- A pattern that begins and ends with a separator and has none between cannot reach over a
separator of the text. -/
lemma OccursAt.before (h : OccursAt (c :: (mid ++ [c])) i (l ++ c :: tail)) (hmid : c ∉ mid)
    (hi : i < l.length) : OccursAt (c :: (mid ++ [c])) i (l ++ [c]) := by
  have hle : i + mid.length + 1 ≤ l.length := by
    by_contra hlt
    have hj : l.length - i < (c :: (mid ++ [c])).length := by
      simp only [List.length_cons, List.length_append, List.length_nil]
      omega
    have hget := h.get hj
    rw [Nat.add_sub_cancel' hi.le, List.getElem?_append_right (le_refl _), Nat.sub_self] at hget
    obtain ⟨k, hk⟩ : ∃ k, l.length - i = k + 1 := ⟨l.length - i - 1, by omega⟩
    have hkmid : k < mid.length := by omega
    rw [hk, List.getElem?_cons_zero, List.getElem?_cons_succ, List.getElem?_append_left hkmid] at hget
    exact hmid (List.mem_of_getElem? hget.symm)
  have htext : l ++ c :: tail = (l ++ [c]) ++ tail := by simp
  unfold OccursAt at h ⊢
  rw [htext, List.drop_append_of_le_length (by simp; omega)] at h
  refine List.prefix_of_prefix_length_le h (List.prefix_append _ _) ?_
  simp only [List.length_cons, List.length_append, List.length_drop, List.length_nil]
  omega

lemma OccursAt.append (h : OccursAt pat i l) : OccursAt pat i (l ++ tail) := by
  unfold OccursAt at h ⊢
  rcases le_total i l.length with hle | hle
  · rw [List.drop_append_of_le_length hle]
    exact h.trans (List.prefix_append _ _)
  · rw [List.drop_eq_nil_of_le hle, List.prefix_nil] at h
    rw [h]
    exact List.nil_prefix

/-- After the separator the pattern occurs only if the rest has another one far enough on. -/
lemma OccursAt.after (h : OccursAt (c :: (mid ++ [c])) i (l ++ c :: tail)) (hi : l.length < i) :
    c ∈ tail.drop (mid.length + 1) := by
  have hget := h.get (j := mid.length + 1) (by simp)
  rw [List.getElem?_append_right (by omega), List.getElem?_cons_succ,
    List.getElem?_append_right (le_refl _), Nat.sub_self, List.getElem?_cons_zero] at hget
  obtain ⟨k, hk⟩ : ∃ k, i + (mid.length + 1) - l.length = k + 1 := ⟨i + mid.length - l.length, by omega⟩
  rw [hk, List.getElem?_cons_succ] at hget
  have hle : mid.length + 1 ≤ k := by omega
  have hdrop : (tail.drop (mid.length + 1))[k - (mid.length + 1)]? = some c := by
    rw [List.getElem?_drop, Nat.add_sub_cancel' hle, hget]
  exact List.mem_of_getElem? hdrop

section TakeBefore

variable {pat l s : List Char}

lemma takeBefore_length_le (h : OccursAt pat i s) : (takeBefore pat s).length ≤ i := by
  induction s generalizing i with
  | nil => simp [takeBefore]
  | cons c cs ih =>
      unfold takeBefore
      split
      · simp
      · next hnot =>
        cases i with
        | zero => exact absurd (List.isPrefixOf_iff_prefix.mpr h) hnot
        | succ i => exact Nat.succ_le_succ (ih h)

/-- A text with a match is what stands before the first one, the match, and the rest. -/
lemma takeBefore_append_drop (hpat : pat ≠ []) (h : pat <:+: s) :
    s = takeBefore pat s ++ pat ++ s.drop ((takeBefore pat s).length + pat.length) := by
  induction s with
  | nil => exact absurd (List.infix_nil.mp h) hpat
  | cons c cs ih =>
      unfold takeBefore
      split
      · next hfirst =>
        obtain ⟨rest, hrest⟩ := List.isPrefixOf_iff_prefix.mp hfirst
        simp [← hrest]
      · next hnot =>
        have hcs : pat <:+: cs := by
          rcases List.infix_cons_iff.mp h with hpre | hcs
          · exact absurd (List.isPrefixOf_iff_prefix.mpr hpre) hnot
          · exact hcs
        have hrest := ih hcs
        rw [List.length_cons, Nat.succ_add, List.drop_succ_cons, List.cons_append,
          List.cons_append]
        exact congrArg (c :: ·) hrest

/-- What stands before the first match is what was put before it, when it holds no match. -/
lemma takeBefore_append_iff (hpat : pat ≠ []) (hs : pat <+: s) :
    takeBefore pat (l ++ s) = l ↔ ∀ i < l.length, ¬ OccursAt pat i (l ++ s) := by
  constructor
  · intro h i hi hoccurs
    have hlen := takeBefore_length_le hoccurs
    rw [h] at hlen
    omega
  · intro h
    induction l with
    | nil =>
        obtain ⟨c, cs, rfl⟩ := List.exists_cons_of_ne_nil (fun h => hpat (List.prefix_nil.mp (h ▸ hs)))
        simp [takeBefore, List.isPrefixOf_iff_prefix.mpr hs]
    | cons c l ih =>
        have hzero := h 0 (by simp)
        have hrest := ih fun i hi hoccurs => h (i + 1) (by simpa using hi) hoccurs
        have hfirst : ¬ pat.isPrefixOf (c :: (l ++ s)) = true :=
          fun hp => hzero (List.isPrefixOf_iff_prefix.mp hp)
        rw [List.cons_append, takeBefore, if_neg hfirst, hrest]

lemma splitAtFirst_none {s pat : String} : splitAtFirst s pat = none ↔ contains s pat = false := by
  unfold splitAtFirst
  split <;> simp_all

lemma splitAtFirst_some {s pat before after : String} (hpat : pat.toList ≠ [])
    (h : splitAtFirst s pat = some (before, after)) :
    s.toList = before.toList ++ pat.toList ++ after.toList := by
  unfold splitAtFirst at h
  split at h
  · next hcontains =>
    obtain ⟨rfl, rfl⟩ := Prod.mk.inj (Option.some.inj h)
    simpa using takeBefore_append_drop hpat (of_decide_eq_true hcontains)
  · cases h

/-- The first match is where it was put. -/
lemma splitAtFirst_first {l r : List Char} {pat : String} (hpat : pat.toList ≠ [])
    (hfirst : ∀ i < l.length, ¬ OccursAt pat.toList i (l ++ (pat.toList ++ r))) :
    splitAtFirst (String.ofList (l ++ (pat.toList ++ r))) pat =
      some (String.ofList l, String.ofList r) := by
  have hcontains : contains (String.ofList (l ++ (pat.toList ++ r))) pat = true := by
    rw [contains, decide_eq_true_eq, String.toList_ofList]
    exact ⟨l, r, List.append_assoc l _ r⟩
  have hbefore := (takeBefore_append_iff hpat (List.prefix_append pat.toList r)).mpr hfirst
  rw [splitAtFirst, if_pos hcontains]
  simp only [String.toList_ofList, hbefore]
  rw [← List.drop_drop, List.drop_left, List.drop_left]

end TakeBefore

section OneMatch

variable {pat new s before after : List Char}

lemma countFrom_of_not_infix (h : ¬ pat <:+: s) : countFrom pat 0 s = 0 := by
  induction s with
  | nil => rfl
  | cons c cs ih =>
      have hfirst : ¬ pat.isPrefixOf (c :: cs) = true :=
        fun hpre => h (List.isPrefixOf_iff_prefix.mp hpre).isInfix
      have hcs : ¬ pat <:+: cs := fun hin => h (hin.trans (List.suffix_cons c cs).isInfix)
      rw [countFrom, if_neg hfirst, ih hcs]

lemma countFrom_skip (l : List Char) : countFrom pat l.length (l ++ s) = countFrom pat 0 s := by
  induction l with
  | nil => rfl
  | cons c l ih => exact ih

/-- The pattern occurs nowhere but after these characters. -/
def OnlyAfter (pat before s : List Char) : Prop :=
  ∀ l r, s = l ++ pat ++ r → l = before

lemma OnlyAfter.drop {c : Char} (h : OnlyAfter pat (c :: before) (c :: s)) :
    OnlyAfter pat before s := by
  intro l r hs
  have hcons := h (c :: l) r (by rw [hs]; rfl)
  exact (List.cons.inj hcons).2

/-- The places of a pattern in a given text can be looked up. -/
lemma onlyAfter_of_places
    (h : ∀ i ∈ List.range (s.length + 1), pat <+: s.drop i → s.take i = before) :
    OnlyAfter pat before s := by
  rintro l r rfl
  have hi : l.length ∈ List.range ((l ++ pat ++ r).length + 1) := by
    rw [List.mem_range]
    simp only [List.length_append]
    omega
  have hl := h l.length hi (by rw [List.append_assoc, List.drop_left]; exact List.prefix_append _ _)
  rwa [List.append_assoc, List.take_left] at hl

/-- A pattern with one place is matched once. -/
lemma countFrom_eq_one (hpat : pat ≠ []) (h : OnlyAfter pat before (before ++ pat ++ after)) :
    countFrom pat 0 (before ++ pat ++ after) = 1 := by
  induction before with
  | nil =>
      obtain ⟨c, cs, rfl⟩ := List.exists_cons_of_ne_nil hpat
      have hrest : ¬ (c :: cs) <:+: after := by
        rintro ⟨l, r, hafter⟩
        have hnil := h (c :: cs ++ l) r (by rw [← hafter]; simp)
        simp at hnil
      have hfirst : (c :: cs).isPrefixOf (c :: (cs ++ after)) = true :=
        List.isPrefixOf_iff_prefix.mpr ⟨after, rfl⟩
      rw [List.nil_append, List.cons_append, countFrom, if_pos hfirst, List.length_cons,
        Nat.add_sub_cancel, countFrom_skip, countFrom_of_not_infix hrest]
  | cons c before ih =>
      have hfirst : ¬ pat.isPrefixOf (c :: (before ++ pat ++ after)) = true := by
        intro hpre
        obtain ⟨r, hr⟩ := List.isPrefixOf_iff_prefix.mp hpre
        have hnil := h [] r hr.symm
        cases hnil
      rw [List.cons_append, List.cons_append, countFrom, if_neg hfirst]
      exact ih h.drop

/-- The only match is the one that is replaced. -/
lemma replaceFrom_eq (hpat : pat ≠ []) (h : OnlyAfter pat before (before ++ pat ++ after)) :
    replaceFrom pat new (before ++ pat ++ after) = before ++ new ++ after := by
  induction before with
  | nil =>
      obtain ⟨c, cs, rfl⟩ := List.exists_cons_of_ne_nil hpat
      have hfirst : (c :: cs).isPrefixOf (c :: (cs ++ after)) = true :=
        List.isPrefixOf_iff_prefix.mpr ⟨after, rfl⟩
      rw [List.nil_append, List.cons_append, replaceFrom, if_pos hfirst]
      simp
  | cons c before ih =>
      have hfirst : ¬ pat.isPrefixOf (c :: (before ++ pat ++ after)) = true := by
        intro hpre
        obtain ⟨r, hr⟩ := List.isPrefixOf_iff_prefix.mp hpre
        have hnil := h [] r hr.symm
        cases hnil
      rw [List.cons_append, List.cons_append, replaceFrom, if_neg hfirst]
      exact congrArg (c :: ·) (ih h.drop)

end OneMatch

section FirstMatch

/-- The pattern's first place. -/
structure FirstAt (pat : List α) (i : ℕ) (s : List α) : Prop where
  occurs : OccursAt pat i s
  first : ∀ j < i, ¬ OccursAt pat j s

lemma exists_firstAt {s : List α} (h : OccursAt pat i s) : ∃ k, FirstAt pat k s := by
  classical
  have hex : ∃ k, OccursAt pat k s := ⟨i, h⟩
  exact ⟨Nat.find hex, Nat.find_spec hex, fun j hj => Nat.find_min hex hj⟩

lemma FirstAt.of_succ {s : List α} (h : FirstAt pat (i + 1) (c :: s)) : FirstAt pat i s :=
  ⟨h.occurs, fun j hj => h.first (j + 1) (Nat.succ_lt_succ hj)⟩

variable {pat new s : List Char}

/-- Matches are counted from the end of the first one on. -/
lemma countFrom_firstAt (hpat : pat ≠ []) (h : FirstAt pat i s) :
    countFrom pat 0 s = 1 + countFrom pat 0 (s.drop (i + pat.length)) := by
  induction s generalizing i with
  | nil =>
      have hlen := h.occurs.length_le hpat
      have hpos := List.length_pos_iff.mpr hpat
      rw [List.length_nil] at hlen
      omega
  | cons c s ih =>
      cases i with
      | zero =>
          have hpre : pat <+: c :: s := h.occurs
          obtain ⟨rest, hrest⟩ := hpre
          obtain ⟨d, ds, rfl⟩ := List.exists_cons_of_ne_nil hpat
          obtain ⟨rfl, hs⟩ := List.cons.inj hrest
          have hfirst : (d :: ds).isPrefixOf (d :: s) = true :=
            List.isPrefixOf_iff_prefix.mpr h.occurs
          rw [countFrom, if_pos hfirst, List.length_cons, Nat.add_sub_cancel, Nat.zero_add,
            List.drop_succ_cons, ← hs]
          exact congrArg (1 + ·) ((countFrom_skip ds).trans (congrArg _ List.drop_left.symm))
      | succ i =>
          have hfirst : ¬ pat.isPrefixOf (c :: s) = true :=
            fun hpre => h.first 0 (Nat.succ_pos i) (List.isPrefixOf_iff_prefix.mp hpre)
          rw [countFrom, if_neg hfirst, ih h.of_succ, Nat.succ_add i, List.drop_succ_cons]

/-- The first match is the one that is replaced. -/
lemma replaceFrom_firstAt (hpat : pat ≠ []) (h : FirstAt pat i s) :
    replaceFrom pat new s = s.take i ++ new ++ s.drop (i + pat.length) := by
  induction s generalizing i with
  | nil =>
      have hlen := h.occurs.length_le hpat
      have hpos := List.length_pos_iff.mpr hpat
      rw [List.length_nil] at hlen
      omega
  | cons c s ih =>
      cases i with
      | zero =>
          have hfirst : pat.isPrefixOf (c :: s) = true := List.isPrefixOf_iff_prefix.mpr h.occurs
          rw [replaceFrom, if_pos hfirst, List.take_zero, List.nil_append, Nat.zero_add]
      | succ i =>
          have hfirst : ¬ pat.isPrefixOf (c :: s) = true :=
            fun hpre => h.first 0 (Nat.succ_pos i) (List.isPrefixOf_iff_prefix.mp hpre)
          rw [replaceFrom, if_neg hfirst, ih h.of_succ, Nat.succ_add i, List.drop_succ_cons,
            List.take_succ_cons, List.cons_append, List.cons_append]

lemma countFrom_eq_zero_iff (hpat : pat ≠ []) :
    countFrom pat 0 s = 0 ↔ ∀ i, ¬ OccursAt pat i s := by
  constructor
  · intro hzero i hi
    obtain ⟨k, hk⟩ := exists_firstAt hi
    rw [countFrom_firstAt hpat hk] at hzero
    omega
  · intro hnone
    apply countFrom_of_not_infix
    intro hin
    obtain ⟨i, hi⟩ := infix_iff_occursAt.mp hin
    exact hnone i hi

/-- One match is counted when no occurrence begins after the end of the first one. -/
lemma countFrom_eq_one_iff (hpat : pat ≠ []) (h : FirstAt pat i s) :
    countFrom pat 0 s = 1 ↔ ∀ j, OccursAt pat j s → j < i + pat.length := by
  rw [countFrom_firstAt hpat h, Nat.add_eq_left, countFrom_eq_zero_iff hpat]
  constructor
  · intro hnone j hj
    by_contra hlate
    apply hnone (j - (i + pat.length))
    have hle : i + pat.length ≤ j := by omega
    unfold OccursAt at hj ⊢
    rwa [List.drop_drop, Nat.add_sub_cancel' hle]
  · intro hclose j hj
    have hlate : OccursAt pat (i + pat.length + j) s := by
      unfold OccursAt at hj ⊢
      rwa [List.drop_drop] at hj
    have hlt := hclose _ hlate
    omega

end FirstMatch

section AllMatches

variable {pat new l r : List Char} {x : Char}

lemma replaceAllFrom_skip (l : List Char) :
    replaceAllFrom pat new l.length (l ++ r) = replaceAllFrom pat new 0 r := by
  induction l with
  | nil => cases r <;> rfl
  | cons c l ih => exact ih

lemma replaceAllFrom_match (hpat : pat ≠ []) :
    replaceAllFrom pat new 0 (pat ++ r) = new ++ replaceAllFrom pat new 0 r := by
  obtain ⟨c, cs, rfl⟩ := List.exists_cons_of_ne_nil hpat
  have hfirst : (c :: cs).isPrefixOf (c :: (cs ++ r)) = true :=
    List.isPrefixOf_iff_prefix.mpr ⟨r, rfl⟩
  rw [List.cons_append, replaceAllFrom, if_pos hfirst, List.length_cons, Nat.add_sub_cancel,
    replaceAllFrom_skip]

lemma replaceAllFrom_cons (h : ¬ pat <+: x :: r) :
    replaceAllFrom pat new 0 (x :: r) = x :: replaceAllFrom pat new 0 r := by
  rw [replaceAllFrom, if_neg (fun hpre => h (List.isPrefixOf_iff_prefix.mp hpre))]

lemma replaceAllFrom_single (x : Char) (l : List Char) :
    replaceAllFrom [x] new 0 l = l.flatMap fun c => if c = x then new else [c] := by
  induction l with
  | nil => rfl
  | cons c l ih =>
      rw [List.flatMap_cons]
      by_cases hc : c = x
      · have hmatch : replaceAllFrom [x] new 0 ([x] ++ l) = new ++ replaceAllFrom [x] new 0 l :=
          replaceAllFrom_match (List.cons_ne_nil x [])
        rw [hc, if_pos rfl, ← ih]
        exact hmatch
      · have hfirst : ¬ [x] <+: c :: l := fun hpre => hc (List.cons_prefix_cons.mp hpre).1.symm
        rw [if_neg hc, replaceAllFrom_cons hfirst, ih, List.singleton_append]

lemma countFrom_match (hpat : pat ≠ []) :
    countFrom pat 0 (pat ++ r) = 1 + countFrom pat 0 r := by
  obtain ⟨c, cs, rfl⟩ := List.exists_cons_of_ne_nil hpat
  have hfirst : (c :: cs).isPrefixOf (c :: (cs ++ r)) = true :=
    List.isPrefixOf_iff_prefix.mpr ⟨r, rfl⟩
  rw [List.cons_append, countFrom, if_pos hfirst, List.length_cons, Nat.add_sub_cancel,
    countFrom_skip]

lemma countFrom_outside (h : ∀ k < l.length, ¬ pat <+: l.drop k ++ r) :
    countFrom pat 0 (l ++ r) = countFrom pat 0 r := by
  induction l with
  | nil => rfl
  | cons c l ih =>
      have hfirst : ¬ pat <+: c :: (l ++ r) := h 0 (Nat.succ_pos _)
      have hrest := ih fun k hk => h (k + 1) (Nat.succ_lt_succ hk)
      rw [List.cons_append, countFrom, if_neg (fun hp => hfirst (List.isPrefixOf_iff_prefix.mp hp)),
        hrest]

/-- No match reaches over a character that the pattern can only begin with. -/
lemma prefix_before (hx : x ∉ pat.tail) (h : pat <+: l ++ x :: r) (hl : l ≠ []) : pat <+: l := by
  refine List.prefix_of_prefix_length_le h (List.prefix_append l (x :: r)) ?_
  by_contra hlong
  obtain ⟨y, ys, rfl⟩ := List.exists_cons_of_ne_nil hl
  have hget : (pat.tail)[ys.length]? = some x := by
    obtain ⟨q, hq⟩ := h
    cases pat with
    | nil => exact absurd (Nat.zero_le _) hlong
    | cons p ps =>
        have hps : ys.length < ps.length := by
          simp only [List.length_cons] at hlong
          omega
        have htail : ps ++ q = ys ++ x :: r := (List.cons.inj hq).2
        rw [List.tail_cons, ← List.getElem?_append_left hps, htail,
          List.getElem?_append_right (le_refl _), Nat.sub_self, List.getElem?_cons_zero]
  exact hx (List.mem_of_getElem? hget)

/-- No match begins in one piece and ends in another when a character that the pattern does not
have stands between them. -/
lemma not_infix_append_cons (hpat : pat ≠ []) (hx : x ∉ pat) (hl : ¬ pat <:+: l)
    (hr : ¬ pat <:+: r) : ¬ pat <:+: l ++ x :: r := by
  induction l with
  | nil =>
      intro h
      rcases List.infix_cons_iff.mp h with hpre | hin
      · obtain ⟨y, ys, rfl⟩ := List.exists_cons_of_ne_nil hpat
        rw [(List.cons_prefix_cons.mp hpre).1] at hx
        exact hx List.mem_cons_self
      · exact hr hin
  | cons c l ih =>
      intro h
      have htail : x ∉ pat.tail := fun hmem => hx (List.mem_of_mem_tail hmem)
      rcases List.infix_cons_iff.mp h with hpre | hin
      · exact hl (prefix_before htail hpre (List.cons_ne_nil c l)).isInfix
      · exact ih (fun hin => hl (hin.trans (List.suffix_cons c l).isInfix)) hin

/-- A match that begins before a character that the pattern does not have also ends before it. -/
lemma OccursAt.within {i : ℕ} (h : OccursAt pat i (l ++ x :: r)) (hpat : pat ≠ []) (hx : x ∉ pat)
    (hi : i ≤ l.length) : OccursAt pat i l := by
  unfold OccursAt at h ⊢
  rw [List.drop_append_of_le_length hi] at h
  by_cases hend : l.drop i = []
  · obtain ⟨y, ys, rfl⟩ := List.exists_cons_of_ne_nil hpat
    rw [hend, List.nil_append, List.cons_prefix_cons] at h
    rw [h.1] at hx
    exact absurd List.mem_cons_self hx
  · exact prefix_before (fun hmem => hx (List.mem_of_mem_tail hmem)) h hend

/-- A text is replaced piece by piece when the second piece begins outside every match. -/
lemma replaceAllFrom_append (hpat : pat ≠ []) (hx : x ∉ pat.tail) :
    replaceAllFrom pat new 0 (l ++ x :: r) =
      replaceAllFrom pat new 0 l ++ replaceAllFrom pat new 0 (x :: r) := by
  induction hn : l.length using Nat.strong_induction_on generalizing l with
  | _ n ih =>
      cases l with
      | nil => rfl
      | cons c l =>
          by_cases hpre : pat <+: c :: l
          · obtain ⟨rest, hrest⟩ := hpre
            have hshort : rest.length < n := by
              have hlen := congrArg List.length hrest
              have hpos := List.length_pos_iff.mpr hpat
              rw [List.length_append] at hlen
              omega
            rw [← hrest, List.append_assoc, replaceAllFrom_match hpat, replaceAllFrom_match hpat,
              ih rest.length hshort rfl, List.append_assoc]
          · have hpre' : ¬ pat <+: c :: (l ++ x :: r) :=
              fun h => hpre (prefix_before hx h (List.cons_ne_nil c l))
            have hshort : l.length < n := by
              rw [List.length_cons] at hn
              omega
            rw [List.cons_append, replaceAllFrom_cons hpre', replaceAllFrom_cons hpre,
              ih l.length hshort rfl, List.cons_append]

lemma replaceAllFrom_free (h : ¬ pat <:+: l) : replaceAllFrom pat new 0 l = l := by
  induction l with
  | nil => rfl
  | cons c l ih =>
      have hpre : ¬ pat <+: c :: l := fun hpre => h hpre.isInfix
      have hl : ¬ pat <:+: l := fun hin => h (hin.trans (List.suffix_cons c l).isInfix)
      rw [replaceAllFrom_cons hpre, ih hl]

end AllMatches

section Numbers

lemma digitValue_of_isDigit {c : Char} (h : c.isDigit = true) :
    digitValue c = some (c.toNat - '0'.toNat) := by
  rw [Char.isDigit_iff_toNat] at h
  unfold digitValue
  rw [if_pos ⟨h.1, h.2⟩]

lemma mapM_digitValue {cs : List Char} (h : ∀ c ∈ cs, c.isDigit = true) :
    cs.mapM digitValue = some (cs.map fun c => c.toNat - '0'.toNat) := by
  induction cs with
  | nil => rfl
  | cons c cs ih =>
      rw [List.mapM_cons, digitValue_of_isDigit (h c List.mem_cons_self),
        ih fun d hd => h d (List.mem_cons_of_mem _ hd)]
      rfl

/-- A 32-bit number is read back from its decimal digits. -/
lemma parseU32_repr {n : ℕ} (hn : n < 2 ^ 32) : parseU32 n.repr = some n := by
  have hdigits : ∀ c ∈ Nat.toDigits 10 n, c.isDigit = true :=
    fun c hc => Nat.isDigit_of_mem_toDigits (by decide) (by decide) hc
  have hne : Nat.toDigits 10 n ≠ [] := Nat.toDigits_ne_nil
  have hplus : (Nat.toDigits 10 n).head? ≠ some '+' := by
    intro h
    exact absurd (hdigits '+' (List.mem_of_mem_head? h)) (by decide)
  have hvalue : ((Nat.toDigits 10 n).map fun c => c.toNat - '0'.toNat).foldl
      (fun acc d => 10 * acc + d) 0 = n := by
    rw [List.foldl_map]
    exact Nat.ofDigitChars_ten_toDigits
  unfold parseU32
  rw [Nat.toList_repr, if_neg hplus]
  simp only [mapM_digitValue hdigits, Option.bind_eq_bind, Option.bind_some, hvalue]
  rw [if_pos ⟨by simp [hne], hn⟩]

end Numbers

end Loker.TextSearch
