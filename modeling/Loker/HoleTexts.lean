import Loker.TextSearch

/-! Texts with named holes: filling the holes one name after the other, by replacing the needle
that stands in each, against filling them all at once. -/

namespace Loker.HoleTexts

open TextOps TextSearch

section Replacing

variable {α : Type} (view : α → Char) (pat : List Char) (new : List α)

/-- Every match of the pattern replaced, from the left, over characters with whatever stands beside
them; `skip` counts the characters of the last match still to pass. -/
def replaceBy : ℕ → List α → List α
  | _, [] => []
  | skip + 1, _ :: s => replaceBy skip s
  | 0, x :: s =>
      if pat.isPrefixOf ((x :: s).map view) then new ++ replaceBy (pat.length - 1) s
      else x :: replaceBy 0 s

variable {view pat new} {l r s own : List α}

/-- What stands beside the characters has no part in what is replaced. -/
lemma map_replaceBy (skip : ℕ) (s : List α) : (replaceBy view pat new skip s).map view =
    replaceAllFrom pat (new.map view) skip (s.map view) := by
  induction s generalizing skip with
  | nil => cases skip <;> rfl
  | cons x s ih =>
      cases skip with
      | succ skip => exact ih skip
      | zero =>
          rw [replaceBy, List.map_cons, replaceAllFrom]
          split
          · rw [List.map_append, ih]
          · rw [List.map_cons, ih]

lemma replaceBy_skip (l : List α) :
    replaceBy view pat new l.length (l ++ r) = replaceBy view pat new 0 r := by
  induction l with
  | nil => rfl
  | cons x l ih => exact ih

lemma replaceBy_match (hpat : pat ≠ []) (hown : own.map view = pat) :
    replaceBy view pat new 0 (own ++ r) = new ++ replaceBy view pat new 0 r := by
  cases own with
  | nil => exact absurd hown.symm hpat
  | cons x own =>
      have hfirst : pat.isPrefixOf ((x :: (own ++ r)).map view) = true := by
        rw [List.isPrefixOf_iff_prefix, ← hown]
        exact ⟨r.map view, by rw [← List.map_append, List.cons_append]⟩
      have hlength : pat.length - 1 = own.length := by
        rw [← hown, List.length_map, List.length_cons, Nat.add_sub_cancel]
      rw [List.cons_append, replaceBy, if_pos hfirst, hlength, replaceBy_skip]

/-- A piece that no match begins in is kept. -/
lemma replaceBy_outside (h : ∀ k < l.length, ¬ pat <+: (l.drop k ++ r).map view) :
    replaceBy view pat new 0 (l ++ r) = l ++ replaceBy view pat new 0 r := by
  induction l with
  | nil => rfl
  | cons x l ih =>
      have hfirst : ¬ pat.isPrefixOf ((x :: (l ++ r)).map view) = true :=
        fun hpre => h 0 (Nat.succ_pos _) (List.isPrefixOf_iff_prefix.mp hpre)
      have hrest := ih fun k hk => h (k + 1) (Nat.succ_lt_succ hk)
      rw [List.cons_append, replaceBy, if_neg hfirst, hrest, List.cons_append]

lemma replaceBy_free (h : ¬ pat <:+: s.map view) : replaceBy view pat new 0 s = s := by
  have hkeep : replaceBy view pat new 0 (s ++ []) = s ++ replaceBy view pat new 0 [] := by
    apply replaceBy_outside
    intro k _ hpre
    rw [List.append_nil, List.map_drop] at hpre
    exact h (hpre.isInfix.trans (List.drop_suffix k _).isInfix)
  rw [List.append_nil] at hkeep
  exact hkeep.trans (List.append_nil s)

end Replacing

section Texts

variable {α κ : Type}

/-- A hole holds its own text until it is filled. -/
inductive Piece (α κ : Type) where
  | lit (x : α)
  | hole (k : κ) (own : List α)
  deriving DecidableEq, Repr

def Piece.fill (f : κ → Option (List α)) : Piece α κ → List α
  | .lit x => [x]
  | .hole k own => (f k).getD own

def fill (f : κ → Option (List α)) (ps : List (Piece α κ)) : List α := ps.flatMap (Piece.fill f)

/-- Wherever the pattern is in the text, it stands in an open hole of this name. -/
def OnlyIn (view : α → Char) (f : κ → Option (List α)) (pat : List Char) (k : κ)
    (ps : List (Piece α κ)) : Prop :=
  ∀ l r, (fill f ps).map view = l ++ pat ++ r →
    f k = none ∧ ∃ qs own rs, ps = qs ++ .hole k own :: rs ∧ (fill f qs).length = l.length

/-- In each hole of the name stands the pattern. -/
def Holding (view : α → Char) (pat : List Char) (k : κ) (ps : List (Piece α κ)) : Prop :=
  ∀ own, .hole k own ∈ ps → own.map view = pat

variable {view : α → Char} {f g : κ → Option (List α)} {pat : List Char} {new : List α} {k : κ}
  {p : Piece α κ} {ps : List (Piece α κ)}

@[simp] lemma fill_nil : fill f ([] : List (Piece α κ)) = [] := rfl

@[simp] lemma fill_cons : fill f (p :: ps) = p.fill f ++ fill f ps := rfl

lemma fill_append (ps qs : List (Piece α κ)) : fill f (ps ++ qs) = fill f ps ++ fill f qs :=
  List.flatMap_append

lemma fill_congr (h : ∀ k own, .hole k own ∈ ps → (f k).getD own = (g k).getD own) :
    fill f ps = fill g ps := by
  induction ps with
  | nil => rfl
  | cons p ps ih =>
      rw [fill_cons, fill_cons, ih fun k own hmem => h k own (List.mem_cons_of_mem p hmem)]
      cases p with
      | lit x => rfl
      | hole k own => rw [Piece.fill, Piece.fill, h k own List.mem_cons_self]

lemma mem_fill_lit {x : α} (h : .lit x ∈ ps) : x ∈ fill f ps :=
  List.mem_flatMap.mpr ⟨_, h, List.mem_cons_self⟩

lemma mem_fill_filled {x : α} (h : x ∈ fill (fun _ => some new) ps) : .lit x ∈ ps ∨ x ∈ new := by
  obtain ⟨p, hp, hx⟩ := List.mem_flatMap.mp h
  cases p with
  | lit y =>
      rw [List.mem_singleton.mp hx]
      exact .inl hp
  | hole k own => exact .inr hx

lemma Holding.tail (h : Holding view pat k (p :: ps)) : Holding view pat k ps :=
  fun own hmem => h own (List.mem_cons_of_mem p hmem)

lemma OnlyIn.tail (hpat : pat ≠ []) (hholding : Holding view pat k (p :: ps)) (hopen : f k = none)
    (h : OnlyIn view f pat k (p :: ps)) : OnlyIn view f pat k ps := by
  intro l r hfill
  have hwhole : (fill f (p :: ps)).map view = ((p.fill f).map view ++ l) ++ pat ++ r := by
    rw [fill_cons, List.map_append, hfill, List.append_assoc, List.append_assoc, List.append_assoc]
  obtain ⟨_, qs, own, rs, hsplit, hqs⟩ := h _ _ hwhole
  refine ⟨hopen, ?_⟩
  rw [List.length_append, List.length_map] at hqs
  cases qs with
  | nil =>
      obtain ⟨rfl, _⟩ := List.cons.inj hsplit
      have hown := hholding own List.mem_cons_self
      rw [fill_nil, List.length_nil, Piece.fill, hopen, Option.getD_none] at hqs
      have hempty : own = [] := List.eq_nil_of_length_eq_zero (by omega)
      rw [hempty] at hown
      exact absurd hown.symm hpat
  | cons q qs =>
      obtain ⟨rfl, hrest⟩ := List.cons.inj hsplit
      rw [fill_cons, List.length_append] at hqs
      exact ⟨qs, own, rs, hrest, by omega⟩

/-- No match begins in a piece that is another hole or none. -/
lemma OnlyIn.not_within (h : OnlyIn view f pat k (p :: ps)) (hp : ∀ own, p ≠ .hole k own) {i : ℕ}
    (hi : i < (p.fill f).length) : ¬ pat <+: ((p.fill f).drop i ++ fill f ps).map view := by
  intro ⟨r, hr⟩
  have hwhole : (fill f (p :: ps)).map view = ((p.fill f).take i).map view ++ pat ++ r := by
    rw [List.append_assoc, hr, ← List.map_append, ← List.append_assoc, List.take_append_drop,
      fill_cons]
  obtain ⟨_, qs, own, rs, hsplit, hqs⟩ := h _ _ hwhole
  cases qs with
  | nil => exact hp own (List.cons.inj hsplit).1
  | cons q qs =>
      obtain ⟨rfl, _⟩ := List.cons.inj hsplit
      rw [fill_cons, List.length_append, List.length_map, List.length_take] at hqs
      omega

/-- Without an open hole of its name a pattern that stands nowhere else is not in the text. -/
lemma OnlyIn.free (h : OnlyIn view f pat k ps) (hfilled : f k ≠ none) :
    ¬ pat <:+: (fill f ps).map view := by
  intro ⟨l, r, hr⟩
  exact hfilled (h l r hr.symm).1

variable [DecidableEq κ]

/-- Replacing a needle fills the holes it stands in when it stands nowhere else. -/
lemma replaceBy_fill_open (hpat : pat ≠ []) (hopen : f k = none) (hholding : Holding view pat k ps)
    (h : OnlyIn view f pat k ps) :
    replaceBy view pat new 0 (fill f ps) = fill (Function.update f k (some new)) ps := by
  induction ps with
  | nil => rfl
  | cons p ps ih =>
      have hrest := ih hholding.tail (h.tail hpat hholding hopen)
      rw [fill_cons, fill_cons]
      by_cases hp : ∃ own, p = .hole k own
      · obtain ⟨own, rfl⟩ := hp
        have hown := hholding own List.mem_cons_self
        rw [Piece.fill, Piece.fill, hopen, Option.getD_none, replaceBy_match hpat hown, hrest,
          Function.update_self, Option.getD_some]
      · have hother : ∀ own, p ≠ .hole k own := fun own heq => hp ⟨own, heq⟩
        have hsame : p.fill (Function.update f k (some new)) = p.fill f := by
          cases p with
          | lit x => rfl
          | hole j own =>
              have hne : j ≠ k := fun heq => hother own (by rw [heq])
              rw [Piece.fill, Piece.fill, Function.update_of_ne hne]
        rw [hsame, replaceBy_outside fun i hi => h.not_within hother hi, hrest]

/-- A hole that is filled already keeps its text. -/
lemma replaceBy_fill (hpat : pat ≠ []) (hholding : Holding view pat k ps)
    (hfilled : ∀ own, .hole k own ∈ ps → f k = none ∨ f k = some new)
    (h : OnlyIn view f pat k ps) :
    replaceBy view pat new 0 (fill f ps) = fill (Function.update f k (some new)) ps := by
  by_cases hopen : f k = none
  · exact replaceBy_fill_open hpat hopen hholding h
  · rw [replaceBy_free (h.free hopen)]
    apply fill_congr
    intro j own hmem
    by_cases hj : j = k
    · subst hj
      rw [(hfilled own hmem).resolve_left hopen, Function.update_self]
    · rw [Function.update_of_ne hj]

/-- The holes of a name. -/
def Piece.named (k : κ) : Piece α κ → Bool
  | .lit _ => false
  | .hole j _ => decide (j = k)

lemma exists_of_named (h : p.named k = true) : ∃ own, p = .hole k own := by
  cases p with
  | lit x => cases h
  | hole j own => exact ⟨own, by rw [of_decide_eq_true h]⟩

/-- The places of a pattern can be looked up one after the other. -/
lemma onlyIn_iff : OnlyIn view f pat k ps ↔ ∀ i ∈ List.range ((fill f ps).length + 1),
    pat.isPrefixOf (((fill f ps).map view).drop i) = true → f k = none ∧
      ∃ j ∈ List.range ps.length,
        ps[j]?.any (Piece.named k) = true ∧ (fill f (ps.take j)).length = i := by
  constructor
  · intro h i hi hpre
    obtain ⟨r, hr⟩ := List.isPrefixOf_iff_prefix.mp hpre
    have hfill : (fill f ps).map view = ((fill f ps).map view).take i ++ pat ++ r := by
      rw [List.append_assoc, hr, List.take_append_drop]
    obtain ⟨hopen, qs, own, rs, hps, hqs⟩ := h _ _ hfill
    rw [List.length_take, List.length_map, Nat.min_eq_left (by simpa [Nat.lt_succ_iff] using hi)]
      at hqs
    refine ⟨hopen, qs.length, ?_, ?_, ?_⟩
    · rw [List.mem_range, hps, List.length_append, List.length_cons]
      omega
    · rw [hps, List.getElem?_append_right le_rfl, Nat.sub_self, List.getElem?_cons_zero]
      exact decide_eq_true rfl
    · rw [hps, List.take_left, hqs]
  · intro h l r hfill
    have hlen := congrArg List.length hfill
    rw [List.length_map, List.length_append, List.length_append] at hlen
    have hplace : pat.isPrefixOf (((fill f ps).map view).drop l.length) = true := by
      rw [hfill, List.append_assoc, List.drop_left, List.isPrefixOf_iff_prefix]
      exact List.prefix_append pat r
    obtain ⟨hopen, j, _, hhole, hj⟩ := h l.length (List.mem_range.mpr (by omega)) hplace
    obtain ⟨p, hget, hnamed⟩ := (Option.any_eq_true _ _).mp hhole
    obtain ⟨own, rfl⟩ := exists_of_named hnamed
    obtain ⟨hlt, hget⟩ := List.getElem?_eq_some_iff.mp hget
    refine ⟨hopen, ps.take j, own, ps.drop (j + 1), ?_, hj⟩
    rw [← hget, ← List.drop_eq_getElem_cons hlt, List.take_append_drop]

instance : Decidable (OnlyIn view f pat k ps) := decidable_of_iff _ onlyIn_iff.symm

/-- A needle is counted once for each hole when it stands nowhere else. -/
lemma countFrom_fill (hpat : pat ≠ []) (hopen : f k = none) (hholding : Holding view pat k ps)
    (h : OnlyIn view f pat k ps) :
    countFrom pat 0 ((fill f ps).map view) = ps.countP (Piece.named k) := by
  induction ps with
  | nil => rfl
  | cons p ps ih =>
      have hrest := ih hholding.tail (h.tail hpat hholding hopen)
      rw [fill_cons, List.map_append, List.countP_cons]
      by_cases hp : ∃ own, p = .hole k own
      · obtain ⟨own, rfl⟩ := hp
        have hown := hholding own List.mem_cons_self
        rw [Piece.fill, hopen, Option.getD_none, hown, countFrom_match hpat, hrest, Nat.add_comm,
          Piece.named, decide_eq_true rfl, if_pos rfl]
      · have hother : ∀ own, p ≠ .hole k own := fun own heq => hp ⟨own, heq⟩
        have hnamed : p.named k = false := by
          cases p with
          | lit x => rfl
          | hole j own => exact decide_eq_false fun heq => hother own (by rw [heq])
        have houtside : ∀ i < ((p.fill f).map view).length,
            ¬ pat <+: ((p.fill f).map view).drop i ++ (fill f ps).map view := by
          intro i hi
          rw [← List.map_drop, ← List.map_append]
          rw [List.length_map] at hi
          exact h.not_within hother hi
        rw [countFrom_outside houtside, hrest, hnamed]
        rfl

end Texts

section Steps

variable {α κ : Type} (view : α → Char) (needle : κ → List Char)

/-- Each step replaces the needle of its name. -/
def replaceSteps (steps : List (κ × List α)) (s : List α) : List α :=
  steps.foldl (fun s step => replaceBy view (needle step.1) step.2 0 s) s

lemma replaceSteps_append (steps more : List (κ × List α)) (s : List α) :
    replaceSteps view needle (steps ++ more) s =
      replaceSteps view needle more (replaceSteps view needle steps s) := List.foldl_append

variable [DecidableEq κ]

def filledBy (f : κ → Option (List α)) (steps : List (κ × List α)) : κ → Option (List α) :=
  steps.foldl (fun f step => Function.update f step.1 (some step.2)) f

/-- At each step the needle stands in the open holes of its name and nowhere else. -/
def Undisturbed (ps : List (Piece α κ)) : (κ → Option (List α)) → List (κ × List α) → Prop
  | _, [] => True
  | f, step :: steps =>
      (∀ own, .hole step.1 own ∈ ps → f step.1 = none ∨ f step.1 = some step.2) ∧
        OnlyIn view f (needle step.1) step.1 ps ∧
        Undisturbed ps (Function.update f step.1 (some step.2)) steps

variable {view needle} {f : κ → Option (List α)} {steps : List (κ × List α)}
  {ps : List (Piece α κ)} {k : κ} {v : List α}

lemma filled_iff : (∀ own, .hole k own ∈ ps → f k = none ∨ f k = some v) ↔
    (ps.any (Piece.named k) = true → f k = none ∨ f k = some v) := by
  constructor
  · intro h hany
    obtain ⟨p, hp, hnamed⟩ := List.any_eq_true.mp hany
    obtain ⟨own, rfl⟩ := exists_of_named hnamed
    exact h own hp
  · intro h own hmem
    exact h (List.any_eq_true.mpr ⟨_, hmem, decide_eq_true rfl⟩)

instance decidableUndisturbed [DecidableEq α] :
    ∀ f steps, Decidable (Undisturbed view needle ps f steps)
  | _, [] => isTrue trivial
  | f, step :: steps =>
      have := decidableUndisturbed (Function.update f step.1 (some step.2)) steps
      have : Decidable (∀ own, .hole step.1 own ∈ ps → f step.1 = none ∨ f step.1 = some step.2) :=
        decidable_of_iff _ filled_iff.symm
      inferInstanceAs (Decidable (_ ∧ _ ∧ _))

lemma replaceSteps_fill (hneedle : ∀ step ∈ steps, needle step.1 ≠ [])
    (hholding : ∀ k, Holding view (needle k) k ps) (h : Undisturbed view needle ps f steps) :
    replaceSteps view needle steps (fill f ps) = fill (filledBy f steps) ps := by
  induction steps generalizing f with
  | nil => rfl
  | cons step steps ih =>
      obtain ⟨hfilled, honly, hrest⟩ := h
      have hstep : replaceBy view (needle step.1) step.2 0 (fill f ps) =
          fill (Function.update f step.1 (some step.2)) ps :=
        replaceBy_fill (hneedle step List.mem_cons_self) (hholding step.1) hfilled honly
      calc replaceSteps view needle (step :: steps) (fill f ps)
          = replaceSteps view needle steps (fill (Function.update f step.1 (some step.2)) ps) :=
            congrArg (replaceSteps view needle steps) hstep
        _ = fill (filledBy f (step :: steps)) ps :=
            ih (fun step hmem => hneedle step (List.mem_cons_of_mem _ hmem)) hrest

lemma filledBy_of_notMem (h : k ∉ steps.map Prod.fst) : filledBy f steps k = f k := by
  induction steps generalizing f with
  | nil => rfl
  | cons step steps ih =>
      rw [List.map_cons, List.mem_cons, not_or] at h
      exact (ih h.2).trans (Function.update_of_ne h.1 (some step.2) f)

/-- A name that all its steps give the same text to has that text. -/
lemma filledBy_of_mem (hsame : ∀ step ∈ steps, step.1 = k → step.2 = v)
    (h : k ∈ steps.map Prod.fst) : filledBy f steps k = some v := by
  induction steps generalizing f with
  | nil => cases h
  | cons step steps ih =>
      have hrest : ∀ step ∈ steps, step.1 = k → step.2 = v :=
        fun step hmem => hsame step (List.mem_cons_of_mem _ hmem)
      by_cases hlater : k ∈ steps.map Prod.fst
      · exact ih hrest hlater
      · rcases List.mem_cons.mp h with heq | hmem
        · have hv := hsame step List.mem_cons_self heq.symm
          rw [heq] at hlater ⊢
          have hupdate : Function.update f step.1 (some step.2) step.1 = some v := by
            rw [Function.update_self, hv]
          exact (filledBy_of_notMem hlater).trans hupdate
        · exact absurd hmem hlater

lemma filledBy_concat (k : κ) (v : List α) :
    filledBy f (steps ++ [(k, v)]) = Function.update (filledBy f steps) k (some v) := by
  rw [filledBy, List.foldl_append]
  rfl

end Steps

section Reading

variable {α κ : Type} (view : α → Char) (needle : κ → List Char)

/-- The longest of the needles that the text begins with. -/
def longestAt (ks : List κ) (cs : List Char) : Option κ :=
  (ks.filter fun k => (needle k).isPrefixOf cs).argmax fun k => (needle k).length

/-- The text read from the left, each time by the longest needle; `skip` counts the characters of
the last one still to pass. -/
def holesFrom (ks : List κ) : ℕ → List α → List (Piece α κ)
  | _, [] => []
  | skip + 1, _ :: s => holesFrom ks skip s
  | 0, x :: s =>
      match longestAt needle ks ((x :: s).map view) with
      | some k =>
          .hole k ((x :: s).take (needle k).length) :: holesFrom ks ((needle k).length - 1) s
      | none => .lit x :: holesFrom ks 0 s

/-- Nothing is filled yet. -/
def unfilled : κ → Option (List α) := fun _ => none

variable {view needle} {ks js : List κ} {k : κ} {cs : List Char} {s own : List α}

lemma longestAt_mem (h : longestAt needle ks cs = some k) : k ∈ ks ∧ needle k <+: cs := by
  have hmem := List.argmax_mem h
  rw [List.mem_filter, List.isPrefixOf_iff_prefix] at hmem
  exact hmem

lemma holesFrom_skip (l : List α) :
    holesFrom view needle ks l.length (l ++ s) = holesFrom view needle ks 0 s := by
  induction l with
  | nil => rfl
  | cons x l ih => exact ih

lemma holesFrom_hole (hne : needle k ≠ []) (h : longestAt needle ks (s.map view) = some k) :
    ∃ own rest, s = own ++ rest ∧ own.map view = needle k ∧
      holesFrom view needle ks 0 s = .hole k own :: holesFrom view needle ks 0 rest := by
  obtain ⟨_, tail, htail⟩ := longestAt_mem h
  obtain ⟨own, rest, rfl, hown, _⟩ := List.map_eq_append_iff.mp htail.symm
  refine ⟨own, rest, rfl, hown, ?_⟩
  cases own with
  | nil => exact absurd hown.symm hne
  | cons x own =>
      have hlength : (needle k).length = own.length + 1 := by
        rw [← hown, List.length_map, List.length_cons]
      rw [List.cons_append] at h ⊢
      rw [holesFrom, h]
      dsimp only
      rw [hlength, Nat.add_sub_cancel, holesFrom_skip, List.take_succ_cons, List.take_left]

/-- A reading of a text: the pieces and what they hold put together. -/
inductive Reads (view : α → Char) (needle : κ → List Char) (ks : List κ) :
    List α → List (Piece α κ) → Prop
  | nil : Reads view needle ks [] []
  | lit {x : α} {s : List α} {ps : List (Piece α κ)}
      (hnone : longestAt needle ks ((x :: s).map view) = none) (h : Reads view needle ks s ps) :
      Reads view needle ks (x :: s) (.lit x :: ps)
  | hole {k : κ} {own rest : List α} {ps : List (Piece α κ)} (hk : k ∈ ks)
      (hown : own.map view = needle k) (h : Reads view needle ks rest ps) :
      Reads view needle ks (own ++ rest) (.hole k own :: ps)

lemma reads_holesFrom (hneedle : ∀ k ∈ ks, needle k ≠ []) (s : List α) :
    Reads view needle ks s (holesFrom view needle ks 0 s) := by
  induction hn : s.length using Nat.strong_induction_on generalizing s with
  | _ n ih =>
      cases s with
      | nil => exact .nil
      | cons x s =>
          cases hat : longestAt needle ks ((x :: s).map view) with
          | some k =>
              have hk := (longestAt_mem hat).1
              obtain ⟨own, rest, hsplit, hown, hread⟩ := holesFrom_hole (hneedle k hk) hat
              have hpos := List.length_pos_iff.mpr (hneedle k hk)
              have hlength := congrArg List.length hown
              have hlen := congrArg List.length hsplit
              rw [List.length_map] at hlength
              rw [List.length_append] at hlen
              rw [hread, hsplit]
              exact .hole hk hown (ih rest.length (by omega) rest rfl)
          | none =>
              rw [List.length_cons] at hn
              rw [holesFrom, hat]
              exact .lit hat (ih s.length (by omega) s rfl)

variable {ps : List (Piece α κ)}

/-- A text is its reading with nothing filled. -/
lemma Reads.fill_unfilled (h : Reads view needle ks s ps) : fill unfilled ps = s := by
  induction h with
  | nil => rfl
  | lit _ _ ih =>
      rw [fill_cons, ih]
      rfl
  | hole _ _ _ ih =>
      rw [fill_cons, ih]
      rfl

lemma Reads.hole_mem (h : Reads view needle ks s ps) (hmem : .hole k own ∈ ps) :
    k ∈ ks ∧ own.map view = needle k := by
  induction h with
  | nil => cases hmem
  | lit _ _ ih =>
      rcases List.mem_cons.mp hmem with heq | hmem
      · cases heq
      · exact ih hmem
  | hole hk hown _ ih =>
      rcases List.mem_cons.mp hmem with heq | hmem
      · cases heq
        exact ⟨hk, hown⟩
      · exact ih hmem

lemma Reads.holding (h : Reads view needle ks s ps) (k : κ) : Holding view (needle k) k ps :=
  fun _ hmem => (h.hole_mem hmem).2

/-- No needle begins within one of the needles, but the same at its beginning. -/
def Apart (needle : κ → List Char) (ks : List κ) : Prop :=
  ∀ k ∈ ks, ∀ j ∈ ks, ∀ i < (needle k).length, ∀ r,
    needle j <+: (needle k).drop i ++ r → i = 0 ∧ k = j

/-- Where needles cannot run into each other, each stands in holes of its name only. -/
lemma Apart.onlyIn (hneedle : ∀ k ∈ ks, needle k ≠ []) (hapart : Apart needle ks) (hk : k ∈ ks)
    (h : Reads view needle ks s ps) : OnlyIn view unfilled (needle k) k ps := by
  induction h with
  | nil =>
      intro l r hfill
      have hempty := (List.append_eq_nil_iff.mp (List.append_eq_nil_iff.mp hfill.symm).1).2
      exact absurd hempty (hneedle k hk)
  | @lit x s ps hnone h ih =>
      intro l r hfill
      refine ⟨rfl, ?_⟩
      rw [fill_cons, h.fill_unfilled] at hfill
      cases l with
      | nil =>
          rw [longestAt, List.argmax_eq_none, List.filter_eq_nil_iff] at hnone
          apply absurd (hnone k hk)
          rw [not_not, List.isPrefixOf_iff_prefix]
          exact ⟨r, hfill.symm⟩
      | cons c l =>
          have htail : s.map view = l ++ needle k ++ r := (List.cons.inj hfill).2
          rw [← h.fill_unfilled] at htail
          obtain ⟨_, qs, own, rs, rfl, hqs⟩ := ih l r htail
          refine ⟨.lit x :: qs, own, rs, rfl, ?_⟩
          rw [fill_cons, List.length_append, hqs, List.length_cons, Nat.add_comm]
          rfl
  | @hole j own rest ps hj hown h ih =>
      intro l r hfill
      refine ⟨rfl, ?_⟩
      rw [fill_cons, h.fill_unfilled, List.map_append] at hfill
      have hfill : needle j ++ rest.map view = l ++ (needle k ++ r) := by
        rw [← List.append_assoc, ← hfill, ← hown]
        rfl
      by_cases hl : l.length < (needle j).length
      · have hpre : needle k <+: (needle j).drop l.length ++ rest.map view := by
          rw [← List.drop_append_of_le_length hl.le, hfill, List.drop_left]
          exact List.prefix_append _ _
        obtain ⟨hzero, rfl⟩ := hapart j hj k hk l.length hl _ hpre
        exact ⟨[], own, ps, rfl, hzero.symm⟩
      · have hfirst : needle j <+: l ++ (needle k ++ r) := ⟨rest.map view, hfill⟩
        have hlater : needle j <+: l :=
          List.prefix_of_prefix_length_le hfirst (List.prefix_append _ _) (by omega)
        obtain ⟨l', rfl⟩ := hlater
        rw [List.append_assoc] at hfill
        have hrest : rest.map view = l' ++ needle k ++ r := by
          rw [List.append_assoc]
          exact List.append_cancel_left hfill
        rw [← h.fill_unfilled] at hrest
        obtain ⟨_, qs, own', rs, rfl, hqs⟩ := ih l' r hrest
        refine ⟨.hole j own :: qs, own', rs, rfl, ?_⟩
        rw [fill_cons, List.length_append, List.length_append, hqs, ← hown, List.length_map]
        rfl

/-- Of two needles that a text begins with, the longer one begins with the other. -/
lemma longestAt_perm (hneedle : Function.Injective needle) (h : ks.Perm js) (cs : List Char) :
    longestAt needle ks cs = longestAt needle js cs := by
  have hperm := h.filter fun k => (needle k).isPrefixOf cs
  cases hi : longestAt needle ks cs with
  | none =>
      rw [longestAt, List.argmax_eq_none] at hi
      rw [hi] at hperm
      rw [longestAt, hperm.symm.eq_nil]
      rfl
  | some i =>
      cases hj : longestAt needle js cs with
      | none =>
          rw [longestAt, List.argmax_eq_none] at hj
          rw [hj] at hperm
          rw [longestAt, hperm.eq_nil] at hi
          cases hi
      | some j =>
          have hij := List.le_of_mem_argmax (hperm.mem_iff.mp (List.argmax_mem hi)) hj
          have hji := List.le_of_mem_argmax (hperm.mem_iff.mpr (List.argmax_mem hj)) hi
          have hpre := List.prefix_of_prefix_length_le (longestAt_mem hi).2 (longestAt_mem hj).2 hij
          rw [hneedle (hpre.eq_of_length (Nat.le_antisymm hij hji))]

/-- The order in which the needles are looked for does not matter. -/
lemma holesFrom_perm (hneedle : Function.Injective needle) (h : ks.Perm js) (skip : ℕ)
    (s : List α) : holesFrom view needle ks skip s = holesFrom view needle js skip s := by
  induction s generalizing skip with
  | nil => cases skip <;> rfl
  | cons x s ih =>
      cases skip with
      | succ skip => exact ih skip
      | zero =>
          rw [holesFrom, holesFrom, longestAt_perm hneedle h]
          cases longestAt needle js ((x :: s).map view) with
          | some k => exact congrArg (_ :: ·) (ih _)
          | none => exact congrArg (.lit x :: ·) (ih 0)

end Reading

end Loker.HoleTexts
