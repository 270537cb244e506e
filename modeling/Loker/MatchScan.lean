import Mathlib

/-! Replacing the matches of a pattern from the left, and the same on a text that keeps its places.
A replaced stretch of such a text is one mark and its continuation, so that places stay what they
are; what is shown has the marker's text there. -/

namespace Loker.MatchScan

/-- A match by the lengths of its parts: what a replacement keeps, what it passes over, and the
value. -/
structure Match where
  kept : ℕ
  passed : ℕ
  value : ℕ
  deriving DecidableEq, Repr

def Match.length (m : Match) : ℕ := m.kept + m.passed + m.value

/-- What a pattern matches at a place, from the character before it and the text from it on. -/
abbrev Pattern := Option Char → List Char → Option Match

section Scan

variable {α β : Type}

/-- Matches from the left, each with `new` for all but its kept part; the number counts what is
still to pass of the last match. -/
def replaceFrom (view : α → Char) (pattern : Pattern) (new : List α) :
    Option Char → ℕ → List α → List α
  | _, _, [] => []
  | _, k + 1, x :: s => replaceFrom view pattern new (some (view x)) k s
  | before, 0, x :: s =>
      match pattern before ((x :: s).map view) with
      | none => x :: replaceFrom view pattern new (some (view x)) 0 s
      | some m => (x :: s).take m.kept ++
          (new ++ replaceFrom view pattern new (some (view x)) (m.length - 1) s)

def replaceAll (view : α → Char) (pattern : Pattern) (new s : List α) : List α :=
  replaceFrom view pattern new none 0 s

/-- What stands beside the characters has no part in it. -/
lemma replaceFrom_map {view : α → Char} {view' : β → Char} {f : α → β} {pattern : Pattern}
    {new : List α} (hview : ∀ x, view' (f x) = view x) (before : Option Char) (k : ℕ)
    (s : List α) : (replaceFrom view pattern new before k s).map f =
      replaceFrom view' pattern (new.map f) before k (s.map f) := by
  have hchars : ∀ s : List α, (s.map f).map view' = s.map view := by
    intro s
    rw [List.map_map]
    exact List.map_congr_left fun x _ => hview x
  induction s generalizing before k with
  | nil => cases k <;> rfl
  | cons x s ih =>
      cases k with
      | succ k =>
          rw [List.map_cons, replaceFrom, replaceFrom, hview]
          exact ih _ _
      | zero =>
          have hhere := hchars (x :: s)
          rw [List.map_cons] at hhere ⊢
          rw [replaceFrom, replaceFrom, hhere, hview]
          cases pattern before ((x :: s).map view) with
          | none => exact congrArg (f x :: ·) (ih _ _)
          | some m =>
              dsimp only
              rw [List.map_append, List.map_append, List.map_take, List.map_cons, ih]

end Scan

section Found

variable {pattern : Pattern} {u : List Char} {i j s : ℕ} {m : Match}

def charBefore (u : List Char) : ℕ → Option Char
  | 0 => none
  | i + 1 => u[i]?

def matchAt (pattern : Pattern) (u : List Char) (i : ℕ) : Option Match :=
  pattern (charBefore u i) (u.drop i)

/-- The match a place is in, with where it begins, as the scan from the left finds them. -/
def found (pattern : Pattern) (u : List Char) : ℕ → Option (ℕ × Match)
  | 0 => (matchAt pattern u 0).map (0, ·)
  | i + 1 => ((found pattern u i).filter fun (s, m) => i + 1 < s + m.length).or
      ((matchAt pattern u (i + 1)).map (i + 1, ·))

/-- A match has a character and lies in the text. -/
def Pattern.Fits (pattern : Pattern) : Prop :=
  ∀ before s m, pattern before s = some m → 0 < m.length ∧ m.length ≤ s.length

lemma found_spec (hfits : pattern.Fits) (h : found pattern u i = some (s, m)) :
    s ≤ i ∧ i < s + m.length ∧ matchAt pattern u s = some m ∧ found pattern u s = some (s, m) := by
  induction i with
  | zero =>
      rw [found, Option.map_eq_some_iff] at h
      obtain ⟨m', hm, heq⟩ := h
      cases heq
      have hpos := (hfits _ _ _ hm).1
      refine ⟨le_rfl, by omega, hm, ?_⟩
      rw [found, hm]
      rfl
  | succ i ih =>
      have hdef := h
      rw [found, Option.or_eq_some_iff] at h
      rcases h with hcarried | ⟨-, hfresh⟩
      · rw [Option.filter_eq_some_iff] at hcarried
        obtain ⟨hprev, hlt⟩ := hcarried
        obtain ⟨hle, _, hmatch, hstart⟩ := ih hprev
        exact ⟨by omega, by simpa using hlt, hmatch, hstart⟩
      · rw [Option.map_eq_some_iff] at hfresh
        obtain ⟨m', hm, heq⟩ := hfresh
        cases heq
        have hpos := (hfits _ _ _ hm).1
        exact ⟨le_rfl, by omega, hm, hdef⟩

lemma found_le_length (hfits : pattern.Fits) (h : found pattern u i = some (s, m)) :
    s + m.length ≤ u.length := by
  obtain ⟨_, _, hmatch, _⟩ := found_spec hfits h
  obtain ⟨hpos, hle⟩ := hfits _ _ _ hmatch
  rw [List.length_drop] at hle
  omega

/-- A place after the begin of a match and before its end is in it. -/
lemma found_within (h : found pattern u i = some (s, m)) (hij : i ≤ j) (hj : j < s + m.length) :
    found pattern u j = some (s, m) := by
  induction j, hij using Nat.le_induction with
  | base => exact h
  | succ j _ ih =>
      have hprev := ih (by omega)
      rw [found, hprev, Option.filter_some, if_pos (by simpa using hj)]
      rfl

/-- Where the pattern matches, the scan has found this match or is in an earlier one. -/
lemma found_of_matchAt (h : matchAt pattern u i = some m) :
    ∃ s m', found pattern u i = some (s, m') := by
  cases i with
  | zero => exact ⟨0, m, by rw [found, h]; rfl⟩
  | succ i =>
      cases hcarried : (found pattern u i).filter fun (s, m) => i + 1 < s + m.length with
      | some sm => exact ⟨sm.1, sm.2, by rw [found, hcarried]; rfl⟩
      | none => exact ⟨i + 1, m, by rw [found, hcarried, h]; rfl⟩

/-- What is still to pass at a place of the match before it. -/
def remaining (pattern : Pattern) (u : List Char) : ℕ → ℕ
  | 0 => 0
  | i + 1 =>
      match found pattern u i with
      | some (s, m) => s + m.length - (i + 1)
      | none => 0

/-- Where nothing is left of an earlier match, only one that begins there can be found. -/
lemma found_fresh (h : remaining pattern u i = 0) :
    found pattern u i = (matchAt pattern u i).map (i, ·) := by
  cases i with
  | zero => rfl
  | succ i =>
      have hnone : ((found pattern u i).filter fun (s, m) => i + 1 < s + m.length) = none := by
        rw [Option.filter_eq_none_iff]
        intro sm hsm
        rw [remaining, hsm] at h
        simp only [decide_eq_true_eq]
        dsimp only at h
        omega
      rw [found, hnone, Option.none_or]

lemma found_of_remaining (hfits : pattern.Fits) (h : 0 < remaining pattern u i) :
    ∃ s m, found pattern u i = some (s, m) ∧ s < i ∧ remaining pattern u i = s + m.length - i := by
  cases i with
  | zero => cases h
  | succ i =>
      cases hfound : found pattern u i with
      | none =>
          rw [remaining, hfound] at h
          cases h
      | some sm =>
          obtain ⟨s, m⟩ := sm
          have hrest : remaining pattern u (i + 1) = s + m.length - (i + 1) := by
            rw [remaining, hfound]
          have hbegin := (found_spec hfits hfound).1
          exact ⟨s, m, found_within hfound (by omega) (by omega), by omega, hrest⟩

lemma remaining_succ (h : found pattern u i = some (s, m)) :
    remaining pattern u (i + 1) = s + m.length - (i + 1) := by
  rw [remaining, h]

/-- Two texts have the same matches found if they match alike wherever one could be found. -/
lemma found_congr {u' : List Char} (h : ∀ i, found pattern u i = (matchAt pattern u i).map (i, ·) →
    matchAt pattern u' i = matchAt pattern u i) (i : ℕ) :
    found pattern u' i = found pattern u i := by
  induction i with
  | zero => rw [found, found, h 0 rfl]
  | succ i ih =>
      rw [found, found, ih]
      cases hcarried : (found pattern u i).filter fun (s, m) => i + 1 < s + m.length with
      | some sm => rfl
      | none =>
          have hfresh : found pattern u (i + 1) =
              (matchAt pattern u (i + 1)).map (i + 1, ·) := by
            rw [found, hcarried, Option.none_or]
          rw [h (i + 1) hfresh]

/-- A place whose character the replacement takes. -/
def taken (pattern : Pattern) (u : List Char) (i : ℕ) : Bool :=
  (found pattern u i).any fun (s, m) => s + m.kept ≤ i

lemma taken_iff : taken pattern u i = true ↔
    ∃ s m, found pattern u i = some (s, m) ∧ s + m.kept ≤ i := by
  rw [taken, Option.any_eq_true]
  constructor
  · rintro ⟨⟨s, m⟩, hfound, hle⟩
    exact ⟨s, m, hfound, of_decide_eq_true hle⟩
  · rintro ⟨s, m, hfound, hle⟩
    exact ⟨(s, m), hfound, decide_eq_true hle⟩

end Found

section Places

variable {α : Type}

/-- A place of a text: an item, the mark of a replaced stretch, or more of that stretch. -/
inductive Place (α : Type) where
  | item (x : α)
  | mark
  | cont

/-- What a mark shows, and the character that patterns see at a replaced place. -/
structure Marking (α : Type) where
  view : α → Char
  marker : List α
  stop : Char
  marker_last : marker.getLast?.map view = some stop

variable {k : Marking α} {pattern : Pattern} {M S : List (Place α)} {i j s : ℕ} {m : Match} {x : α}

def Marking.shown (k : Marking α) : Place α → List α
  | .item x => [x]
  | .mark => k.marker
  | .cont => []

def Marking.render (k : Marking α) (M : List (Place α)) : List α := M.flatMap k.shown

def Marking.char (k : Marking α) : Place α → Char
  | .item x => k.view x
  | _ => k.stop

def Marking.chars (k : Marking α) (M : List (Place α)) : List Char := M.map k.char

/-- The text with the matches of a pattern replaced; `fill` gives the places of a stretch. -/
def Marking.masked (k : Marking α) (pattern : Pattern) (fill : ℕ → Place α) (M : List (Place α)) :
    List (Place α) :=
  M.mapIdx fun j x =>
    match found pattern (k.chars M) j with
    | some (s, m) => if j < s + m.kept then x else fill (j - (s + m.kept))
    | none => x

/-- A continuation stands after a mark or a continuation. -/
def Joins : Place α → Place α → Prop
  | .item _, .cont => False
  | _, _ => True

def Joined (M : List (Place α)) : Prop := M.IsChain Joins ∧ M.head? ≠ some .cont

/-- The match on what a text shows: a mark counts as much as its marker. -/
def Marking.widened (k : Marking α) (S : List (Place α)) (m : Match) : Match where
  kept := (k.render (S.take m.kept)).length
  passed := (k.render ((S.drop m.kept).take m.passed)).length
  value := (k.render ((S.drop (m.kept + m.passed)).take m.value)).length

/-- A pattern that does not begin in a marker and sees a mark as its text. -/
structure Marking.Blind (k : Marking α) (pattern : Pattern) : Prop where
  fits : pattern.Fits
  inside : ∀ before v w s, k.marker = v ++ w → w ≠ [] →
    pattern before ((w ++ s).map k.view) = none
  stop : ∀ before v, pattern before (k.stop :: v) = none
  agrees : ∀ before x S, Joined (.item x :: S) →
    pattern before ((k.render (.item x :: S)).map k.view) =
      (pattern before (k.chars (.item x :: S))).map (k.widened (.item x :: S))

/-- The places of a replaced stretch show the replacement, and a continuation follows no item. -/
structure Marking.Fills (k : Marking α) (pattern : Pattern) (fill : ℕ → Place α) (new : List α) :
    Prop where
  kept_lt : ∀ before u m, pattern before u = some m → m.kept < m.length
  shows : ∀ before u m, pattern before u = some m →
    k.render ((List.range (m.length - m.kept)).map fill) = new
  first : fill 0 ≠ .cont
  next : ∀ n x, fill n = .item x → fill (n + 1) ≠ .cont
  last : ∀ before u m x, pattern before u = some m → fill (m.length - m.kept - 1) ≠ .item x

@[simp] lemma render_nil : k.render [] = [] := rfl

@[simp] lemma render_cons (x : Place α) (M : List (Place α)) :
    k.render (x :: M) = k.shown x ++ k.render M := List.flatMap_cons

@[simp] lemma render_append (M N : List (Place α)) :
    k.render (M ++ N) = k.render M ++ k.render N := List.flatMap_append

@[simp] lemma shown_item : k.shown (.item x) = [x] := rfl

@[simp] lemma length_chars (M : List (Place α)) : (k.chars M).length = M.length :=
  List.length_map ..

@[simp] lemma length_masked (fill : ℕ → Place α) (M : List (Place α)) :
    (k.masked pattern fill M).length = M.length := List.length_mapIdx

lemma getElem?_chars (M : List (Place α)) (i : ℕ) : (k.chars M)[i]? = M[i]?.map k.char :=
  List.getElem?_map ..

lemma drop_chars (M : List (Place α)) (i : ℕ) : (k.chars M).drop i = k.chars (M.drop i) :=
  List.map_drop.symm

lemma length_widened (S : List (Place α)) (m : Match) :
    (k.widened S m).length = (k.render (S.take m.length)).length := by
  have hsplit : S.take m.length =
      S.take m.kept ++ ((S.drop m.kept).take m.passed ++
        (S.drop (m.kept + m.passed)).take m.value) := by
    rw [Match.length, List.take_add, List.take_add, List.append_assoc]
  rw [hsplit, render_append, render_append, List.length_append, List.length_append]
  exact Nat.add_assoc _ _ _

lemma take_render (S : List (Place α)) (n : ℕ) :
    (k.render S).take (k.render (S.take n)).length = k.render (S.take n) := by
  conv_lhs => rw [← List.take_append_drop n S, render_append]
  simp

end Places

section Refinement

variable {α : Type} {k : Marking α} {pattern : Pattern} {M S : List (Place α)} {i n s : ℕ}
  {m : Match} {new : List α} {fill : ℕ → Place α}

/-- The character before what follows `w`. -/
def lastChar (view : α → Char) (before : Option Char) (w : List α) : Option Char :=
  (w.getLast?.map view).or before

lemma lastChar_cons (view : α → Char) (before : Option Char) (x : α) (w : List α) :
    lastChar view before (x :: w) = lastChar view (some (view x)) w := by
  cases w with
  | nil => rfl
  | cons y w =>
      obtain ⟨z, hz⟩ : ∃ z, (y :: w).getLast? = some z :=
        ⟨_, List.getLast?_eq_some_getLast (List.cons_ne_nil y w)⟩
      rw [lastChar, lastChar, List.getLast?_cons_cons, hz]
      rfl

lemma replaceFrom_pass (view : α → Char) (before : Option Char) (w t : List α) :
    replaceFrom view pattern new before (w.length + n) (w ++ t) =
      replaceFrom view pattern new (lastChar view before w) n t := by
  induction w generalizing before with
  | nil => simp [lastChar]
  | cons x w ih =>
      have hlength : (x :: w).length + n = w.length + n + 1 := by
        rw [List.length_cons]
        omega
      rw [hlength, List.cons_append, replaceFrom, ih, lastChar_cons]

/-- Nothing changes where no match begins. -/
lemma replaceFrom_unmatched (view : α → Char) (before : Option Char) (w t : List α)
    (h : ∀ before v w', w = v ++ w' → w' ≠ [] → pattern before ((w' ++ t).map view) = none) :
    replaceFrom view pattern new before 0 (w ++ t) =
      w ++ replaceFrom view pattern new (lastChar view before w) 0 t := by
  induction w generalizing before with
  | nil => simp [lastChar]
  | cons x w ih =>
      have hhere := h before [] (x :: w) rfl (List.cons_ne_nil _ _)
      have hrest := ih (some (view x)) fun before v w' hw hne =>
        h before (x :: v) w' (by rw [hw, List.cons_append]) hne
      rw [List.cons_append] at hhere ⊢
      rw [replaceFrom, hhere]
      dsimp only
      rw [hrest, lastChar_cons, List.cons_append]

lemma charBefore_succ {x : Place α} (h : M[i]? = some x) :
    charBefore (k.chars M) (i + 1) = some (k.char x) := by
  rw [charBefore, getElem?_chars, h]
  rfl

/-- Before a continuation patterns see what they see at a mark. -/
lemma charBefore_cont (hjoined : Joined M) (h : M[i]? = some .cont) :
    charBefore (k.chars M) i = some k.stop := by
  cases i with
  | zero =>
      rw [← List.head?_eq_getElem?] at h
      exact absurd h hjoined.2
  | succ i =>
      have hlt : i + 1 < M.length := (List.getElem?_eq_some_iff.mp h).1
      have hhere : M[i]? = some M[i] := List.getElem?_eq_getElem (by omega)
      have hjoins := List.isChain_iff_getElem.mp hjoined.1 i hlt
      rw [(List.getElem?_eq_some_iff.mp h).2] at hjoins
      rw [charBefore_succ hhere]
      cases hx : M[i] with
      | item x =>
          rw [hx] at hjoins
          exact hjoins.elim
      | mark => rfl
      | cont => rfl

lemma lastChar_shown (hjoined : Joined M) {x : Place α} (h : M[i]? = some x) :
    lastChar k.view (charBefore (k.chars M) i) (k.shown x) =
      charBefore (k.chars M) (i + 1) := by
  rw [charBefore_succ h]
  cases x with
  | item x => rfl
  | mark =>
      rw [lastChar, Marking.shown, k.marker_last]
      rfl
  | cont =>
      rw [charBefore_cont hjoined h]
      rfl

lemma getElem?_masked (i : ℕ) : (k.masked pattern fill M)[i]? = M[i]?.map fun x =>
    match found pattern (k.chars M) i with
    | some (s, m) => if i < s + m.kept then x else fill (i - (s + m.kept))
    | none => x := List.getElem?_mapIdx

lemma masked_of_not_found (h : found pattern (k.chars M) i = none) :
    (k.masked pattern fill M)[i]? = M[i]? := by
  rw [getElem?_masked, h]
  exact congrFun Option.map_id M[i]?

/-- In a match: the kept part as it is, then the replaced stretch. -/
lemma masked_of_found (h : found pattern (k.chars M) i = some (s, m)) (hi : i < M.length) :
    (k.masked pattern fill M)[i]? =
      if i < s + m.kept then M[i]? else some (fill (i - (s + m.kept))) := by
  rw [getElem?_masked, h, List.getElem?_eq_getElem hi, Option.map_some]
  dsimp only
  split <;> rfl

lemma found_end_le (hfits : pattern.Fits) (h : found pattern (k.chars M) i = some (s, m)) :
    s + m.length ≤ M.length := by
  have hle := found_le_length hfits h
  rwa [length_chars] at hle

lemma drop_masked (hfits : pattern.Fits) (h : found pattern (k.chars M) i = some (i, m)) :
    (k.masked pattern fill M).drop i = (M.drop i).take m.kept ++
      ((List.range (m.length - m.kept)).map fill ++
        (k.masked pattern fill M).drop (i + m.length)) := by
  have hend := found_end_le hfits h
  have hkept : m.kept ≤ m.length := by
    rw [Match.length]
    omega
  have hlength : ((M.drop i).take m.kept).length = m.kept := by
    rw [List.length_take, List.length_drop]
    omega
  apply List.ext_getElem?
  intro j
  rw [List.getElem?_drop]
  by_cases hin : j < m.length
  · have hfound := found_within h (Nat.le_add_right i j) (by omega)
    rw [masked_of_found hfound (by omega)]
    by_cases hj : j < m.kept
    · rw [if_pos (by omega), List.getElem?_append_left (by omega), List.getElem?_take_of_lt hj,
        List.getElem?_drop]
    · have hrange : j - m.kept < m.length - m.kept := by omega
      rw [if_neg (by omega), List.getElem?_append_right (by omega), hlength,
        List.getElem?_append_left (by simpa using hrange), List.getElem?_map,
        List.getElem?_range hrange]
      have hplace : i + j - (i + m.kept) = j - m.kept := by omega
      rw [hplace]
      rfl
  · rw [List.getElem?_append_right (by omega), hlength,
      List.getElem?_append_right (by simp only [List.length_map, List.length_range]; omega),
      List.getElem?_drop, List.length_map, List.length_range]
    have hplace : i + m.length + (j - m.kept - (m.length - m.kept)) = i + j := by omega
    rw [hplace]

lemma Joined.drop (hjoined : Joined M) {x : α} (h : M.drop i = .item x :: S) :
    Joined (M.drop i) := by
  refine ⟨hjoined.1.suffix (List.drop_suffix i M), ?_⟩
  rw [h, List.head?_cons]
  nofun

/-- Where no match is found, the place stays and the scan goes on. -/
lemma drop_masked_of_not_found (h : found pattern (k.chars M) i = none) {x : Place α}
    (hcons : M.drop i = x :: M.drop (i + 1)) :
    (k.masked pattern fill M).drop i = x :: (k.masked pattern fill M).drop (i + 1) := by
  have hat : M[i]? = some x := by
    rw [← List.head?_drop, hcons, List.head?_cons]
  have hkeeps : (k.masked pattern fill M)[i]? = M[i]? := masked_of_not_found h
  rw [← hkeeps] at hat
  obtain ⟨hlt, hx⟩ := List.getElem?_eq_some_iff.mp hat
  rw [List.drop_eq_getElem_cons hlt, hx]

/-- What the pattern matches at an item, in the text as it is shown. -/
lemma pattern_at_item (hblind : k.Blind pattern) (hjoined : Joined M) {x : α}
    (hcons : M.drop i = .item x :: M.drop (i + 1)) :
    pattern (charBefore (k.chars M) i) ((x :: k.render (M.drop (i + 1))).map k.view) =
      (matchAt pattern (k.chars M) i).map (k.widened (.item x :: M.drop (i + 1))) := by
  have hagrees := hblind.agrees (charBefore (k.chars M) i) x (M.drop (i + 1))
    (hcons ▸ hjoined.drop hcons)
  have hmatch : matchAt pattern (k.chars M) i =
      pattern (charBefore (k.chars M) i) (k.chars (.item x :: M.drop (i + 1))) := by
    rw [matchAt, drop_chars, hcons]
  rw [hmatch]
  exact hagrees

/-- A place at which no match begins is shown as it is. -/
lemma replaceFrom_unbegun (hblind : k.Blind pattern) (hjoined : Joined M) {x : Place α}
    (hat : M[i]? = some x) (hcons : M.drop i = x :: M.drop (i + 1))
    (hrest : remaining pattern (k.chars M) i = 0)
    (hnone : matchAt pattern (k.chars M) i = none)
    (hnext : replaceFrom k.view pattern new (charBefore (k.chars M) (i + 1)) 0
        (k.render (M.drop (i + 1))) = k.render ((k.masked pattern fill M).drop (i + 1))) :
    replaceFrom k.view pattern new (charBefore (k.chars M) i) 0 (k.render (M.drop i)) =
      k.render ((k.masked pattern fill M).drop i) := by
  have hfound : found pattern (k.chars M) i = none := by
    rw [found_fresh hrest, hnone]
    rfl
  rw [drop_masked_of_not_found hfound hcons, hcons, render_cons, render_cons, ← hnext,
    ← lastChar_shown (k := k) hjoined hat]
  cases x with
  | mark =>
      exact replaceFrom_unmatched _ _ _ _ fun before v w' hw hne =>
        hblind.inside before v w' _ hw hne
  | cont => rfl
  | item x =>
      have hshown := pattern_at_item hblind hjoined hcons
      rw [hnone, Option.map_none] at hshown
      rw [shown_item, List.singleton_append, List.singleton_append, replaceFrom, hshown]
      rfl

/-- A match is replaced whole, and the scan goes on behind it. -/
lemma replaceFrom_begun (hblind : k.Blind pattern) (hjoined : Joined M)
    (hfill : k.Fills pattern fill new) {x : α} (hat : M[i]? = some (.item x))
    (hcons : M.drop i = .item x :: M.drop (i + 1))
    (hrest : remaining pattern (k.chars M) i = 0)
    (hm : matchAt pattern (k.chars M) i = some m)
    (hnext : replaceFrom k.view pattern new (charBefore (k.chars M) (i + 1))
        (k.render ((M.drop (i + 1)).take (remaining pattern (k.chars M) (i + 1)))).length
        (k.render (M.drop (i + 1))) =
      k.render ((k.masked pattern fill M).drop (i + 1 + remaining pattern (k.chars M) (i + 1)))) :
    replaceFrom k.view pattern new (charBefore (k.chars M) i) 0 (k.render (M.drop i)) =
      k.render ((k.masked pattern fill M).drop i) := by
  have hfound : found pattern (k.chars M) i = some (i, m) := by
    rw [found_fresh hrest, hm]
    rfl
  have hpos := (hblind.fits _ _ _ hm).1
  have hsucc := remaining_succ hfound
  have hone : m.length = remaining pattern (k.chars M) (i + 1) + 1 := by omega
  have hplace : i + m.length = i + 1 + remaining pattern (k.chars M) (i + 1) := by omega
  have hlength : (k.widened (.item x :: M.drop (i + 1)) m).length - 1 =
      (k.render ((M.drop (i + 1)).take (remaining pattern (k.chars M) (i + 1)))).length := by
    rw [length_widened, hone, List.take_succ_cons, render_cons, shown_item, List.length_append,
      List.length_singleton, Nat.add_sub_cancel_left]
  have hkept : (x :: k.render (M.drop (i + 1))).take
      (k.widened (.item x :: M.drop (i + 1)) m).kept =
        k.render ((.item x :: M.drop (i + 1)).take m.kept) :=
    take_render (.item x :: M.drop (i + 1)) m.kept
  have hshown := pattern_at_item hblind hjoined hcons
  rw [hm, Option.map_some] at hshown
  have hbefore : charBefore (k.chars M) (i + 1) = some (k.view x) := charBefore_succ hat
  rw [hbefore] at hnext
  have hreal : k.render (.item x :: M.drop (i + 1)) = x :: k.render (M.drop (i + 1)) := rfl
  rw [hcons, hreal, replaceFrom, hshown]
  dsimp only
  rw [hkept, hlength, hnext, drop_masked hblind.fits hfound, hcons, render_append, render_append,
    hfill.shows _ _ _ hm, hplace]

/-- One step of the scan, where no earlier match is left to pass. -/
lemma replaceFrom_step (hblind : k.Blind pattern) (hjoined : Joined M)
    (hfill : k.Fills pattern fill new) {x : Place α}
    (hat : M[i]? = some x) (hcons : M.drop i = x :: M.drop (i + 1))
    (hrest : remaining pattern (k.chars M) i = 0)
    (hnext : replaceFrom k.view pattern new (charBefore (k.chars M) (i + 1))
        (k.render ((M.drop (i + 1)).take (remaining pattern (k.chars M) (i + 1)))).length
        (k.render (M.drop (i + 1))) =
      k.render ((k.masked pattern fill M).drop (i + 1 + remaining pattern (k.chars M) (i + 1)))) :
    replaceFrom k.view pattern new (charBefore (k.chars M) i) 0 (k.render (M.drop i)) =
      k.render ((k.masked pattern fill M).drop i) := by
  have hmatch : matchAt pattern (k.chars M) i =
      pattern (charBefore (k.chars M) i) (k.chars (x :: M.drop (i + 1))) := by
    rw [matchAt, drop_chars, hcons]
  cases hm : matchAt pattern (k.chars M) i with
  | none =>
      have hfound : found pattern (k.chars M) i = none := by
        rw [found_fresh hrest, hm]
        rfl
      have hzero : remaining pattern (k.chars M) (i + 1) = 0 := by
        rw [remaining, hfound]
      rw [hzero, List.take_zero] at hnext
      exact replaceFrom_unbegun hblind hjoined hat hcons hrest hm hnext
  | some m =>
      -- A pattern matches nothing at a replaced stretch.
      cases x with
      | item x => exact replaceFrom_begun hblind hjoined hfill hat hcons hrest hm hnext
      | mark => cases hm.symm.trans (hmatch.trans (hblind.stop _ _))
      | cont => cases hm.symm.trans (hmatch.trans (hblind.stop _ _))

/-- The scan over what a text shows goes with the scan over the text. -/
lemma replaceFrom_render (hblind : k.Blind pattern) (hjoined : Joined M)
    (hfill : k.Fills pattern fill new) (d i : ℕ)
    (hd : i + d = M.length) :
    replaceFrom k.view pattern new (charBefore (k.chars M) i)
        (k.render ((M.drop i).take (remaining pattern (k.chars M) i))).length
        (k.render (M.drop i)) =
      k.render ((k.masked pattern fill M).drop (i + remaining pattern (k.chars M) i)) := by
  induction d generalizing i with
  | zero =>
      have hdrop : M.drop i = [] := List.drop_eq_nil_iff.mpr (by omega)
      have hmasked : (k.masked pattern fill M).drop (i + remaining pattern (k.chars M) i) = [] :=
        List.drop_eq_nil_iff.mpr (by rw [length_masked]; omega)
      rw [hdrop, hmasked, List.take_nil, render_nil]
      rfl
  | succ d ih =>
      have hlt : i < M.length := by omega
      have hnext := ih (i + 1) (by omega)
      have hat : M[i]? = some M[i] := List.getElem?_eq_getElem hlt
      have hcons : M.drop i = M[i] :: M.drop (i + 1) := List.drop_eq_getElem_cons hlt
      have hlast := lastChar_shown (k := k) hjoined hat
      rcases Nat.eq_zero_or_pos (remaining pattern (k.chars M) i) with hrest | hrest
      · rw [hrest, List.take_zero, render_nil, List.length_nil]
        exact replaceFrom_step hblind hjoined hfill hat hcons hrest hnext
      · obtain ⟨s, m, hfound, _, hamount⟩ := found_of_remaining hblind.fits hrest
        have hsucc := remaining_succ hfound
        have hone : remaining pattern (k.chars M) i =
            remaining pattern (k.chars M) (i + 1) + 1 := by omega
        have hplace : i + (remaining pattern (k.chars M) (i + 1) + 1) =
            i + 1 + remaining pattern (k.chars M) (i + 1) := by omega
        rw [hone, hcons, List.take_succ_cons, render_cons, render_cons, List.length_append,
          replaceFrom_pass, hlast, hnext, hplace]

/-- Replacing in what a text shows is replacing in the text. -/
theorem replaceAll_render (hblind : k.Blind pattern) (hjoined : Joined M)
    (hfill : k.Fills pattern fill new) :
    replaceAll k.view pattern new (k.render M) = k.render (k.masked pattern fill M) := by
  have hall := replaceFrom_render hblind hjoined hfill M.length 0 (Nat.zero_add _)
  rw [remaining, List.take_zero, List.drop_zero, List.drop_zero] at hall
  exact hall

lemma joins_of_ne_cont {x y : Place α} (h : y ≠ .cont) : Joins x y := by
  cases y with
  | cont => exact absurd rfl h
  | item y => cases x <;> trivial
  | mark => cases x <;> trivial

lemma joins_of_ne_item {x y : Place α} (h : ∀ z, x ≠ .item z) : Joins x y := by
  cases x with
  | item x => exact absurd rfl (h x)
  | mark => trivial
  | cont => trivial

/-- A match begins at an item. -/
lemma ne_cont_of_found (hblind : k.Blind pattern) (h : found pattern (k.chars M) i = some (i, m)) :
    M[i]? ≠ some .cont := by
  intro hcont
  obtain ⟨_, _, hmatch, _⟩ := found_spec hblind.fits h
  have hcons : (k.chars M).drop i = k.stop :: (k.chars M).drop (i + 1) := by
    have hat : (k.chars M)[i]? = some k.stop := by
      rw [getElem?_chars, hcont]
      rfl
    obtain ⟨hlt, hx⟩ := List.getElem?_eq_some_iff.mp hat
    rw [List.drop_eq_getElem_cons hlt, hx]
  rw [matchAt, hcons, hblind.stop] at hmatch
  cases hmatch

/-- A continuation was there before, or lies in a replaced stretch. -/
lemma cont_of_masked (hblind : k.Blind pattern) (hfill : k.Fills pattern fill new)
    (h : (k.masked pattern fill M)[i]? = some .cont) :
    M[i]? = some .cont ∧
        (∀ s m, found pattern (k.chars M) i = some (s, m) → s < i ∧ i < s + m.kept) ∨
      ∃ s m, found pattern (k.chars M) i = some (s, m) ∧ s + m.kept < i ∧
        fill (i - (s + m.kept)) = .cont := by
  have hi : i < M.length := by
    have hlt := (List.getElem?_eq_some_iff.mp h).1
    rwa [length_masked] at hlt
  cases hfound : found pattern (k.chars M) i with
  | none =>
      rw [masked_of_not_found hfound] at h
      exact .inl ⟨h, nofun⟩
  | some sm =>
      obtain ⟨s, m⟩ := sm
      have hbegin := (found_spec hblind.fits hfound).1
      rw [masked_of_found hfound hi] at h
      split at h
      · next hkept =>
        refine .inl ⟨h, fun s' m' heq => ?_⟩
        cases heq
        have hne : s ≠ i := by
          rintro rfl
          exact ne_cont_of_found hblind hfound h
        exact ⟨by omega, hkept⟩
      · next hkept =>
        have hcont := Option.some.inj h
        have hne : i ≠ s + m.kept := by
          intro heq
          rw [heq, Nat.sub_self] at hcont
          exact hfill.first hcont
        exact .inr ⟨s, m, rfl, by omega, hcont⟩

/-- The last place of a match is in its replaced stretch. -/
lemma masked_at_end (hblind : k.Blind pattern) (hfill : k.Fills pattern fill new)
    (hfound : found pattern (k.chars M) i = some (s, m)) (hend : i + 1 = s + m.length) (x : α) :
    (k.masked pattern fill M)[i]? ≠ some (.item x) := by
  have hmatch := (found_spec hblind.fits hfound).2.2.1
  have hkept := hfill.kept_lt _ _ _ hmatch
  have hle := found_end_le hblind.fits hfound
  rw [masked_of_found hfound (by omega), if_neg (by omega)]
  have hplace : i - (s + m.kept) = m.length - m.kept - 1 := by omega
  rw [hplace]
  intro heq
  exact hfill.last _ _ _ x hmatch (Option.some.inj heq)

lemma joined_masked (hblind : k.Blind pattern) (hjoined : Joined M)
    (hfill : k.Fills pattern fill new) : Joined (k.masked pattern fill M) := by
  constructor
  · rw [List.isChain_iff_getElem]
    intro i hlt
    have hi : i + 1 < M.length := by rwa [length_masked] at hlt
    have hx : (k.masked pattern fill M)[i]? = some (k.masked pattern fill M)[i] :=
      List.getElem?_eq_getElem _
    have hy : (k.masked pattern fill M)[i + 1]? = some (k.masked pattern fill M)[i + 1] :=
      List.getElem?_eq_getElem hlt
    generalize (k.masked pattern fill M)[i] = x at hx ⊢
    generalize (k.masked pattern fill M)[i + 1] = y at hy ⊢
    by_cases hcont : y = .cont
    swap
    · exact joins_of_ne_cont hcont
    subst hcont
    rcases cont_of_masked hblind hfill hy with ⟨hbefore, hkept⟩ | ⟨s, m, hfound, hlt', hcont⟩
    · have hjoins : ∀ z, M[i]? = some z → Joins z .cont := by
        intro z hz
        obtain ⟨_, rfl⟩ := List.getElem?_eq_some_iff.mp hz
        have hnext := List.isChain_iff_getElem.mp hjoined.1 i hi
        rwa [(List.getElem?_eq_some_iff.mp hbefore).2] at hnext
      cases hprev : found pattern (k.chars M) i with
      | none =>
          rw [masked_of_not_found hprev] at hx
          exact hjoins x hx
      | some sm =>
          obtain ⟨s, m⟩ := sm
          obtain ⟨hbegin, hin, _, hstart⟩ := found_spec hblind.fits hprev
          by_cases hend : i + 1 = s + m.length
          · apply joins_of_ne_item
            rintro z rfl
            exact masked_at_end hblind hfill hprev hend z hx
          · have hfound := found_within hprev (Nat.le_succ i) (by omega)
            have hlt' := (hkept s m hfound).2
            rw [masked_of_found hprev (by omega), if_pos (by omega)] at hx
            exact hjoins x hx
    · obtain ⟨_, hin, _, hstart⟩ := found_spec hblind.fits hfound
      have hprev := found_within hstart (j := i) (by omega) (by omega)
      rw [masked_of_found hprev (by omega), if_neg (by omega)] at hx
      apply joins_of_ne_item
      rintro z rfl
      have hplace : i + 1 - (s + m.kept) = i - (s + m.kept) + 1 := by omega
      rw [hplace] at hcont
      exact hfill.next _ z (Option.some.inj hx) hcont
  · intro hhead
    rw [List.head?_eq_getElem?] at hhead
    rcases cont_of_masked hblind hfill hhead with ⟨hbefore, _⟩ | ⟨s, m, _, hlt, _⟩
    · rw [← List.head?_eq_getElem?] at hbefore
      exact hjoined.2 hbefore
    · omega

end Refinement

section Fill

variable {α : Type} {k : Marking α} {pattern : Pattern} {M : List (Place α)} {i : ℕ} {x y : α}

/-- One mark for a stretch. -/
def fillMark : ℕ → Place α
  | 0 => .mark
  | _ + 1 => .cont

/-- An item before the mark. -/
def fillAfter (x : α) : ℕ → Place α
  | 0 => .item x
  | n + 1 => fillMark n

lemma render_fillMark (n : ℕ) : k.render ((List.range (n + 1)).map fillMark) = k.marker := by
  induction n with
  | zero => exact List.append_nil k.marker
  | succ n ih =>
      rw [List.range_succ, List.map_append, render_append, ih]
      exact List.append_nil k.marker

lemma render_fillAfter (n : ℕ) :
    k.render ((List.range (n + 2)).map (fillAfter x)) = x :: k.marker := by
  induction n with
  | zero => exact congrArg (x :: ·) (List.append_nil k.marker)
  | succ n ih =>
      rw [List.range_succ, List.map_append, render_append, ih]
      exact congrArg (x :: ·) (List.append_nil k.marker)

lemma fills_mark (hkept : ∀ before u m, pattern before u = some m → m.kept < m.length) :
    k.Fills pattern fillMark k.marker where
  kept_lt := hkept
  shows before u m h := by
    obtain ⟨n, hn⟩ := Nat.exists_eq_add_of_lt (hkept before u m h)
    have hlength : m.length - m.kept = n + 1 := by omega
    rw [hlength, render_fillMark]
  first := nofun
  next n y h := by cases n <;> cases h
  last before u m y _ h := by
    cases hn : m.length - m.kept - 1 <;> rw [hn] at h <;> cases h

lemma fills_after (hlong : ∀ before u m, pattern before u = some m → m.kept + 2 ≤ m.length) :
    k.Fills pattern (fillAfter x) (x :: k.marker) where
  kept_lt before u m h := by
    have hle := hlong before u m h
    omega
  shows before u m h := by
    have hle := hlong before u m h
    have hlength : m.length - m.kept = m.length - m.kept - 2 + 2 := by omega
    rw [hlength, render_fillAfter]
  first := nofun
  next n y h := by
    cases n with
    | zero => nofun
    | succ n => cases n <;> cases h
  last before u m y hm h := by
    have hle := hlong before u m hm
    have hplace : m.length - m.kept - 1 = m.length - m.kept - 2 + 1 := by omega
    rw [hplace] at h
    cases hn : m.length - m.kept - 2 <;> rw [hn] at h <;> cases h

/-- The characters that the next pattern sees. -/
lemma chars_masked (hfits : pattern.Fits) (i : ℕ) :
    (k.chars (k.masked pattern fillMark M))[i]? =
      if taken pattern (k.chars M) i then some k.stop else (k.chars M)[i]? := by
  rw [getElem?_chars, taken]
  cases hfound : found pattern (k.chars M) i with
  | none =>
      rw [masked_of_not_found hfound, getElem?_chars]
      rfl
  | some sm =>
      obtain ⟨s, m⟩ := sm
      have hin := (found_spec hfits hfound).2.1
      have hend := found_end_le hfits hfound
      rw [masked_of_found hfound (by omega), Option.any_some, getElem?_chars]
      by_cases hkept : i < s + m.kept
      · rw [if_pos hkept, if_neg (by simpa using hkept)]
      · rw [if_neg hkept, if_pos (by simpa using hkept)]
        cases i - (s + m.kept) <;> rfl

/-- The same where an item stands before the mark. -/
lemma chars_masked_after (hfits : pattern.Fits) (i : ℕ) :
    (k.chars (k.masked pattern (fillAfter x) M))[i]? =
      if taken pattern (k.chars M) i then
        if (found pattern (k.chars M) i).any (fun (s, m) => i = s + m.kept) then some (k.view x)
        else some k.stop
      else (k.chars M)[i]? := by
  rw [getElem?_chars, taken]
  cases hfound : found pattern (k.chars M) i with
  | none =>
      rw [masked_of_not_found hfound, getElem?_chars]
      rfl
  | some sm =>
      obtain ⟨s, m⟩ := sm
      have hin := (found_spec hfits hfound).2.1
      have hend := found_end_le hfits hfound
      rw [masked_of_found hfound (by omega), Option.any_some, Option.any_some, getElem?_chars]
      by_cases hkept : i < s + m.kept
      · rw [if_pos hkept, if_neg (by simpa using hkept)]
      · rw [if_neg hkept, if_pos (by simpa using hkept)]
        by_cases hfirst : i = s + m.kept
        · rw [if_pos (by simpa using hfirst), hfirst, Nat.sub_self]
          rfl
        · rw [if_neg (by simpa using hfirst)]
          obtain ⟨n, hn⟩ : ∃ n, i - (s + m.kept) = n + 1 := ⟨i - (s + m.kept) - 1, by omega⟩
          rw [hn]
          cases n <;> rfl

lemma not_found_of_not_match (h : ∀ i, matchAt pattern (k.chars M) i = none) (i : ℕ) :
    found pattern (k.chars M) i = none := by
  cases hfound : found pattern (k.chars M) i with
  | none => rfl
  | some sm =>
      exfalso
      induction i with
      | zero =>
          rw [found, h 0] at hfound
          cases hfound
      | succ i ih =>
          rw [found, h (i + 1), Option.map_none, Option.or_none,
            Option.filter_eq_some_iff] at hfound
          exact ih hfound.1

/-- A text without matches stays as it is. -/
lemma masked_of_not_match {fill : ℕ → Place α} (h : ∀ i, matchAt pattern (k.chars M) i = none) :
    k.masked pattern fill M = M := by
  apply List.ext_getElem?
  intro i
  exact masked_of_not_found (not_found_of_not_match h i)

end Fill

end Loker.MatchScan
