import Mathlib

/-! Slices of a text at byte positions: the positions between two characters, the last one of them
before a given position, and what a slice there takes. -/

namespace Loker.ByteSlices

variable {cs p q : List Char} {n : ℕ}

def byteLen (cs : List Char) : ℕ := (cs.map Char.utf8Size).sum

@[simp] lemma byteLen_nil : byteLen [] = 0 := rfl

@[simp] lemma byteLen_cons (c : Char) (cs : List Char) :
    byteLen (c :: cs) = c.utf8Size + byteLen cs := rfl

@[simp] lemma byteLen_append (p q : List Char) : byteLen (p ++ q) = byteLen p + byteLen q := by
  unfold byteLen
  rw [List.map_append, List.sum_append]

/-- The characters of the first `n` bytes; nothing where these end inside a character or the text
has fewer. -/
def sliceTo : ℕ → List Char → Option (List Char)
  | 0, _ => some []
  | _ + 1, [] => none
  | n + 1, c :: cs =>
      if c.utf8Size ≤ n + 1 then (sliceTo (n + 1 - c.utf8Size) cs).map (c :: ·) else none

def isCharBoundary (cs : List Char) (n : ℕ) : Bool := (sliceTo n cs).isSome

/-- The search for a boundary from a position down. -/
def boundaryBefore (cs : List Char) : ℕ → ℕ
  | 0 => 0
  | n + 1 => if isCharBoundary cs (n + 1) then n + 1 else boundaryBefore cs n

lemma sliceTo_eq_some_iff : sliceTo n cs = some p ↔ p <+: cs ∧ byteLen p = n := by
  induction cs generalizing n p with
  | nil =>
    cases n with
    | zero =>
      constructor
      · intro h
        cases h
        exact ⟨List.prefix_refl _, rfl⟩
      · rintro ⟨hpre, _⟩
        rw [List.prefix_nil.mp hpre]
        rfl
    | succ n =>
      constructor
      · nofun
      · rintro ⟨hpre, hlen⟩
        rw [List.prefix_nil.mp hpre] at hlen
        cases hlen
  | cons c cs ih =>
    have hpos := c.utf8Size_pos
    cases n with
    | zero =>
      constructor
      · intro h
        cases h
        exact ⟨List.nil_prefix, rfl⟩
      · rintro ⟨_, hlen⟩
        cases p with
        | nil => rfl
        | cons d p =>
          have hd := d.utf8Size_pos
          rw [byteLen_cons] at hlen
          omega
    | succ n =>
      unfold sliceTo
      constructor
      · intro h
        split at h
        · next hle =>
          obtain ⟨r, hr, rfl⟩ := Option.map_eq_some_iff.mp h
          obtain ⟨hpre, hlen⟩ := ih.mp hr
          refine ⟨(List.prefix_cons_inj c).mpr hpre, ?_⟩
          rw [byteLen_cons, hlen]
          omega
        · cases h
      · rintro ⟨hpre, hlen⟩
        cases p with
        | nil => cases hlen
        | cons d p =>
          obtain ⟨rfl, hrest⟩ := List.cons_prefix_cons.mp hpre
          rw [byteLen_cons] at hlen
          have hslice : sliceTo (n + 1 - d.utf8Size) cs = some p := ih.mpr ⟨hrest, by omega⟩
          rw [if_pos (by omega), hslice]
          rfl

lemma boundaryBefore_le (cs : List Char) (n : ℕ) : boundaryBefore cs n ≤ n := by
  induction n with
  | zero => exact Nat.le_refl 0
  | succ n ih =>
    unfold boundaryBefore
    split
    · exact Nat.le_refl _
    · omega

/-- The search ends at a boundary. -/
lemma exists_sliceTo (cs : List Char) (n : ℕ) :
    ∃ p, sliceTo (boundaryBefore cs n) cs = some p := by
  induction n with
  | zero => exact ⟨[], by cases cs <;> rfl⟩
  | succ n ih =>
    unfold boundaryBefore
    split
    · next h => exact Option.isSome_iff_exists.mp h
    · exact ih

end Loker.ByteSlices
