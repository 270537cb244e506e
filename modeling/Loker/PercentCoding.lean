import Loker.ByteLines

/-! Percent-encoding: its decoding, what decoding leaves as it is, and the text that a decoding
with replacement characters gives back. -/

namespace Loker.PercentCoding

open ByteLines

def percent : UInt8 := 37

section Coding

/-- The value of a hexadecimal digit of either case. -/
def hexValue (b : UInt8) : Option UInt8 :=
  if 48 ≤ b ∧ b ≤ 57 then some (b - 48)
  else if 65 ≤ b ∧ b ≤ 70 then some (b - 55)
  else if 97 ≤ b ∧ b ≤ 102 then some (b - 87)
  else none

/-- The byte that the two digits after a percent sign stand for. -/
def escapedByte : Bytes → Option UInt8
  | high :: low :: _ => do
      let h ← hexValue high
      let l ← hexValue low
      some (h * 16 + l)
  | _ => none

/-- The decoding of what follows the first bytes, which belong to an escape already read. -/
def decodeFrom : ℕ → Bytes → Bytes
  | _, [] => []
  | skip + 1, _ :: bs => decodeFrom skip bs
  | 0, b :: bs =>
      match if b = percent then escapedByte bs else none with
      | some byte => byte :: decodeFrom 2 bs
      | none => b :: decodeFrom 0 bs

/-- A percent sign that no two digits follow stays. -/
def percentDecode (bytes : Bytes) : Bytes := decodeFrom 0 bytes

/-- A percent sign with two digits after it occurs. -/
def hasEscape : Bytes → Bool
  | [] => false
  | b :: bs => (b = percent && (escapedByte bs).isSome) || hasEscape bs

def hexDigit (n : UInt8) : UInt8 := if n < 10 then n + 48 else n + 55

/-- Letters, digits, and the four marks that are never encoded. -/
def unreserved (b : UInt8) : Bool :=
  (65 ≤ b && b ≤ 90) || (97 ≤ b && b ≤ 122) || (48 ≤ b && b ≤ 57) ||
    b = 45 || b = 46 || b = 95 || b = 126

def encodeByte (keep : UInt8 → Bool) (b : UInt8) : Bytes :=
  if keep b then [b] else [percent, hexDigit (b / 16), hexDigit (b % 16)]

def percentEncode (keep : UInt8 → Bool) (bytes : Bytes) : Bytes :=
  bytes.flatMap (encodeByte keep)

end Coding

section RoundTrip

variable {keep : UInt8 → Bool} {b : UInt8} {bs rest : Bytes}

lemma hexValue_hexDigit {n : UInt8} (hn : n < 16) : hexValue (hexDigit n) = some n := by
  have hall : ∀ i : Fin 16, hexValue (hexDigit (UInt8.ofNat i)) = some (UInt8.ofNat i) := by
    decide
  have hlt : n.toNat < 16 := UInt8.lt_iff_toNat_lt.mp hn
  have h := hall ⟨n.toNat, hlt⟩
  rwa [UInt8.ofNat_toNat] at h

lemma escapedByte_hexDigits :
    escapedByte (hexDigit (b / 16) :: hexDigit (b % 16) :: rest) = some b := by
  have hhigh : b / 16 < 16 := by
    apply UInt8.lt_iff_toNat_lt.mpr
    have hb := b.toNat_lt
    rw [UInt8.toNat_div]
    change b.toNat / 16 < 16
    omega
  have hlow : b % 16 < 16 := by
    apply UInt8.lt_iff_toNat_lt.mpr
    rw [UInt8.toNat_mod]
    change b.toNat % 16 < 16
    omega
  have hb : b / 16 * 16 + b % 16 = b := by
    apply UInt8.toNat_inj.mp
    have hlt := b.toNat_lt
    rw [UInt8.toNat_add, UInt8.toNat_mul, UInt8.toNat_div, UInt8.toNat_mod]
    change (b.toNat / 16 * 16 % 256 + b.toNat % 16) % 256 = b.toNat
    omega
  rw [escapedByte, hexValue_hexDigit hhigh, hexValue_hexDigit hlow]
  change some (b / 16 * 16 + b % 16) = some b
  rw [hb]

lemma decodeFrom_of_ne (h : b ≠ percent) : decodeFrom 0 (b :: bs) = b :: decodeFrom 0 bs := by
  rw [decodeFrom, if_neg h]

lemma percentDecode_encodeByte (hkeep : keep percent = false) :
    percentDecode (encodeByte keep b ++ rest) = b :: percentDecode rest := by
  unfold percentDecode encodeByte
  by_cases hb : keep b = true
  · have hne : b ≠ percent := by
      intro heq
      rw [heq, hkeep] at hb
      cases hb
    rw [if_pos hb, List.singleton_append, decodeFrom_of_ne hne]
  · rw [if_neg hb]
    change decodeFrom 0 (percent :: hexDigit (b / 16) :: hexDigit (b % 16) :: rest) = _
    rw [decodeFrom, if_pos rfl, escapedByte_hexDigits]
    rfl

theorem percentDecode_percentEncode (hkeep : keep percent = false) :
    percentDecode (percentEncode keep bs) = bs := by
  induction bs with
  | nil => rfl
  | cons b bs ih =>
    unfold percentEncode at ih ⊢
    rw [List.flatMap_cons, percentDecode_encodeByte hkeep, ih]

end RoundTrip

section Escapes

variable {b : UInt8} {bs bytes : Bytes} {skip : ℕ}

lemma percentDecode_of_no_escape (h : hasEscape bytes = false) : percentDecode bytes = bytes := by
  unfold percentDecode
  induction bytes with
  | nil => rfl
  | cons b bs ih =>
    rw [hasEscape, Bool.or_eq_false_iff] at h
    obtain ⟨hhead, htail⟩ := h
    have hnone : (if b = percent then escapedByte bs else none) = none := by
      by_cases hb : b = percent
      · rw [decide_eq_true hb, Bool.true_and] at hhead
        rw [if_pos hb]
        exact Option.not_isSome_iff_eq_none.mp (ne_true_of_eq_false hhead)
      · exact if_neg hb
    rw [decodeFrom, hnone, ih htail]

/-- How many of the bytes are characters of their own. -/
def asciiCount (bytes : Bytes) : ℕ := bytes.countP (· < 128)

lemma asciiCount_cons (b : UInt8) (bs : Bytes) :
    asciiCount (b :: bs) = asciiCount bs + if b < 128 then 1 else 0 := by
  unfold asciiCount
  rw [List.countP_cons]
  simp only [decide_eq_true_eq]

lemma hexValue_ascii {v : UInt8} (h : hexValue b = some v) : b < 128 := by
  unfold hexValue at h
  apply UInt8.lt_iff_toNat_lt.mpr
  change b.toNat < 128
  split at h
  · next hb =>
    have hle := UInt8.le_iff_toNat_le.mp hb.2
    change b.toNat ≤ 57 at hle
    omega
  · split at h
    · next hb =>
      have hle := UInt8.le_iff_toNat_le.mp hb.2
      change b.toNat ≤ 70 at hle
      omega
    · split at h
      · next hb =>
        have hle := UInt8.le_iff_toNat_le.mp hb.2
        change b.toNat ≤ 102 at hle
        omega
      · cases h

/-- The digits of an escape are two characters. -/
lemma asciiCount_of_escapedByte {v : UInt8} (h : escapedByte bs = some v) :
    asciiCount bs = asciiCount (bs.drop 2) + 2 := by
  match bs, h with
  | high :: low :: rest, h =>
    rw [escapedByte] at h
    cases hhigh : hexValue high with
    | none =>
      rw [hhigh] at h
      cases h
    | some x =>
      cases hlow : hexValue low with
      | none =>
        rw [hhigh, hlow] at h
        cases h
      | some y =>
        rw [asciiCount_cons, asciiCount_cons, if_pos (hexValue_ascii hhigh),
          if_pos (hexValue_ascii hlow)]
        rfl

lemma asciiCount_decodeFrom_le : asciiCount (decodeFrom skip bs) ≤ asciiCount (bs.drop skip) := by
  induction bs generalizing skip with
  | nil => cases skip <;> exact le_refl _
  | cons b bs ih =>
    cases skip with
    | succ skip => exact ih
    | zero =>
      rw [decodeFrom, List.drop_zero]
      cases hesc : (if b = percent then escapedByte bs else none) with
      | none =>
        have : asciiCount (decodeFrom 0 bs) ≤ asciiCount (bs.drop 0) := ih
        rw [List.drop_zero] at this
        rw [asciiCount_cons, asciiCount_cons]
        omega
      | some byte =>
        have hbytes : escapedByte bs = some byte := by
          by_cases hb : b = percent
          · rwa [if_pos hb] at hesc
          · rw [if_neg hb] at hesc
            cases hesc
        have hcount := asciiCount_of_escapedByte hbytes
        have : asciiCount (decodeFrom 2 bs) ≤ asciiCount (bs.drop 2) := ih
        rw [asciiCount_cons, asciiCount_cons]
        split <;> omega

lemma asciiCount_decode_lt (h : hasEscape bytes = true) :
    asciiCount (percentDecode bytes) < asciiCount bytes := by
  unfold percentDecode
  induction bytes with
  | nil => cases h
  | cons b bs ih =>
    rw [decodeFrom]
    cases hesc : (if b = percent then escapedByte bs else none) with
    | none =>
      have htail : hasEscape bs = true := by
        rw [hasEscape, Bool.or_eq_true, Bool.and_eq_true, decide_eq_true_eq] at h
        rcases h with ⟨hb, hsome⟩ | htail
        · rw [if_pos hb] at hesc
          rw [hesc] at hsome
          cases hsome
        · exact htail
      have := ih htail
      rw [asciiCount_cons, asciiCount_cons]
      omega
    | some byte =>
      have hb : b = percent := by
        by_contra hne
        rw [if_neg hne] at hesc
        cases hesc
      rw [if_pos hb] at hesc
      have hcount := asciiCount_of_escapedByte hesc
      have : asciiCount (decodeFrom 2 bs) ≤ asciiCount (bs.drop 2) := asciiCount_decodeFrom_le
      have hascii : b < 128 := by
        rw [hb]
        decide
      rw [asciiCount_cons, asciiCount_cons, if_pos hascii]
      split <;> omega

end Escapes

section Replacing

variable {b : UInt8} {bs bytes : Bytes} {skip : ℕ} {ranges : List (UInt8 × UInt8)}

lemma asciiCount_countIn (h : ∀ r ∈ ranges, 128 ≤ r.1) :
    asciiCount (bs.take (countIn ranges bs)) = 0 := by
  induction ranges generalizing bs with
  | nil => rfl
  | cons range ranges ih =>
    obtain ⟨lo, hi⟩ := range
    cases bs with
    | nil => rfl
    | cons b bs =>
      unfold countIn
      by_cases hb : lo ≤ b ∧ b ≤ hi
      · have hlo := h (lo, hi) List.mem_cons_self
        have hhigh : ¬ b < 128 := UInt8.not_lt.mpr (UInt8.le_trans hlo hb.1)
        rw [if_pos hb, List.take_succ_cons, asciiCount_cons, if_neg hhigh]
        exact ih fun r hr => h r (List.mem_cons_of_mem _ hr)
      · rw [if_neg hb]
        rfl

lemma asciiCount_append (p q : Bytes) : asciiCount (p ++ q) = asciiCount p + asciiCount q :=
  List.countP_append

/-- Replacement characters neither add nor hide characters of one byte. -/
lemma asciiCount_lossyFrom : asciiCount (lossyFrom skip bs) = asciiCount (bs.drop skip) := by
  induction bs generalizing skip with
  | nil => cases skip <;> rfl
  | cons b bs ih =>
    cases skip with
    | succ skip => exact ih
    | zero =>
      have hrepl : asciiCount replacement = 0 := rfl
      unfold lossyFrom
      rw [List.drop_zero]
      cases hb : following b with
      | none =>
        have hhigh : ¬ b < 128 := by
          intro hlt
          unfold following at hb
          rw [if_pos hlt] at hb
          cases hb
        change asciiCount (replacement ++ lossyFrom 0 bs) = _
        rw [asciiCount_append, hrepl, ih, asciiCount_cons, if_neg hhigh, List.drop_zero,
          Nat.zero_add, Nat.add_zero]
      | some ranges =>
        have hfound : asciiCount (bs.take (countIn ranges bs)) = 0 :=
          asciiCount_countIn (following_high hb)
        have hsplit := asciiCount_append (bs.take (countIn ranges bs)) (bs.drop (countIn ranges bs))
        rw [List.take_append_drop, hfound, Nat.zero_add] at hsplit
        change asciiCount ((if countIn ranges bs = ranges.length then
          b :: bs.take (countIn ranges bs) else replacement) ++
            lossyFrom (countIn ranges bs) bs) = _
        rw [asciiCount_append, ih, asciiCount_cons b bs, hsplit]
        by_cases hcount : countIn ranges bs = ranges.length
        · rw [if_pos hcount, asciiCount_cons, hfound]
          omega
        · have hhigh : ¬ b < 128 := by
            intro hlt
            unfold following at hb
            rw [if_pos hlt] at hb
            cases hb
            exact hcount (by cases bs <;> rfl)
          rw [if_neg hcount, hrepl, if_neg hhigh]
          omega

/-- A text survives its decoding exactly when it has no escape. -/
theorem lossy_decode_eq_iff (hutf8 : isUtf8 bytes = true) :
    fromUtf8Lossy (percentDecode bytes) = bytes ↔ hasEscape bytes = false := by
  constructor
  · intro h
    cases hesc : hasEscape bytes with
    | false => rfl
    | true =>
      have hlt := asciiCount_decode_lt hesc
      have hcount : asciiCount (lossyFrom 0 (percentDecode bytes)) =
          asciiCount ((percentDecode bytes).drop 0) := asciiCount_lossyFrom
      unfold fromUtf8Lossy at h
      rw [h, List.drop_zero] at hcount
      omega
  · intro h
    rw [percentDecode_of_no_escape h]
    exact fromUtf8Lossy_eq hutf8

end Replacing

end Loker.PercentCoding
