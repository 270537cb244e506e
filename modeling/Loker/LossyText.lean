import Loker.ByteLines
import Loker.TextLines

/-! The characters of bytes that need not be UTF-8, line by line, and of bytes that are cut
anywhere. -/

namespace Loker.LossyText

open ByteLines TextLines TextOps

section Decoding

/-- What the first byte says of its character. -/
def leading (b : UInt8) : ℕ :=
  if b < 0x80 then b.toNat
  else if b < 0xE0 then b.toNat - 0xC0
  else if b < 0xF0 then b.toNat - 0xE0
  else b.toNat - 0xF0

def charOf (b : UInt8) (rest : Bytes) : Char :=
  Char.ofNat (rest.foldl (fun n c => 64 * n + (c.toNat - 0x80)) (leading b))

def replaced : Char := '\uFFFD'

/-- The characters of what follows the first bytes, which belong to one already read. -/
def decodeFrom : ℕ → Bytes → List Char
  | _, [] => []
  | skip + 1, _ :: bs => decodeFrom skip bs
  | 0, b :: bs =>
      match following b with
      | none => replaced :: decodeFrom 0 bs
      | some ranges =>
          let found := countIn ranges bs
          (if found = ranges.length then charOf b (bs.take found) else replaced) ::
            decodeFrom found bs

/-- `String::from_utf8_lossy` as characters. -/
def decode (bytes : Bytes) : List Char := decodeFrom 0 bytes

variable {skip : ℕ} {a c : Bytes}

lemma decodeFrom_newline (hskip : skip ≤ a.length) :
    decodeFrom skip (a ++ newline :: c) = decodeFrom skip a ++ '\n' :: decode c := by
  induction a generalizing skip with
  | nil =>
    have hzero : skip = 0 := Nat.le_zero.mp hskip
    rw [hzero]
    rfl
  | cons b a ih =>
    cases skip with
    | succ skip => exact ih (Nat.le_of_succ_le_succ hskip)
    | zero =>
      rw [List.cons_append, decodeFrom, decodeFrom]
      cases hb : following b with
      | none =>
        change replaced :: decodeFrom 0 (a ++ newline :: c) = _
        rw [ih (Nat.zero_le _)]
        rfl
      | some ranges =>
        have hcount := countIn_newline (following_high hb) a c
        have hle := countIn_le ranges a
        change (if countIn ranges (a ++ newline :: c) = ranges.length then
          charOf b ((a ++ newline :: c).take (countIn ranges (a ++ newline :: c))) else replaced) ::
            decodeFrom (countIn ranges (a ++ newline :: c)) (a ++ newline :: c) = _
        rw [hcount, ih hle, List.take_append_of_le_length hle]
        rfl

lemma decode_newline (a c : Bytes) : decode (a ++ newline :: c) = decode a ++ '\n' :: decode c :=
  decodeFrom_newline (Nat.zero_le _)

lemma le_foldl (rest : Bytes) (n : ℕ) :
    n ≤ rest.foldl (fun n c => 64 * n + (c.toNat - 0x80)) n := by
  induction rest generalizing n with
  | nil => exact le_refl n
  | cons c rest ih =>
    have hstep := ih (64 * n + (c.toNat - 0x80))
    rw [List.foldl_cons]
    omega

lemma leading_of_following {b lo hi : UInt8} {ranges : List (UInt8 × UInt8)}
    (h : following b = some ((lo, hi) :: ranges)) : 16 ≤ 64 * leading b + (lo.toNat - 0x80) := by
  have hall : (List.range 256).all (fun i => ((following (UInt8.ofNat i)).bind List.head?).all
      fun range => 16 ≤ 64 * leading (UInt8.ofNat i) + (range.1.toNat - 0x80)) = true := by
    decide +kernel
  have hb := List.all_eq_true.mp hall b.toNat (List.mem_range.mpr b.toNat_lt)
  rw [UInt8.ofNat_toNat, h, Option.bind_some, List.head?_cons, Option.all_some] at hb
  exact of_decide_eq_true hb

/-- Only the newline's byte stands for it. -/
lemma charOf_ne_newline {b : UInt8} {rest : Bytes} {ranges : List (UInt8 × UInt8)}
    (h : following b = some ranges) (hcount : countIn ranges rest = ranges.length)
    (hb : b ≠ newline) : charOf b (rest.take (countIn ranges rest)) ≠ '\n' := by
  intro heq
  have hvalue : ∀ n, Char.ofNat n = '\n' → n = 10 := by
    intro n hn
    unfold Char.ofNat at hn
    split at hn
    · exact congrArg Char.toNat hn
    · exact absurd hn (by decide)
  have hten := hvalue _ heq
  cases ranges with
  | nil =>
    have hascii : b < 0x80 := by
      unfold following at h
      by_contra hlarge
      rw [if_neg hlarge] at h
      repeat' split at h
      all_goals cases h
    have hnil : rest.take (countIn [] rest) = [] := by
      cases rest <;> rfl
    rw [hnil] at hten
    have hlead : leading b = b.toNat := if_pos hascii
    rw [List.foldl_nil, hlead] at hten
    exact hb (UInt8.toNat_inj.mp hten)
  | cons range ranges =>
    obtain ⟨lo, hi⟩ := range
    cases rest with
    | nil => cases hcount
    | cons c rest =>
      by_cases hc : lo ≤ c ∧ c ≤ hi
      · have hfirst := leading_of_following h
        have hlo := UInt8.le_iff_toNat_le.mp hc.1
        rw [countIn, if_pos hc, List.take_succ_cons, List.foldl_cons] at hten
        have hle := le_foldl (rest.take (countIn ranges rest))
          (64 * leading b + (c.toNat - 0x80))
        omega
      · rw [countIn, if_neg hc] at hcount
        cases hcount

lemma newline_not_mem_decodeFrom (h : newline ∉ a) : '\n' ∉ decodeFrom skip a := by
  induction a generalizing skip with
  | nil => cases skip <;> exact List.not_mem_nil
  | cons b a ih =>
    have hrest : newline ∉ a := fun hmem => h (List.mem_cons_of_mem _ hmem)
    have hb : b ≠ newline := fun heq => h (heq ▸ List.mem_cons_self)
    have hreplaced : '\n' ≠ replaced := by decide
    cases skip with
    | succ skip => exact ih hrest
    | zero =>
      rw [decodeFrom]
      cases hfollow : following b with
      | none => exact List.not_mem_cons_of_ne_of_not_mem hreplaced (ih hrest)
      | some ranges =>
        apply List.not_mem_cons_of_ne_of_not_mem _ (ih hrest)
        by_cases hcount : countIn ranges a = ranges.length
        · rw [if_pos hcount]
          exact (charOf_ne_newline hfollow hcount hb).symm
        · rw [if_neg hcount]
          exact hreplaced

lemma newline_not_mem_decode {line : Bytes} (h : newline ∉ line) : '\n' ∉ decode line :=
  newline_not_mem_decodeFrom h

lemma decodeFrom_length : decodeFrom a.length a = [] := by
  induction a with
  | nil => rfl
  | cons b a ih => exact ih

/-- More bytes matter only to a character that has come to the end. -/
lemma countIn_append_of_stopped {ranges : List (UInt8 × UInt8)}
    (h : countIn ranges a < a.length ∨ countIn ranges a = ranges.length) :
    countIn ranges (a ++ c) = countIn ranges a := by
  induction ranges generalizing a with
  | nil =>
    cases a <;> cases c <;> rfl
  | cons range ranges ih =>
    obtain ⟨lo, hi⟩ := range
    cases a with
    | nil =>
      rcases h with hlt | hall
      · cases hlt
      · cases hall
    | cons b a =>
      rw [List.cons_append, countIn, countIn]
      by_cases hb : lo ≤ b ∧ b ≤ hi
      · rw [countIn, if_pos hb, List.length_cons, List.length_cons] at h
        have hrest : countIn ranges a < a.length ∨ countIn ranges a = ranges.length := by omega
        rw [if_pos hb, if_pos hb, ih hrest]
      · rw [if_neg hb, if_neg hb]

/-- Bytes that are cut end with the characters of the whole, but for a last one that is cut
itself. -/
lemma decodeFrom_append (hskip : skip ≤ a.length) :
    ∃ p q, decodeFrom skip (a ++ c) = p ++ q ∧
      (decodeFrom skip a = p ∨ decodeFrom skip a = p ++ [replaced]) := by
  induction a generalizing skip with
  | nil =>
    have hzero : skip = 0 := Nat.le_zero.mp hskip
    rw [hzero]
    exact ⟨[], _, rfl, .inl rfl⟩
  | cons b a ih =>
    cases skip with
    | succ skip => exact ih (Nat.le_of_succ_le_succ hskip)
    | zero =>
      have hcons : ∀ (x : Char) (s : ℕ), s ≤ a.length →
          ∃ p q, x :: decodeFrom s (a ++ c) = p ++ q ∧
            (x :: decodeFrom s a = p ∨ x :: decodeFrom s a = p ++ [replaced]) := by
        intro x s hs
        obtain ⟨p, q, hwhole, hcut⟩ := ih hs
        refine ⟨x :: p, q, congrArg (x :: ·) hwhole, ?_⟩
        rcases hcut with hsame | hlast
        · exact .inl (congrArg (x :: ·) hsame)
        · exact .inr (congrArg (x :: ·) hlast)
      rw [List.cons_append, decodeFrom, decodeFrom]
      cases hb : following b with
      | none => exact hcons replaced 0 (Nat.zero_le _)
      | some ranges =>
        have hle := countIn_le ranges a
        by_cases hstopped : countIn ranges a < a.length ∨ countIn ranges a = ranges.length
        · have hsame := countIn_append_of_stopped (c := c) hstopped
          simp only [hsame, List.take_append_of_le_length hle]
          exact hcons _ _ hle
        · have hend : countIn ranges a = a.length := by omega
          have hopen : countIn ranges a ≠ ranges.length := fun heq => hstopped (.inr heq)
          refine ⟨[], _, rfl, .inr ?_⟩
          simp only [if_neg hopen, List.nil_append, List.cons.injEq, true_and]
          rw [hend]
          exact decodeFrom_length

end Decoding

section Lines

variable {bytes rest : Bytes}

/-- A line without its end. -/
def lineText (line : Bytes) : String := String.ofList (dropCR (decode line))

lemma decode_unlines {ls : List Bytes} (h : ∀ l ∈ ls, newline ∉ l) (rest : Bytes) :
    decode (ByteLines.unlines ls ++ rest) = TextLines.unlines (ls.map decode) ++ decode rest := by
  induction ls with
  | nil => rfl
  | cons l ls ih =>
    obtain ⟨_, hls⟩ := List.forall_mem_cons.mp h
    rw [ByteLines.unlines_cons, List.append_assoc, List.cons_append, decode_newline, ih hls,
      List.map_cons, TextLines.unlines_cons, List.append_assoc, List.cons_append]

lemma lines_unlines_append {ls : List (List Char)} (hls : Plain ls) (u : List Char) :
    lines (String.ofList (TextLines.unlines ls ++ u)) =
      (ls.map dropCR).map String.ofList ++ lines (String.ofList u) := by
  unfold lines replaceAll
  simp only [String.toList_ofList]
  change (splitLines (replaceAllFrom ['\r', '\n'] ['\n'] 0 (TextLines.unlines ls ++ u))).map
    String.ofList = _ ++ (splitLines (replaceAllFrom ['\r', '\n'] ['\n'] 0 u)).map String.ofList
  induction ls with
  | nil => rfl
  | cons l ls ih =>
    obtain ⟨hl, hrest⟩ := List.forall_mem_cons.mp hls
    have hdrop : '\n' ∉ dropCR l := fun hmem => hl ((dropCR_sublist l).mem hmem)
    rw [TextLines.unlines_cons, List.append_assoc, List.cons_append, normalize_line hl,
      splitLines_line hdrop, List.map_cons, ih hrest, List.map_cons, List.map_cons]
    rfl

lemma plain_decode (bytes : Bytes) : Plain ((completeLines bytes).map decode) := by
  intro l hl
  obtain ⟨line, hline, rfl⟩ := List.mem_map.mp hl
  exact newline_not_mem_decode (newline_not_mem_completeLines bytes line hline)

/-- The lines of bytes that go on behind a cut: those before it and those from the one that is cut
on. -/
lemma lines_decode_append (bytes rest : Bytes) :
    lines (String.ofList (decode (bytes ++ rest))) = (completeLines bytes).map lineText ++
      lines (String.ofList (decode (partialLine bytes ++ rest))) := by
  have hsplit : decode (bytes ++ rest) = TextLines.unlines ((completeLines bytes).map decode) ++
      decode (partialLine bytes ++ rest) := by
    rw [← decode_unlines (newline_not_mem_completeLines bytes), ← List.append_assoc,
      unlines_completeLines]
  rw [hsplit, lines_unlines_append (plain_decode bytes), List.map_map, List.map_map]
  rfl

/-- What is written behind a cut belongs to the line that is cut. -/
lemma lines_decode_marked {mark : List Char} (hmark : '\n' ∉ mark) (hne : mark ≠ [])
    (bytes : Bytes) :
    lines (String.ofList (decode bytes ++ mark)) = (completeLines bytes).map lineText ++
      [String.ofList (decode (partialLine bytes) ++ mark)] := by
  have hsplit : decode bytes ++ mark = TextLines.unlines ((completeLines bytes).map decode) ++
      (decode (partialLine bytes) ++ mark) := by
    rw [← List.append_assoc, ← decode_unlines (newline_not_mem_completeLines bytes),
      unlines_completeLines]
  have hlast : '\n' ∉ decode (partialLine bytes) ++ mark := by
    intro hmem
    rcases List.mem_append.mp hmem with hpartial | hmem
    · exact newline_not_mem_decode (newline_not_mem_partialLine bytes) hpartial
    · exact hmark hmem
  have hline : lines (String.ofList (decode (partialLine bytes) ++ mark)) =
      [String.ofList (decode (partialLine bytes) ++ mark)] := by
    unfold lines replaceAll
    simp only [String.toList_ofList]
    change (splitLines (replaceAllFrom ['\r', '\n'] ['\n'] 0
      (decode (partialLine bytes) ++ mark))).map String.ofList = _
    rw [normalize_last hlast, splitLines_last hlast (List.append_ne_nil_of_right_ne_nil _ hne)]
    rfl
  rw [hsplit, lines_unlines_append (plain_decode bytes), hline, List.map_map, List.map_map]
  rfl

end Lines

end Loker.LossyText
