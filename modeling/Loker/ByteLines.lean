import Mathlib

/-! Texts as their bytes: which of them are UTF-8, their decoding with replacement characters, and
the complete and the partial lines of a growing file. -/

namespace Loker.ByteLines

abbrev Bytes := List UInt8

def newline : UInt8 := 10

section Utf8

/-- The ranges of the bytes that follow a character's first byte. -/
def following (b : UInt8) : Option (List (UInt8 × UInt8)) :=
  if b < 0x80 then some []
  else if b < 0xC2 then none
  else if b ≤ 0xDF then some [(0x80, 0xBF)]
  else if b = 0xE0 then some [(0xA0, 0xBF), (0x80, 0xBF)]
  else if b = 0xED then some [(0x80, 0x9F), (0x80, 0xBF)]
  else if b ≤ 0xEF then some [(0x80, 0xBF), (0x80, 0xBF)]
  else if b = 0xF0 then some [(0x90, 0xBF), (0x80, 0xBF), (0x80, 0xBF)]
  else if b ≤ 0xF3 then some [(0x80, 0xBF), (0x80, 0xBF), (0x80, 0xBF)]
  else if b = 0xF4 then some [(0x80, 0x8F), (0x80, 0xBF), (0x80, 0xBF)]
  else none

/-- How many of the first bytes are in their ranges. -/
def countIn : List (UInt8 × UInt8) → Bytes → ℕ
  | (lo, hi) :: ranges, b :: bs => if lo ≤ b ∧ b ≤ hi then countIn ranges bs + 1 else 0
  | _, _ => 0

/-- The bytes after the first ones, which belong to a character already read, are UTF-8. -/
def isUtf8From : ℕ → Bytes → Bool
  | 0, [] => true
  | _ + 1, [] => false
  | skip + 1, _ :: bs => isUtf8From skip bs
  | 0, b :: bs =>
      match following b with
      | none => false
      | some ranges => countIn ranges bs = ranges.length && isUtf8From ranges.length bs

def isUtf8 (bytes : Bytes) : Bool := isUtf8From 0 bytes

/-- U+FFFD. -/
def replacement : Bytes := [0xEF, 0xBF, 0xBD]

/-- Every longest beginning of a character that does not go on as one is replaced. -/
def lossyFrom : ℕ → Bytes → Bytes
  | _, [] => []
  | skip + 1, _ :: bs => lossyFrom skip bs
  | 0, b :: bs =>
      match following b with
      | none => replacement ++ lossyFrom 0 bs
      | some ranges =>
          let found := countIn ranges bs
          (if found = ranges.length then b :: bs.take found else replacement) ++ lossyFrom found bs

/-- `String::from_utf8_lossy`. -/
def fromUtf8Lossy (bytes : Bytes) : Bytes := lossyFrom 0 bytes

lemma lossyFrom_of_utf8 {skip : ℕ} {bytes : Bytes} (h : isUtf8From skip bytes = true) :
    lossyFrom skip bytes = bytes.drop skip := by
  induction bytes generalizing skip with
  | nil => simp [lossyFrom]
  | cons b bs ih =>
      cases skip with
      | succ skip => exact ih h
      | zero =>
          unfold isUtf8From at h
          unfold lossyFrom
          cases hb : following b with
          | none => simp [hb] at h
          | some ranges =>
              simp only [hb, Bool.and_eq_true, decide_eq_true_eq] at h
              obtain ⟨hcount, hrest⟩ := h
              simp only [hcount, if_true, ih hrest, List.drop_zero, List.cons_append,
                List.take_append_drop]

/-- A text is decoded to itself. -/
lemma fromUtf8Lossy_eq {bytes : Bytes} (h : isUtf8 bytes = true) : fromUtf8Lossy bytes = bytes :=
  lossyFrom_of_utf8 h

/-- No byte that goes on with a character is an ASCII character. -/
lemma following_high {b : UInt8} {ranges : List (UInt8 × UInt8)} (h : following b = some ranges) :
    ∀ r ∈ ranges, 0x80 ≤ r.1 := by
  unfold following at h
  repeat' split at h
  all_goals cases h
  all_goals simp

lemma countIn_le (ranges : List (UInt8 × UInt8)) (bytes : Bytes) :
    countIn ranges bytes ≤ bytes.length := by
  induction ranges generalizing bytes with
  | nil => simp [countIn]
  | cons r ranges ih =>
      cases bytes with
      | nil => simp [countIn]
      | cons b bs =>
          have hrest := ih bs
          simp only [countIn, List.length_cons]
          split <;> omega

/-- The bytes in their ranges end before a newline. -/
lemma countIn_newline {ranges : List (UInt8 × UInt8)} (h : ∀ r ∈ ranges, 0x80 ≤ r.1)
    (a c : Bytes) : countIn ranges (a ++ newline :: c) = countIn ranges a := by
  induction ranges generalizing a with
  | nil => simp [countIn]
  | cons r ranges ih =>
      obtain ⟨lo, hi⟩ := r
      cases a with
      | nil =>
          have hlo : 0x80 ≤ lo := h (lo, hi) List.mem_cons_self
          have hnot : ¬ (lo ≤ newline ∧ newline ≤ hi) := by
            rintro ⟨hle, -⟩
            exact absurd (UInt8.le_trans hlo hle) (by decide)
          simp [countIn, hnot]
      | cons b bs =>
          have hrest := ih (fun r hr => h r (List.mem_cons_of_mem _ hr)) bs
          simp only [List.cons_append, countIn, hrest]

/-- A text with a newline is a text before it and a text after it. -/
lemma isUtf8From_newline {skip : ℕ} {a c : Bytes} (hskip : skip ≤ a.length)
    (h : isUtf8From skip (a ++ newline :: c) = true) :
    isUtf8From skip a = true ∧ isUtf8 c = true := by
  induction a generalizing skip with
  | nil =>
      obtain rfl : skip = 0 := by simpa using hskip
      have hfollowing : following newline = some [] := by decide
      simp only [List.nil_append, isUtf8From, hfollowing, List.length_nil, Bool.and_eq_true] at h
      exact ⟨rfl, h.2⟩
  | cons b a ih =>
      cases skip with
      | succ skip => exact ih (by simpa using hskip) h
      | zero =>
          rw [List.cons_append, isUtf8From] at h
          rw [isUtf8From]
          cases hb : following b with
          | none => simp [hb] at h
          | some ranges =>
              simp only [hb, countIn_newline (following_high hb), Bool.and_eq_true,
                decide_eq_true_eq] at h ⊢
              obtain ⟨hcount, hrest⟩ := h
              have hlength : ranges.length ≤ a.length := hcount ▸ countIn_le ranges a
              obtain ⟨ha, hc⟩ := ih hlength hrest
              exact ⟨⟨hcount, ha⟩, hc⟩

/-- A character that is complete needs nothing of what follows. -/
lemma countIn_append {ranges : List (UInt8 × UInt8)} {a : Bytes}
    (h : countIn ranges a = ranges.length) (c : Bytes) :
    countIn ranges (a ++ c) = ranges.length := by
  induction ranges generalizing a with
  | nil => simp [countIn]
  | cons r ranges ih =>
      obtain ⟨lo, hi⟩ := r
      cases a with
      | nil => simp [countIn] at h
      | cons b bs =>
          rw [countIn] at h
          split at h
          · next hb =>
              rw [List.cons_append, countIn, if_pos hb]
              have hrest := ih (a := bs) (by simpa using h)
              rw [hrest, List.length_cons]
          · simp at h

/-- After a text, the rest is looked at on its own. -/
lemma isUtf8From_append {skip : ℕ} {a : Bytes} (h : isUtf8From skip a = true) (c : Bytes) :
    isUtf8From skip (a ++ c) = isUtf8 c := by
  induction a generalizing skip with
  | nil =>
      cases skip with
      | zero => rfl
      | succ skip => cases h
  | cons b bs ih =>
      cases skip with
      | succ skip => exact ih h
      | zero =>
          rw [isUtf8From] at h
          rw [List.cons_append, isUtf8From]
          cases hb : following b with
          | none => simp [hb] at h
          | some ranges =>
              simp only [hb, Bool.and_eq_true, decide_eq_true_eq] at h
              obtain ⟨hcount, hrest⟩ := h
              simp only [countIn_append hcount, decide_true, Bool.true_and]
              exact ih hrest

lemma isUtf8_append {a c : Bytes} (ha : isUtf8 a = true) (hc : isUtf8 c = true) :
    isUtf8 (a ++ c) = true := by
  unfold isUtf8
  rw [isUtf8From_append ha]
  exact hc

end Utf8

section Lines

/-- The lines that end with a newline, without it, and what comes after the last newline. -/
def cutLines : Bytes → List Bytes × Bytes
  | [] => ([], [])
  | b :: bs =>
      let rest := cutLines bs
      if b = newline then ([] :: rest.1, rest.2)
      else
        match rest.1 with
        | [] => ([], b :: rest.2)
        | line :: lines => ((b :: line) :: lines, rest.2)

def completeLines (bytes : Bytes) : List Bytes := (cutLines bytes).1

def partialLine (bytes : Bytes) : Bytes := (cutLines bytes).2

/-- The number of bytes up to and with the last newline. -/
def completeLength (bytes : Bytes) : ℕ := bytes.length - (partialLine bytes).length

/-- The lines with their newlines. -/
def unlines (lines : List Bytes) : Bytes := lines.flatMap (· ++ [newline])

@[simp] lemma completeLines_nil : completeLines [] = [] := rfl

@[simp] lemma partialLine_nil : partialLine [] = [] := rfl

lemma cutLines_line {line : Bytes} (h : newline ∉ line) (bytes : Bytes) :
    cutLines (line ++ newline :: bytes) =
      (line :: completeLines bytes, partialLine bytes) := by
  induction line with
  | nil => simp [cutLines, completeLines, partialLine]
  | cons b line ih =>
      have hb : b ≠ newline := fun heq => h (heq ▸ List.mem_cons_self)
      have hrest := ih fun hmem => h (List.mem_cons_of_mem _ hmem)
      simp [cutLines, hb, hrest]

lemma cutLines_unfinished {line : Bytes} (h : newline ∉ line) : cutLines line = ([], line) := by
  induction line with
  | nil => rfl
  | cons b line ih =>
      have hb : b ≠ newline := fun heq => h (heq ▸ List.mem_cons_self)
      have hrest := ih fun hmem => h (List.mem_cons_of_mem _ hmem)
      simp [cutLines, hb, hrest]

lemma completeLines_line {line : Bytes} (h : newline ∉ line) (bytes : Bytes) :
    completeLines (line ++ newline :: bytes) = line :: completeLines bytes := by
  rw [completeLines, cutLines_line h]

lemma partialLine_line {line : Bytes} (h : newline ∉ line) (bytes : Bytes) :
    partialLine (line ++ newline :: bytes) = partialLine bytes := by
  rw [partialLine, cutLines_line h]

/-- Bytes are made line by line: none complete, or one more in front. -/
theorem lines_induction {P : Bytes → Prop} (unfinished : ∀ line, newline ∉ line → P line)
    (line : ∀ line bytes, newline ∉ line → P bytes → P (line ++ newline :: bytes))
    (bytes : Bytes) : P bytes := by
  have hlength : ∀ n, ∀ bytes : Bytes, bytes.length ≤ n → P bytes := by
    intro n
    induction n with
    | zero =>
        intro bytes hn
        obtain rfl : bytes = [] := by simpa using hn
        exact unfinished [] (by simp)
    | succ n ih =>
        intro bytes hn
        by_cases hmem : newline ∈ bytes
        · obtain ⟨first, rest, rfl, hfirst⟩ := List.eq_append_cons_of_mem hmem
          refine line first rest hfirst (ih rest ?_)
          simp only [List.length_append, List.length_cons] at hn
          omega
        · exact unfinished bytes hmem
  exact hlength bytes.length bytes le_rfl

lemma completeLines_unfinished {line : Bytes} (h : newline ∉ line) : completeLines line = [] := by
  rw [completeLines, cutLines_unfinished h]

lemma partialLine_unfinished {line : Bytes} (h : newline ∉ line) : partialLine line = line := by
  rw [partialLine, cutLines_unfinished h]

lemma newline_not_mem_partialLine (bytes : Bytes) : newline ∉ partialLine bytes := by
  induction bytes using lines_induction with
  | unfinished line h => rwa [partialLine_unfinished h]
  | line line bytes h ih => rwa [partialLine_line h]

lemma newline_not_mem_completeLines (bytes : Bytes) :
    ∀ line ∈ completeLines bytes, newline ∉ line := by
  induction bytes using lines_induction with
  | unfinished line h => simp [completeLines_unfinished h]
  | line line bytes h ih =>
      rw [completeLines_line h]
      exact List.forall_mem_cons.mpr ⟨h, ih⟩

@[simp] lemma unlines_nil : unlines [] = [] := rfl

@[simp] lemma unlines_cons (line : Bytes) (lines : List Bytes) :
    unlines (line :: lines) = line ++ newline :: unlines lines := by
  simp [unlines]

lemma unlines_append (lines lines' : List Bytes) :
    unlines (lines ++ lines') = unlines lines ++ unlines lines' := by
  simp [unlines]

/-- The complete lines and the partial one make up the bytes. -/
lemma unlines_completeLines (bytes : Bytes) :
    unlines (completeLines bytes) ++ partialLine bytes = bytes := by
  induction bytes using lines_induction with
  | unfinished line h => simp [completeLines_unfinished h, partialLine_unfinished h]
  | line line bytes h ih =>
      rw [completeLines_line h, partialLine_line h, unlines_cons, List.append_assoc,
        List.cons_append, ih]

lemma completeLength_eq (bytes : Bytes) :
    completeLength bytes = (unlines (completeLines bytes)).length := by
  have hlength := congrArg List.length (unlines_completeLines bytes)
  rw [List.length_append] at hlength
  rw [completeLength]
  omega

lemma completeLength_le (bytes : Bytes) : completeLength bytes ≤ bytes.length := by
  rw [completeLength]
  omega

lemma completeLength_unfinished {line : Bytes} (h : newline ∉ line) : completeLength line = 0 := by
  rw [completeLength_eq, completeLines_unfinished h]
  rfl

lemma completeLength_line {line : Bytes} (h : newline ∉ line) (bytes : Bytes) :
    completeLength (line ++ newline :: bytes) = line.length + 1 + completeLength bytes := by
  rw [completeLength_eq, completeLength_eq, completeLines_line h, unlines_cons,
    List.length_append, List.length_cons]
  omega

lemma completeLength_pos {bytes : Bytes} (h : completeLines bytes ≠ []) :
    0 < completeLength bytes := by
  obtain ⟨line, lines, hlines⟩ := List.exists_cons_of_ne_nil h
  rw [completeLength_eq, hlines, unlines_cons, List.length_append, List.length_cons]
  omega

lemma drop_completeLength (bytes : Bytes) :
    bytes.drop (completeLength bytes) = partialLine bytes := by
  have hdrop : (unlines (completeLines bytes) ++ partialLine bytes).drop
      (unlines (completeLines bytes)).length = partialLine bytes := List.drop_left
  rwa [unlines_completeLines, ← completeLength_eq] at hdrop

lemma take_completeLength (bytes : Bytes) :
    bytes.take (completeLength bytes) = unlines (completeLines bytes) := by
  have htake : (unlines (completeLines bytes) ++ partialLine bytes).take
      (unlines (completeLines bytes)).length = unlines (completeLines bytes) := List.take_left
  rwa [unlines_completeLines, ← completeLength_eq] at htake

/-- What is appended goes on with the partial line. -/
lemma completeLines_append (a b : Bytes) :
    completeLines (a ++ b) = completeLines a ++ completeLines (partialLine a ++ b) := by
  induction a using lines_induction with
  | unfinished line h => rw [completeLines_unfinished h, partialLine_unfinished h, List.nil_append]
  | line line bytes h ih =>
      rw [List.append_assoc, List.cons_append, completeLines_line h, completeLines_line h,
        partialLine_line h, ih, List.cons_append]

lemma partialLine_append (a b : Bytes) :
    partialLine (a ++ b) = partialLine (partialLine a ++ b) := by
  induction a using lines_induction with
  | unfinished line h => rw [partialLine_unfinished h]
  | line line bytes h ih =>
      rw [List.append_assoc, List.cons_append, partialLine_line h, partialLine_line h, ih]

/-- Behind whole lines the counting starts anew. -/
lemma completeLength_append {a : Bytes} (h : partialLine a = []) (b : Bytes) :
    completeLength (a ++ b) = a.length + completeLength b := by
  have ha := unlines_completeLines a
  rw [h, List.append_nil] at ha
  rw [completeLength_eq, completeLength_eq, completeLines_append, h, List.nil_append,
    unlines_append, ha, List.length_append]

lemma completeLines_unlines {lines : List Bytes} (h : ∀ line ∈ lines, newline ∉ line) :
    completeLines (unlines lines) = lines := by
  induction lines with
  | nil => rfl
  | cons line lines ih =>
      obtain ⟨hline, hlines⟩ := List.forall_mem_cons.mp h
      rw [unlines_cons, completeLines_line hline, ih hlines]

lemma partialLine_unlines {lines : List Bytes} (h : ∀ line ∈ lines, newline ∉ line) :
    partialLine (unlines lines) = [] := by
  induction lines with
  | nil => rfl
  | cons line lines ih =>
      obtain ⟨hline, hlines⟩ := List.forall_mem_cons.mp h
      rw [unlines_cons, partialLine_line hline, ih hlines]

/-- The lines of a text are texts. -/
lemma isUtf8_lines {bytes : Bytes} (h : isUtf8 bytes = true) :
    (∀ line ∈ completeLines bytes, isUtf8 line = true) ∧ isUtf8 (partialLine bytes) = true := by
  induction bytes using lines_induction with
  | unfinished line hline =>
      rw [completeLines_unfinished hline, partialLine_unfinished hline]
      exact ⟨nofun, h⟩
  | line line bytes hline ih =>
      obtain ⟨hfirst, hrest⟩ := isUtf8From_newline (Nat.zero_le _) h
      obtain ⟨hlines, hpartial⟩ := ih hrest
      rw [completeLines_line hline, partialLine_line hline]
      exact ⟨List.forall_mem_cons.mpr ⟨hfirst, hlines⟩, hpartial⟩

end Lines

section Places

/-- The lines with the positions of their first bytes. -/
def placed : ℕ → List Bytes → List (ℕ × Bytes)
  | _, [] => []
  | start, line :: lines => (start, line) :: placed (start + line.length + 1) lines

lemma placed_append (start : ℕ) (lines lines' : List Bytes) :
    placed start (lines ++ lines') =
      placed start lines ++ placed (start + (unlines lines).length) lines' := by
  induction lines generalizing start with
  | nil => rfl
  | cons line lines ih =>
      have hstart : start + line.length + 1 + (unlines lines).length =
          start + (unlines (line :: lines)).length := by
        rw [unlines_cons, List.length_append, List.length_cons]
        omega
      rw [List.cons_append, placed, placed, ih, hstart, List.cons_append]

lemma le_of_mem_placed {start : ℕ} {lines : List Bytes} {x : ℕ × Bytes}
    (h : x ∈ placed start lines) : start ≤ x.1 := by
  induction lines generalizing start with
  | nil => cases h
  | cons line lines ih =>
      rcases List.mem_cons.mp h with rfl | h
      · exact le_rfl
      · have hle := ih h
        omega

/-- Later lines are further on. -/
lemma placed_pairwise (start : ℕ) (lines : List Bytes) :
    (placed start lines).Pairwise fun x y => x.1 < y.1 := by
  induction lines generalizing start with
  | nil => exact List.Pairwise.nil
  | cons line lines ih =>
      refine List.Pairwise.cons (fun y hy => ?_) (ih _)
      have hle := le_of_mem_placed hy
      show start < y.1
      omega

end Places

end Loker.ByteLines
