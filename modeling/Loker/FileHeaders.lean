import Loker.EditParser

/-! Which lines of a diff the parser takes for the headers of a file, and when it accepts
them. -/

namespace Loker.FileHeaders

open TextOps EditFiles EditParser

/-- The line would begin the headers of a file. -/
def opensFile (line : String) : Bool := startsWith line "--- "

/-- A line of a hunk among the lines of one file; the flag says that a hunk has begun. -/
def hasHunkLine : Bool → List String → Bool
  | _, [] => false
  | inHunk, line :: rest =>
      if startsWith line "@@ " then hasHunkLine true rest
      else (inHunk && line != noNewlineMarker) || hasHunkLine inHunk rest

/-- What must come after a line that opens a file: its second header, and before the next file
a line of a hunk. -/
def headsFile : List String → Bool
  | [] => false
  | plus :: rest =>
      startsWith plus "+++ " && hasHunkLine false (rest.takeWhile fun line => !opensFile line)

/-- Every line that opens a file stands before lines with the property. -/
def EachFile (P : String → List String → Prop) (ls : List String) : Prop :=
  ∀ before line after, ls = before ++ line :: after → opensFile line = true → P line after

variable {P : String → List String → Prop} {ls : List String}

lemma eachFile_nil : EachFile P [] := by
  intro before line after h
  simp at h

lemma eachFile_cons {line : String} :
    EachFile P (line :: ls) ↔ (opensFile line = true → P line ls) ∧ EachFile P ls := by
  constructor
  · intro h
    exact ⟨h [] line ls rfl, fun before l after hls => h (line :: before) l after (by simp [hls])⟩
  · rintro ⟨hline, hls⟩ before l after heq hopens
    cases before with
    | nil =>
        obtain ⟨rfl, rfl⟩ := List.cons.inj heq
        exact hline hopens
    | cons b before => exact hls before l after (List.cons.inj heq).2 hopens

lemma eachFile_dropWhile :
    EachFile P (ls.dropWhile fun line => !opensFile line) ↔ EachFile P ls := by
  induction ls with
  | nil => rfl
  | cons line ls ih =>
      by_cases hopens : opensFile line = true
      · rw [List.dropWhile_cons_of_neg (by simp [hopens])]
      · rw [List.dropWhile_cons_of_pos (by simpa using hopens), ih, eachFile_cons]
        simp [hopens]

lemma opensFile_of_hunk {line : String} (h : startsWith line "@@ " = true) :
    opensFile line = false := by
  obtain ⟨rest, rfl⟩ := startsWith_iff.mp h
  simp [opensFile, startsWith, List.isPrefixOf]

lemma opensFile_of_plus {line : String} (h : startsWith line "+++ " = true) :
    opensFile line = false := by
  obtain ⟨rest, rfl⟩ := startsWith_iff.mp h
  simp [opensFile, startsWith, List.isPrefixOf]

/-- The hunks of a file reach to the next line that opens one. -/
lemma collectHunks_rest (hdiff : ∀ line ∈ ls, startsWith line "diff " = false) (inHunk : Bool)
    (text : HunkText) :
    (collectHunks inHunk text ls).2 = ls.dropWhile fun line => !opensFile line := by
  induction ls generalizing inHunk text with
  | nil => rfl
  | cons line ls ih =>
      have hline := hdiff line List.mem_cons_self
      have ih := ih fun l hl => hdiff l (List.mem_cons_of_mem _ hl)
      unfold collectHunks
      split
      · next hhunk =>
        rw [ih, List.dropWhile_cons_of_pos (by simp [opensFile_of_hunk hhunk])]
      · rw [hline, Bool.or_false]
        split
        · next hopens =>
          have hopens : opensFile line = true := hopens
          rw [List.dropWhile_cons_of_neg (by simp [hopens])]
        · next hopens =>
          have hopens : ¬ opensFile line = true := hopens
          rw [List.dropWhile_cons_of_pos (by simpa using hopens)]
          split <;> exact ih _ _

lemma addLine_ne (text : HunkText) (line : String) :
    ¬ ((text.addLine line).old = "" ∧ (text.addLine line).new = "") := by
  have hend : ∀ s t : String, s ++ t ++ "\n" ≠ "" := by
    intro s t h
    exact absurd (congrArg String.toList h) (by simp)
  unfold HunkText.addLine
  split
  · exact fun h => hend _ _ h.1
  · exact fun h => hend _ _ h.2
  · exact fun h => hend _ _ h.1
  · exact fun h => hend _ _ h.1

/-- The parser finds no text for a file exactly if it has no line of a hunk. -/
lemma collectHunks_empty (hdiff : ∀ line ∈ ls, startsWith line "diff " = false) (inHunk : Bool)
    (text : HunkText) :
    (((collectHunks inHunk text ls).1.old = "" ∧ (collectHunks inHunk text ls).1.new = "") ↔
      (text.old = "" ∧ text.new = "") ∧
        hasHunkLine inHunk (ls.takeWhile fun line => !opensFile line) = false) := by
  induction ls generalizing inHunk text with
  | nil => simp [collectHunks, hasHunkLine]
  | cons line ls ih =>
      have hline := hdiff line List.mem_cons_self
      have ih := ih fun l hl => hdiff l (List.mem_cons_of_mem _ hl)
      unfold collectHunks
      split
      · next hhunk =>
        rw [ih, List.takeWhile_cons_of_pos (by simp [opensFile_of_hunk hhunk]), hasHunkLine,
          if_pos hhunk]
      · next hhunk =>
        rw [hline, Bool.or_false]
        split
        · next hopens =>
          have hopens : opensFile line = true := hopens
          rw [List.takeWhile_cons_of_neg (by simp [hopens])]
          simp [hasHunkLine]
        · next hopens =>
          have hopens : ¬ opensFile line = true := hopens
          rw [List.takeWhile_cons_of_pos (by simpa using hopens), hasHunkLine,
            if_neg hhunk]
          split
          · next hskip =>
            rw [ih]
            rcases hskip with hin | hmarker
            · simp [hin]
            · simp [hmarker]
          · next hkeep =>
            push Not at hkeep
            rw [ih]
            simp only [addLine_ne, false_and, false_iff]
            simp [hkeep.1, hkeep.2]

lemma parseFiles_skip {fuel : ℕ} {line : String} (h : opensFile line = false) :
    parseFiles (fuel + 1) (line :: ls) = parseFiles fuel ls := by
  have hopens : startsWith line "--- " = false := h
  simp [parseFiles, hopens]

/-- The edit the parser makes of one file's lines. -/
def fileEdit (line plus : String) (rest : List String) : FileEdit :=
  let text := (collectHunks false ⟨"", ""⟩ rest).1
  ⟨headerFile line plus, trimEndChar text.old '\n', trimEndChar text.new '\n'⟩

lemma parseFiles_file (fuel : ℕ) {line plus : String} (hopens : opensFile line = true)
    (hdiff : ∀ l ∈ ls, startsWith l "diff " = false) (hheads : headsFile (plus :: ls) = true) :
    parseFiles (fuel + 1) (line :: plus :: ls) =
      (parseFiles fuel (ls.dropWhile fun l => !opensFile l)).map (fileEdit line plus ls :: ·) := by
  have hopens : startsWith line "--- " = true := hopens
  obtain ⟨hplus, hhunk⟩ := Bool.and_eq_true_iff.mp hheads
  have hrest := collectHunks_rest hdiff false ⟨"", ""⟩
  have hempty := collectHunks_empty hdiff false ⟨"", ""⟩
  rw [hhunk] at hempty
  have hsome : ¬ ((collectHunks false ⟨"", ""⟩ ls).1.old = "" ∧
      (collectHunks false ⟨"", ""⟩ ls).1.new = "") := by simpa using hempty
  simp only [parseFiles, hopens, if_true, hplus, if_neg hsome, hrest]
  cases parseFiles fuel (ls.dropWhile fun l => !opensFile l) <;> rfl

lemma parseFiles_refuses (fuel : ℕ) {line : String} (hopens : opensFile line = true)
    (hdiff : ∀ l ∈ ls, startsWith l "diff " = false) (hheads : headsFile ls = false) :
    ∃ e, parseFiles (fuel + 1) (line :: ls) = .error e := by
  have hopens : startsWith line "--- " = true := hopens
  cases ls with
  | nil => simp [parseFiles, hopens]
  | cons plus rest =>
      by_cases hplus : startsWith plus "+++ " = true
      · have hhunk : hasHunkLine false (rest.takeWhile fun l => !opensFile l) = false := by
          simpa [headsFile, hplus] using hheads
        have hempty := (collectHunks_empty
          (fun l hl => hdiff l (List.mem_cons_of_mem _ hl)) false ⟨"", ""⟩).mpr ⟨⟨rfl, rfl⟩, hhunk⟩
        simp [parseFiles, hopens, hplus, hempty]
      · simp [parseFiles, hopens, hplus]

/-- No line after one that opens a file is the first line of a git header. -/
abbrev NoGitHeader (ls : List String) : Prop :=
  EachFile (fun _ after => ∀ l ∈ after, startsWith l "diff " = false) ls

/-- The parser takes exactly the texts in which every line that opens a file heads one. -/
lemma parseFiles_ok_iff (hdiff : NoGitHeader ls) {fuel : ℕ} (hfuel : ls.length ≤ fuel) :
    (∃ edits, parseFiles fuel ls = .ok edits) ↔
      EachFile (fun _ after => headsFile after = true) ls := by
  induction fuel generalizing ls with
  | zero =>
      obtain rfl : ls = [] := List.length_eq_zero_iff.mp (by omega)
      simp [parseFiles, eachFile_nil]
  | succ fuel ih =>
      cases ls with
      | nil => simp [parseFiles, eachFile_nil]
      | cons line rest =>
          obtain ⟨hline, hdiff⟩ := eachFile_cons.mp hdiff
          have hrest : rest.length ≤ fuel := by simpa using hfuel
          rw [eachFile_cons]
          by_cases hopens : opensFile line = true
          · have hline := hline hopens
            by_cases hheads : headsFile rest = true
            · cases rest with
              | nil => simp [headsFile] at hheads
              | cons plus rest =>
                  obtain ⟨hplus, _⟩ := Bool.and_eq_true_iff.mp hheads
                  have htail : ∀ l ∈ rest, startsWith l "diff " = false :=
                    fun l hl => hline l (List.mem_cons_of_mem _ hl)
                  have hdiff := eachFile_dropWhile.mpr (eachFile_cons.mp hdiff).2
                  have hlen := (List.dropWhile_sublist (fun l => !opensFile l) (l := rest)).length_le
                  have ih := ih hdiff (by simp only [List.length_cons] at hrest; omega)
                  rw [eachFile_dropWhile] at ih
                  rw [parseFiles_file fuel hopens htail hheads, eachFile_cons, ← ih]
                  cases parseFiles fuel (rest.dropWhile fun l => !opensFile l) <;>
                    simp [Except.map, hheads, opensFile_of_plus hplus]
            · obtain ⟨e, he⟩ := parseFiles_refuses fuel hopens hline (by simpa using hheads)
              simp [he, hopens, hheads]
          · rw [parseFiles_skip (by simpa using hopens), ih hdiff hrest]
            simp [hopens]

/-- Each line that opens a file gives its path to one of the edits. -/
lemma parseFiles_names (hdiff : NoGitHeader ls) {fuel : ℕ} (hfuel : ls.length ≤ fuel)
    {edits : List FileEdit} (h : parseFiles fuel ls = .ok edits) :
    EachFile (fun line after =>
      ∃ e ∈ edits, ∃ plus ∈ after.head?, e.file = headerFile line plus) ls := by
  induction fuel generalizing ls edits with
  | zero =>
      obtain rfl : ls = [] := List.length_eq_zero_iff.mp (by omega)
      exact eachFile_nil
  | succ fuel ih =>
      cases ls with
      | nil => exact eachFile_nil
      | cons line rest =>
          obtain ⟨hline, hdiff'⟩ := eachFile_cons.mp hdiff
          have hrest : rest.length ≤ fuel := by simpa using hfuel
          have hheads := (parseFiles_ok_iff hdiff hfuel).mp ⟨edits, h⟩
          rw [eachFile_cons] at hheads ⊢
          by_cases hopens : opensFile line = true
          · have hline := hline hopens
            have hheads := hheads.1 hopens
            cases rest with
            | nil => simp [headsFile] at hheads
            | cons plus rest =>
                obtain ⟨hplus, _⟩ := Bool.and_eq_true_iff.mp hheads
                have htail : ∀ l ∈ rest, startsWith l "diff " = false :=
                  fun l hl => hline l (List.mem_cons_of_mem _ hl)
                have hdiff' := eachFile_dropWhile.mpr (eachFile_cons.mp hdiff').2
                have hlen := (List.dropWhile_sublist (fun l => !opensFile l) (l := rest)).length_le
                rw [parseFiles_file fuel hopens htail hheads] at h
                cases hparse : parseFiles fuel (rest.dropWhile fun l => !opensFile l) with
                | error e =>
                    rw [hparse] at h
                    cases h
                | ok later =>
                    rw [hparse] at h
                    have ih := ih hdiff' (by simp only [List.length_cons] at hrest; omega) hparse
                    obtain rfl : fileEdit line plus rest :: later = edits := Except.ok.inj h
                    rw [eachFile_dropWhile] at ih
                    refine ⟨fun _ => ⟨_, List.mem_cons_self, plus, rfl, rfl⟩, ?_⟩
                    rw [eachFile_cons]
                    refine ⟨fun hno => ?_, fun before l after hls ho => ?_⟩
                    · rw [opensFile_of_plus hplus] at hno
                      cases hno
                    · obtain ⟨e, he, hfile⟩ := ih before l after hls ho
                      exact ⟨e, List.mem_cons_of_mem _ he, hfile⟩
          · rw [parseFiles_skip (by simpa using hopens)] at h
            exact ⟨fun hno => absurd hno hopens, ih hdiff' hrest h⟩

end Loker.FileHeaders
