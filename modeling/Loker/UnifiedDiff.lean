import Loker.FileHeaders
import Loker.TextLines

/-! Unified diffs of one file: what they say, their text, and how the parser reads it. -/

namespace Loker.UnifiedDiff

open TextOps TextLines EditFiles EditParser FileHeaders

inductive LineKind where
  | context
  | removed
  | added
  deriving DecidableEq, Repr

def LineKind.sign : LineKind → Char
  | .context => ' '
  | .removed => '-'
  | .added => '+'

/-- A line of a hunk; `ended` says that it has a line end in its file. -/
structure HunkLine where
  kind : LineKind
  text : List Char
  ended : Bool
  deriving DecidableEq, Repr

/-- The header is what follows `@@ -` on the hunk's first line. -/
structure Hunk where
  header : List Char
  lines : List HunkLine
  deriving DecidableEq, Repr

/-- A diff of one file, with the lines that may stand before the file headers. The names are what
the two headers say behind their signs: the path, with a prefix or without, in quotes or not, and
with a time stamp after it or nothing. -/
structure Diff where
  extended : List (List Char)
  path : String
  oldName : List Char
  newName : List Char
  hunks : List Hunk
  deriving DecidableEq, Repr

section Text

def marker : List Char := noNewlineMarker.toList

def HunkLine.render (l : HunkLine) : List (List Char) :=
  (l.kind.sign :: l.text) :: if l.ended then [] else [marker]

def Hunk.render (h : Hunk) : List (List Char) :=
  ("@@ -".toList ++ h.header) :: h.lines.flatMap HunkLine.render

def Diff.headers (d : Diff) : List (List Char) :=
  ["--- ".toList ++ d.oldName, "+++ ".toList ++ d.newName]

def Diff.lines (d : Diff) : List (List Char) :=
  d.extended ++ d.headers ++ d.hunks.flatMap Hunk.render

def Diff.text (d : Diff) : String := String.ofList (unlines d.lines)

end Text

section Sides

/-- The text of the lines that are not of the absent kind. -/
def side (absent : LineKind) : List HunkLine → List Char
  | [] => []
  | l :: ls =>
      if l.kind = absent then side absent ls
      else l.text ++ (if l.ended then ['\n'] else []) ++ side absent ls

def Hunk.old (h : Hunk) : List Char := side .added h.lines

def Hunk.new (h : Hunk) : List Char := side .removed h.lines

/-- One side of every hunk between the parts of the text that the diff leaves as they are. -/
def weave (tail : List Char) : List (List Char) → List (List Char) → List Char
  | gap :: gaps, s :: sides => gap ++ s ++ weave tail gaps sides
  | _, _ => tail

/-- The diff is a valid one and turns `f` into `g`: the gaps are the unchanged text before
each hunk, the tail the text after the last. -/
structure Turns (d : Diff) (gaps : List (List Char)) (tail : List Char) (f g : String) :
    Prop where
  one_line : Plain d.lines
  extended_word : ∀ line ∈ d.extended, line.head?.any Char.isAlpha = true
  keeps_file : trim (String.ofList d.newName) ≠ "/dev/null"
  hunks_ne : d.hunks ≠ []
  changes : ∀ h ∈ d.hunks, ∃ l ∈ h.lines, l.kind ≠ .context
  gaps_length : gaps.length = d.hunks.length
  earlier_ended : ∀ h ∈ d.hunks.dropLast, ∀ l ∈ h.lines, l.ended = true
  unended_last : (∃ h ∈ d.hunks, ∃ l ∈ h.lines, l.ended = false) → tail = []
  old_text : f.toList = weave tail gaps (d.hunks.map Hunk.old)
  new_text : g.toList = weave tail gaps (d.hunks.map Hunk.new)

end Sides

section Reading

/-- Reading a line takes up to two `\r` from its end: one when the line ends are made alike and
one when the lines are split. -/
def dropCRs (l : List Char) : List Char := dropCR (dropCR l)

def HunkLine.read (l : HunkLine) : HunkLine := { l with text := dropCRs l.text }

def Hunk.read (h : Hunk) : Hunk := ⟨dropCRs h.header, h.lines.map HunkLine.read⟩

def HunkLine.blank (l : HunkLine) : Bool :=
  l.kind = .context && l.ended && l.text.all isWhiteSpace

/-- The line at the end of the diff; a marker after it protects its text. -/
def HunkLine.trimEnd (l : HunkLine) : HunkLine :=
  if l.ended then { l with text := trimEndChars l.text } else l

/-- The last hunk's lines without the white space at the end of the diff. -/
def trimLines : List HunkLine → List HunkLine
  | [] => []
  | l :: ls =>
      match trimLines ls with
      | [] => if l.blank then [] else [l.trimEnd]
      | m :: ms => l :: m :: ms

/-- The hunks as the parser sees them. -/
def readHunks : List Hunk → List Hunk
  | [] => []
  | [h] => [Hunk.read { h with lines := trimLines h.lines }]
  | h :: h' :: hs => h.read :: readHunks (h' :: hs)

def Diff.readLines (d : Diff) : List (List Char) :=
  d.extended.map dropCRs ++ d.headers.map dropCRs ++ (readHunks d.hunks).flatMap Hunk.render

/-- The text the parser hands to the rest: line ends alike, no white space around it. -/
def Diff.content (d : Diff) : String := trim (replaceAll d.text "\r\n" "\n")

/-- The parser writes a line end after every line. -/
def HunkLine.close (l : HunkLine) : HunkLine := { l with ended := true }

def readSide (absent : LineKind) (hs : List Hunk) : List Char :=
  hs.flatMap fun h => side absent (h.lines.map HunkLine.close)

def trimNewlines (s : List Char) : List Char := s.rdropWhile (· = '\n')

/-- The text the diff's edit looks for. -/
def Diff.searched (d : Diff) : List Char := trimNewlines (readSide .added (readHunks d.hunks))

/-- The text the diff's edit puts in its place. -/
def Diff.replacement (d : Diff) : List Char :=
  trimNewlines (readSide .removed (readHunks d.hunks))

/-- A removed line that looks like the first header of a file. -/
def HunkLine.opens (l : HunkLine) : Bool :=
  l.kind = .removed && "-- ".toList.isPrefixOf l.text

/-- Some line of a hunk opens a file. -/
def Diff.Dashed (d : Diff) : Prop := ∃ h ∈ readHunks d.hunks, ∃ l ∈ h.lines, l.opens = true

end Reading

section ReadLines

lemma dropCRs_cons {c : Char} (hc : c ≠ '\r') (l : List Char) :
    dropCRs (c :: l) = c :: dropCRs l := by
  unfold dropCRs
  rw [dropCR_cons (Or.inl hc), dropCR_cons (Or.inl hc)]

lemma sign_ne_cr (k : LineKind) : k.sign ≠ '\r' := by
  cases k <;> decide

lemma dropCRs_marker : dropCRs marker = marker := by decide

lemma HunkLine.render_read (l : HunkLine) : l.read.render = l.render.map dropCRs := by
  unfold HunkLine.render HunkLine.read
  rw [List.map_cons, dropCRs_cons (sign_ne_cr _)]
  cases l.ended <;> simp [dropCRs_marker]

lemma Hunk.render_read (h : Hunk) : h.read.render = h.render.map dropCRs := by
  have hlines : (h.lines.map HunkLine.read).flatMap HunkLine.render =
      (h.lines.flatMap HunkLine.render).map dropCRs := by
    rw [List.flatMap_map, List.map_flatMap]
    exact List.flatMap_congr fun l _ => HunkLine.render_read l
  unfold Hunk.render Hunk.read
  rw [List.map_cons, hlines]
  rfl

lemma trimLines_nil {ls : List HunkLine} (h : ∀ l ∈ ls, l.blank = true) : trimLines ls = [] := by
  induction ls with
  | nil => rfl
  | cons l ls ih =>
      have hls := ih fun m hm => h m (List.mem_cons_of_mem _ hm)
      simp [trimLines, hls, h l List.mem_cons_self]

/-- The last line that is not blank, with what is before and after it. -/
lemma trimLines_split {ls : List HunkLine} (h : ∃ l ∈ ls, l.blank = false) :
    ∃ before l blanks, ls = before ++ l :: blanks ∧ l.blank = false ∧
      (∀ b ∈ blanks, b.blank = true) ∧ trimLines ls = before ++ [l.trimEnd] := by
  induction ls with
  | nil => simp at h
  | cons l ls ih =>
      by_cases hrest : ∃ m ∈ ls, m.blank = false
      · obtain ⟨before, m, blanks, rfl, hm, hblanks, htrim⟩ := ih hrest
        refine ⟨l :: before, m, blanks, rfl, hm, hblanks, ?_⟩
        rw [trimLines, htrim]
        cases before <;> rfl
      · have hall : ∀ b ∈ ls, b.blank = true := by simpa using hrest
        have hl : l.blank = false := by
          obtain ⟨m, hm, hblank⟩ := h
          rcases List.mem_cons.mp hm with rfl | hm
          · exact hblank
          · exact absurd ⟨m, hm, hblank⟩ hrest
        exact ⟨[], l, ls, rfl, hl, hall, by simp [trimLines, trimLines_nil hall, hl]⟩

lemma sign_dark {k : LineKind} (h : k ≠ .context) : isWhiteSpace k.sign = false := by
  cases k with
  | context => exact absurd rfl h
  | removed => decide
  | added => decide

/-- A line that is not blank has something to keep behind its sign or is a change. -/
lemma HunkLine.dark {l : HunkLine} (hended : l.ended = true) (h : l.blank = false) :
    ∃ c ∈ l.kind.sign :: l.text, isWhiteSpace c = false := by
  by_cases hkind : l.kind = .context
  · have htext : ¬ l.text.all isWhiteSpace = true := by
      intro hall
      simp [HunkLine.blank, hkind, hended, hall] at h
    obtain ⟨c, hc, hdark⟩ : ∃ c ∈ l.text, isWhiteSpace c = false := by simpa using htext
    exact ⟨c, List.mem_cons_of_mem _ hc, hdark⟩
  · exact ⟨l.kind.sign, List.mem_cons_self, sign_dark hkind⟩

lemma HunkLine.trimEndChars_line {l : HunkLine} (hended : l.ended = true)
    (h : l.blank = false) :
    trimEndChars (l.kind.sign :: l.text) = l.kind.sign :: trimEndChars l.text := by
  by_cases htext : ∃ c ∈ l.text, isWhiteSpace c = false
  · exact rdropWhile_append (s := [l.kind.sign]) htext
  · have hwhite : ∀ c ∈ l.text, isWhiteSpace c = true := by simpa using htext
    have hkind : l.kind ≠ .context := by
      intro hkind
      have hall : l.text.all isWhiteSpace = true := List.all_eq_true.mpr hwhite
      simp [HunkLine.blank, hkind, hended, hall] at h
    have hnil : trimEndChars l.text = [] := List.rdropWhile_eq_nil_iff.mpr hwhite
    have hline := rdropWhile_append_all (s := [l.kind.sign]) hwhite
    rw [List.rdropWhile_singleton, if_neg (by simp [sign_dark hkind])] at hline
    rw [hnil]
    exact hline

lemma dropCR_trimEndChars (l : List Char) : dropCR (trimEndChars l) = trimEndChars l := by
  apply dropCR_eq_self
  intro hlast
  unfold trimEndChars List.rdropWhile at hlast
  rw [List.getLast?_reverse] at hlast
  have hdark := List.head?_dropWhile_not isWhiteSpace l.reverse
  rw [hlast] at hdark
  simp [isWhiteSpace] at hdark

lemma dropCRs_trimEndChars (l : List Char) : dropCRs (trimEndChars l) = trimEndChars l := by
  unfold dropCRs
  rw [dropCR_trimEndChars, dropCR_trimEndChars]

/-- The lines of the last hunk as they are and as they are read. -/
lemma render_split {ls : List HunkLine} (h : ∃ l ∈ ls, l.blank = false) :
    ∃ before x blanks, ls.flatMap HunkLine.render = before ++ x :: blanks ∧
      (∃ c ∈ x, isWhiteSpace c = false) ∧ (∀ m ∈ blanks, ∀ c ∈ m, isWhiteSpace c = true) ∧
      ((trimLines ls).map HunkLine.read).flatMap HunkLine.render =
        before.map dropCRs ++ [trimEndChars x] := by
  obtain ⟨before, l, blanks, rfl, hl, hblanks, htrim⟩ := trimLines_split h
  have hwhite : ∀ m ∈ blanks.flatMap HunkLine.render, ∀ c ∈ m, isWhiteSpace c = true := by
    intro m hm c hc
    obtain ⟨b, hb, hmb⟩ := List.mem_flatMap.mp hm
    have hblank := hblanks b hb
    simp only [HunkLine.blank, Bool.and_eq_true, decide_eq_true_eq, List.all_eq_true] at hblank
    obtain ⟨⟨hkind, hended⟩, htext⟩ := hblank
    simp only [HunkLine.render, hkind, hended, if_true, List.mem_singleton] at hmb
    rw [hmb] at hc
    rcases List.mem_cons.mp hc with rfl | hc
    · decide
    · exact htext c hc
  have hbefore : (before.map HunkLine.read).flatMap HunkLine.render =
      (before.flatMap HunkLine.render).map dropCRs := by
    rw [List.flatMap_map, List.map_flatMap]
    exact List.flatMap_congr fun l _ => HunkLine.render_read l
  cases hended : l.ended with
  | true =>
      refine ⟨before.flatMap HunkLine.render, l.kind.sign :: l.text,
        blanks.flatMap HunkLine.render, ?_, HunkLine.dark hended hl, hwhite, ?_⟩
      · simp [HunkLine.render, hended]
      · rw [htrim, List.map_append, List.flatMap_append, hbefore,
          HunkLine.trimEndChars_line hended hl]
        simp [HunkLine.trimEnd, HunkLine.read, HunkLine.render, hended, dropCRs_trimEndChars]
  | false =>
      refine ⟨before.flatMap HunkLine.render ++ [l.kind.sign :: l.text], marker,
        blanks.flatMap HunkLine.render, ?_, ⟨'\\', by decide⟩, hwhite, ?_⟩
      · simp [HunkLine.render, hended]
      · have hmarker : trimEndChars marker = marker := by decide
        rw [htrim, List.map_append, List.flatMap_append, hbefore, hmarker]
        simp [HunkLine.trimEnd, HunkLine.read, HunkLine.render, hended,
          dropCRs_cons (sign_ne_cr _)]

lemma not_blank_of_change {l : HunkLine} (h : l.kind ≠ .context) : l.blank = false := by
  simp [HunkLine.blank, h]

lemma hunks_split {hs : List Hunk} (hne : hs ≠ [])
    (hchanges : ∀ h ∈ hs, ∃ l ∈ h.lines, l.kind ≠ .context) :
    ∃ before x blanks, hs.flatMap Hunk.render = before ++ x :: blanks ∧
      (∃ c ∈ x, isWhiteSpace c = false) ∧ (∀ m ∈ blanks, ∀ c ∈ m, isWhiteSpace c = true) ∧
      (readHunks hs).flatMap Hunk.render = before.map dropCRs ++ [trimEndChars x] := by
  induction hs using readHunks.induct with
  | case1 => exact absurd rfl hne
  | case2 h =>
      obtain ⟨l, hl, hkind⟩ := hchanges h List.mem_cons_self
      obtain ⟨before, x, blanks, hlines, hx, hblanks, hread⟩ :=
        render_split ⟨l, hl, not_blank_of_change hkind⟩
      refine ⟨("@@ -".toList ++ h.header) :: before, x, blanks, ?_, hx, hblanks, ?_⟩
      · simp [Hunk.render, hlines]
      · have hheader : dropCRs ("@@ -".toList ++ h.header) = "@@ -".toList ++ dropCRs h.header :=
          rfl
        rw [List.map_cons, hheader, List.cons_append, ← hread]
        simp [readHunks, Hunk.render, Hunk.read]
  | case3 h h' hs ih =>
      have hrest : ∀ k ∈ h' :: hs, ∃ l ∈ k.lines, l.kind ≠ .context :=
        fun k hk => hchanges k (List.mem_cons_of_mem _ hk)
      obtain ⟨before, x, blanks, hlines, hx, hblanks, hread⟩ := ih (by simp) hrest
      refine ⟨h.render ++ before, x, blanks, ?_, hx, hblanks, ?_⟩
      · rw [List.flatMap_cons, hlines, List.append_assoc]
      · rw [readHunks, List.flatMap_cons, hread, Hunk.render_read, List.map_append,
          List.append_assoc]

end ReadLines

lemma render_head {hs : List Hunk} {l : List Char} (hl : l ∈ hs.flatMap Hunk.render) :
    ∃ c ∈ l.head?, c ∈ ['-', '+', ' ', '@', '\\'] := by
  obtain ⟨h, _, hl⟩ := List.mem_flatMap.mp hl
  rcases List.mem_cons.mp hl with rfl | hl
  · exact ⟨'@', rfl, by decide⟩
  · obtain ⟨line, _, hl⟩ := List.mem_flatMap.mp hl
    rcases List.mem_cons.mp hl with rfl | hl
    · refine ⟨line.kind.sign, rfl, ?_⟩
      cases line.kind <;> decide
    · split at hl
      · simp at hl
      · rw [List.mem_singleton.mp hl]
        exact ⟨'\\', rfl, by decide⟩

lemma render_readHunks_ne {hs : List Hunk} (hne : hs ≠ []) :
    (readHunks hs).flatMap Hunk.render ≠ [] := by
  cases hs using readHunks.fun_cases with
  | case1 => exact absurd rfl hne
  | case2 h => simp [readHunks, Hunk.render]
  | case3 h h' hs => simp [readHunks, Hunk.render]

section Content

variable {d : Diff} {gaps : List (List Char)} {tail : List Char} {f g : String}

/-- The header lines as the parser sees them. -/
def Diff.oldHeader (d : Diff) : String := String.ofList ("--- ".toList ++ dropCRs d.oldName)

def Diff.newHeader (d : Diff) : String := String.ofList ("+++ ".toList ++ dropCRs d.newName)

lemma Diff.headers_read (d : Diff) : d.headers.map dropCRs =
    ["--- ".toList ++ dropCRs d.oldName, "+++ ".toList ++ dropCRs d.newName] := rfl

/-- The diff's lines up to its last one with something in it. -/
lemma Turns.lines_split (h : Turns d gaps tail f g) :
    ∃ before x blanks, d.lines = before ++ x :: blanks ∧
      (∃ c ∈ x, isWhiteSpace c = false) ∧ (∀ m ∈ blanks, ∀ c ∈ m, isWhiteSpace c = true) ∧
      d.readLines = before.map dropCRs ++ [trimEndChars x] := by
  obtain ⟨before, x, blanks, hlines, hx, hblanks, hread⟩ := hunks_split h.hunks_ne h.changes
  refine ⟨d.extended ++ d.headers ++ before, x, blanks, ?_, hx, hblanks, ?_⟩
  · rw [Diff.lines, hlines]
    simp
  · rw [Diff.readLines, hread, List.map_append, List.map_append]
    simp

lemma Turns.first_dark (h : Turns d gaps tail f g) :
    ∃ c cs rest, d.lines = (c :: cs) :: rest ∧ isWhiteSpace c = false := by
  cases hext : d.extended with
  | nil =>
      refine ⟨'-', "-- ".toList ++ d.oldName,
        ("+++ ".toList ++ d.newName) :: d.hunks.flatMap Hunk.render, ?_, by decide⟩
      rw [Diff.lines, hext]
      rfl
  | cons line rest =>
      have hword := h.extended_word line (by simp [hext])
      cases line with
      | nil => simp at hword
      | cons c cs =>
          refine ⟨c, cs, rest ++ d.headers ++ d.hunks.flatMap Hunk.render, ?_,
            isWhiteSpace_of_isAlpha (by simpa using hword)⟩
          simp [Diff.lines, hext]

/-- What the parser works on, put together from the lines it will read. -/
lemma Turns.content_split (h : Turns d gaps tail f g) :
    ∃ before last, d.content.toList = unlines before ++ last ∧ Plain before ∧ '\n' ∉ last ∧
      last ≠ [] ∧ trimEndChars last = last ∧ d.readLines = before.map dropCR ++ [last] := by
  obtain ⟨before, x, blanks, hlines, hx, hblanks, hread⟩ := h.lines_split
  have hplain : Plain before := fun l hl => h.one_line l (by simp [hlines, hl])
  have hxline : '\n' ∉ x := h.one_line x (by simp [hlines])
  refine ⟨before.map dropCR, trimEndChars x, ?_, hplain.map_dropCR,
    fun hmem => hxline ((List.rdropWhile_prefix _ x).mem hmem), rdropWhile_ne_nil hx,
    trimEndChars_idem x, by rw [hread]; simp [dropCRs, Function.comp_def]⟩
  have hnorm : (replaceAll d.text "\r\n" "\n").toList = unlines (d.lines.map dropCR) := by
    have hnil : '\n' ∉ ([] : List Char) := List.not_mem_nil
    have hunlines := normalize_unlines h.one_line hnil
    rw [List.append_nil, List.append_nil] at hunlines
    simpa [replaceAll, Diff.text] using hunlines
  obtain ⟨c, cs, rest, hfirst, hdark⟩ := h.first_dark
  have hfront : (unlines (d.lines.map dropCR)).dropWhile isWhiteSpace =
      unlines (d.lines.map dropCR) := by
    have hc : c ≠ '\r' := by
      rintro rfl
      simp [isWhiteSpace] at hdark
    rw [hfirst, List.map_cons, dropCR_cons (Or.inl hc), unlines_cons, List.cons_append,
      List.dropWhile_cons_of_neg (by simp [hdark])]
  have hblankscr : ∀ m ∈ blanks.map dropCR, ∀ c ∈ m, isWhiteSpace c = true := by
    intro m hm c hc
    obtain ⟨b, hb, rfl⟩ := List.mem_map.mp hm
    exact hblanks b hb c ((dropCR_sublist b).mem hc)
  rw [Diff.content, toList_trim, hnorm, hfront, hlines, List.map_append, List.map_cons,
    trimEndChars_unlines (dark_dropCR hx) hblankscr, trimEndChars_dropCR]

lemma Turns.lines_content (h : Turns d gaps tail f g) :
    lines d.content = d.readLines.map String.ofList := by
  obtain ⟨before, last, hcontent, hplain, hlast, hne, _, hread⟩ := h.content_split
  have hnorm : (replaceAll d.content "\r\n" "\n").toList = unlines (before.map dropCR) ++ last := by
    have hunlines := normalize_unlines hplain hlast
    rw [← hcontent] at hunlines
    simpa [replaceAll] using hunlines
  rw [TextOps.lines, hnorm, splitLines_unlines hplain.map_dropCR hlast hne, hread]

lemma trim_content (d : Diff) : trim d.content = d.content := trim_trim _

lemma Turns.content_ne (h : Turns d gaps tail f g) : d.content ≠ "" := by
  obtain ⟨before, last, hcontent, _, _, hne, _, _⟩ := h.content_split
  intro hempty
  rw [hempty] at hcontent
  exact hne (List.append_eq_nil_iff.mp hcontent.symm).2

/-- Each line of the diff begins with a letter or with one of the signs. -/
lemma Turns.readLines_head (h : Turns d gaps tail f g) :
    ∀ l ∈ d.readLines, ∃ c ∈ l.head?, c.isAlpha = true ∨ c ∈ ['-', '+', ' ', '@', '\\'] := by
  intro l hl
  rcases List.mem_append.mp hl with hl | hl
  · rcases List.mem_append.mp hl with hl | hl
    · obtain ⟨line, hline, rfl⟩ := List.mem_map.mp hl
      have hword := h.extended_word line hline
      cases line with
      | nil => simp at hword
      | cons c cs =>
          have hc : c.isAlpha = true := by simpa using hword
          have hcr : c ≠ '\r' := by
            rintro rfl
            simp at hc
          exact ⟨c, by simp [dropCRs_cons hcr], Or.inl hc⟩
    · rw [d.headers_read] at hl
      rcases List.mem_cons.mp hl with rfl | hl
      · exact ⟨'-', rfl, by decide⟩
      · rw [List.mem_singleton.mp hl]
        exact ⟨'+', rfl, by decide⟩
  · obtain ⟨c, hc, hmem⟩ := render_head hl
    exact ⟨c, hc, Or.inr hmem⟩

/-- Inside the content no fence begins a line. -/
lemma Turns.no_fence_line (h : Turns d gaps tail f g) :
    ∀ l ∈ splitLines d.content.toList, ¬ "```".toList <+: l := by
  obtain ⟨before, last, hcontent, hplain, hlast, hne, _, hread⟩ := h.content_split
  rw [hcontent, splitLines_unlines hplain hlast hne]
  have hlines : ∀ l ∈ d.readLines, ¬ "```".toList <+: l := by
    intro l hl hfence
    obtain ⟨c, hc, hkind⟩ := h.readLines_head l hl
    obtain ⟨rest, rfl⟩ := hfence
    obtain rfl : c = '\x60' := by simpa [eq_comm] using hc
    revert hkind
    decide
  intro l hl
  rw [hread] at hlines
  rcases List.mem_append.mp hl with hl | hl
  · have hcr := hlines (dropCR l) (by simp only [List.mem_append, List.mem_map]; exact Or.inl ⟨l, hl, rfl⟩)
    rwa [prefix_dropCR_iff (by decide)] at hcr
  · exact hlines l (by simp [List.mem_singleton.mp hl])

end Content

section Fences

/-- The text's first fence stands on its last line, with another one right behind it. -/
def endsInFences (text : String) : Bool :=
  match splitAtFirst text "```" with
  | some (_, after) => startsWith after "```" && !contains after "\n"
  | none => false

lemma findClosingFence_eq {input : String} (before after : String)
    (hinput : input.toList = before.toList ++ after.toList)
    (hlines : ∀ l ∈ splitLines input.toList, ¬ "```".toList <+: l) :
    findClosingFence after = if startsWith after "```" then some "" else none := by
  have hnot : contains after "\n```" = false := by
    by_contra hyes
    have hinfix : "\n```".toList <:+: after.toList := by
      simpa [contains] using hyes
    have hall : '\n' :: "```".toList <:+: input.toList := by
      rw [hinput]
      exact hinfix.trans (List.suffix_append _ _).isInfix
    obtain ⟨l, hl, hfence⟩ := mem_splitLines_of_infix (by decide) (by decide) hall
    exact hlines l hl hfence
  rw [findClosingFence, hnot]
  simp

/-- Where no fence begins a line there is no code block, except behind two fences. -/
lemma extractCodeBlock_eq {input : String}
    (hlines : ∀ l ∈ splitLines input.toList, ¬ "```".toList <+: l) :
    extractCodeBlock input = if endsInFences input then ("", none) else (input, none) := by
  unfold extractCodeBlock endsInFences
  cases hfirst : splitAtFirst input "```" with
  | none => simp
  | some parts =>
      obtain ⟨before, after⟩ := parts
      have hinput := TextSearch.splitAtFirst_some (by decide) hfirst
      cases hnl : splitAtFirst after "\n" with
      | none =>
          have hnone := TextSearch.splitAtFirst_none.mp hnl
          have hclose := findClosingFence_eq (before ++ "```") after
            (by simpa using hinput) hlines
          by_cases hfence : startsWith after "```" = true <;>
            simp [splitLangHint, hnl, hclose, hnone, hfence]
      | some rest =>
          obtain ⟨hint, remaining⟩ := rest
          have hafter := TextSearch.splitAtFirst_some (by decide) hnl
          have hcontains : contains after "\n" = true := by
            by_contra hno
            have hno' : contains after "\n" = false := by simpa using hno
            rw [TextSearch.splitAtFirst_none.mpr hno'] at hnl
            cases hnl
          have hclose := findClosingFence_eq (before ++ "```" ++ hint ++ "\n")
            remaining (by rw [hinput, hafter]; simp) hlines
          have hstart : startsWith remaining "```" = false := by
            by_contra hyes
            have hpre : "```".toList <+: remaining.toList := by simpa [startsWith] using hyes
            have hinfix : '\n' :: "```".toList <:+: input.toList := by
              obtain ⟨rest, hrest⟩ := hpre
              refine ⟨before.toList ++ "```".toList ++ hint.toList, rest, ?_⟩
              rw [hinput, hafter, ← hrest]
              simp
            obtain ⟨l, hl, hfence⟩ := mem_splitLines_of_infix (by decide) (by decide) hinfix
            exact hlines l hl hfence
          simp [splitLangHint, hnl, hclose, hcontains, hstart]

end Fences

section Parse

variable {d : Diff} {gaps : List (List Char)} {tail : List Char} {f g : String}

/-- The file headers stand in the content as the format detection looks for them. -/
lemma Turns.content_headers (h : Turns d gaps tail f g) :
    ∃ before old new after last, d.content.toList = unlines (before ++ old :: new :: after) ++ last ∧
      "--- ".toList <+: old ∧ "+++ ".toList <+: new := by
  obtain ⟨before, last, hcontent, _, _, _, _, hread⟩ := h.content_split
  have hrender : (readHunks d.hunks).flatMap Hunk.render ≠ [] := render_readHunks_ne h.hunks_ne
  obtain ⟨init, r, hinit⟩ := (List.eq_nil_or_concat' _).resolve_left hrender
  have hlines : before.map dropCR = d.extended.map dropCRs ++ (d.headers.map dropCRs ++ init) := by
    rw [Diff.readLines, hinit, ← List.append_assoc, List.append_assoc _ (d.headers.map _)] at hread
    exact (List.append_inj_left' hread rfl).symm
  obtain ⟨front, rest, rfl, _, hrest⟩ := List.map_eq_append_iff.mp hlines
  obtain ⟨old, rest, rfl, hold, hrest⟩ := List.map_eq_cons_iff.mp hrest
  obtain ⟨new, after, rfl, hnew, _⟩ := List.map_eq_cons_iff.mp hrest
  refine ⟨front, old, new, after, last, hcontent, ?_, ?_⟩
  · rw [← prefix_dropCR_iff (by decide), hold]
    exact ⟨dropCRs d.oldName, rfl⟩
  · rw [← prefix_dropCR_iff (by decide), hnew]
    exact ⟨dropCRs d.newName, rfl⟩

lemma Turns.detectFormat (h : Turns d gaps tail f g) :
    detectFormat d.content none = .unifiedDiff := by
  obtain ⟨before, old, new, after, last, hcontent, hold, hnew⟩ := h.content_headers
  have hplus : contains d.content "\n+++ " = true := by
    have hinfix := infix_of_line after last (List.append_ne_nil_of_right_ne_nil before
      (List.cons_ne_nil old [])) hnew
    have hline : unlines ((before ++ [old]) ++ new :: after) ++ last = d.content.toList := by
      rw [hcontent]
      simp
    rw [hline] at hinfix
    exact decide_eq_true hinfix
  have hminus : (contains d.content "\n--- " || startsWith d.content "--- ") = true := by
    rw [Bool.or_eq_true]
    rcases eq_or_ne before [] with rfl | hne
    · right
      obtain ⟨rest, rfl⟩ := hold
      rw [startsWith, hcontent]
      simp
    · left
      have hinfix := infix_of_line (new :: after) last hne hold
      rw [← hcontent] at hinfix
      exact decide_eq_true hinfix
  rw [EditParser.detectFormat]
  simp [hplus, hminus]

/-- The parser reads a diff as one, unless it is too long or ends in two fences. -/
theorem Turns.parse (h : Turns d gaps tail f g)
    (readWrapper readEdits : String → Option (List FileEdit)) :
    EditParser.parse readWrapper readEdits d.text =
      if d.text.utf8ByteSize > maxInputSize then .error .inputTooLarge
      else if endsInFences d.content then .error .noContent
      else parseUnifiedDiff d.content := by
  have hblock := extractCodeBlock_eq h.no_fence_line
  have hdetect := h.detectFormat
  have htrim := trim_content d
  unfold EditParser.parse
  rw [show trim (replaceAll d.text "\r\n" "\n") = d.content from rfl]
  split
  · rfl
  · by_cases hfences : endsInFences d.content = true
    · have hempty : trim "" = "" := by decide
      simp [h.content_ne, hblock, hfences, hempty]
    · simp [h.content_ne, hblock, hfences, htrim, hdetect]

end Parse

section Hunks

variable {hs : List Hunk} {l : HunkLine} {text : HunkText} {rest : List String}

lemma startsWith_ofList (cs : List Char) (pre : String) :
    startsWith (String.ofList cs) pre = pre.toList.isPrefixOf cs := by
  simp [startsWith]

lemma stripPrefix_ofList (c d : Char) (cs : List Char) :
    stripPrefix (String.ofList (c :: cs)) (String.ofList [d]) =
      if d = c then some (String.ofList cs) else none := by
  simp [stripPrefix, startsWith, List.isPrefixOf]

lemma opensFile_line : opensFile (String.ofList (l.kind.sign :: l.text)) = l.opens := by
  rw [opensFile, startsWith_ofList, HunkLine.opens]
  cases l.kind <;> simp [LineKind.sign, List.isPrefixOf]

/-- A line of a hunk goes to the sides it belongs to. -/
lemma addLine_line : text.addLine (String.ofList (l.kind.sign :: l.text)) =
    ⟨text.old ++ String.ofList (side .added [l.close]),
      text.new ++ String.ofList (side .removed [l.close])⟩ := by
  have hminus : stripPrefix (String.ofList (l.kind.sign :: l.text)) "-" =
      if '-' = l.kind.sign then some (String.ofList l.text) else none :=
    stripPrefix_ofList l.kind.sign '-' l.text
  have hplus : stripPrefix (String.ofList (l.kind.sign :: l.text)) "+" =
      if '+' = l.kind.sign then some (String.ofList l.text) else none :=
    stripPrefix_ofList l.kind.sign '+' l.text
  have hspace : stripPrefix (String.ofList (l.kind.sign :: l.text)) " " =
      if ' ' = l.kind.sign then some (String.ofList l.text) else none :=
    stripPrefix_ofList l.kind.sign ' ' l.text
  unfold HunkText.addLine
  rw [hminus, hplus, hspace]
  cases hkind : l.kind <;>
    simp [hkind, LineKind.sign, side, HunkLine.close, String.append_assoc]

lemma collectHunks_line (hopens : l.opens = false) :
    collectHunks true text (l.render.map String.ofList ++ rest) =
      collectHunks true ⟨text.old ++ String.ofList (side .added [l.close]),
        text.new ++ String.ofList (side .removed [l.close])⟩ rest := by
  have hhunk : startsWith (String.ofList (l.kind.sign :: l.text)) "@@ " = false := by
    rw [startsWith_ofList]
    cases l.kind <;> simp [LineKind.sign, List.isPrefixOf]
  have hdiff : startsWith (String.ofList (l.kind.sign :: l.text)) "diff " = false := by
    rw [startsWith_ofList]
    cases l.kind <;> simp [LineKind.sign, List.isPrefixOf]
  have hmarker : String.ofList (l.kind.sign :: l.text) ≠ noNewlineMarker := by
    intro h
    have hhead := congrArg (fun s : String => s.toList.head?) h
    cases hkind : l.kind <;> simp [hkind, LineKind.sign, noNewlineMarker] at hhead
  have hfile : startsWith (String.ofList (l.kind.sign :: l.text)) "--- " = false := by
    rw [← hopens, ← opensFile_line]
    rfl
  have hskip : ∀ t, collectHunks true t (String.ofList marker :: rest) = collectHunks true t rest := by
    intro t
    have hopen : startsWith noNewlineMarker "@@ " = false := by decide
    have hstop : (startsWith noNewlineMarker "--- " || startsWith noNewlineMarker "diff ") = false := by
      decide
    have hline : String.ofList marker = noNewlineMarker := by simp [marker]
    rw [hline, collectHunks, hopen, hstop]
    simp
  rw [HunkLine.render, List.map_cons, List.cons_append, collectHunks]
  simp only [hhunk, hdiff, hfile, hmarker, Bool.or_self, Bool.false_eq_true, if_false, or_false,
    addLine_line, reduceCtorEq]
  split
  · rfl
  · exact hskip _

lemma side_cons (absent : LineKind) (ls : List HunkLine) :
    side absent (l :: ls) = side absent [l] ++ side absent ls := by
  by_cases hkind : l.kind = absent <;> simp [side, hkind]

/-- The text collected so far with the sides of more lines. -/
def withSides (text : HunkText) (old new : List Char) : HunkText :=
  ⟨text.old ++ String.ofList old, text.new ++ String.ofList new⟩

lemma withSides_withSides (old new old' new' : List Char) :
    withSides (withSides text old new) old' new' = withSides text (old ++ old') (new ++ new') := by
  simp [withSides, String.append_assoc]

lemma collectHunks_lines (text : HunkText) {ls : List HunkLine} (hopens : ∀ l ∈ ls, l.opens = false) :
    collectHunks true text ((ls.flatMap HunkLine.render).map String.ofList ++ rest) =
      collectHunks true (withSides text (side .added (ls.map HunkLine.close))
        (side .removed (ls.map HunkLine.close))) rest := by
  induction ls generalizing text with
  | nil => simp [side, withSides]
  | cons l ls ih =>
      have ih := ih (withSides text (side .added [l.close]) (side .removed [l.close]))
        fun m hm => hopens m (List.mem_cons_of_mem _ hm)
      rw [List.flatMap_cons, List.map_append, List.append_assoc,
        collectHunks_line (hopens l List.mem_cons_self)]
      rw [withSides_withSides] at ih
      rw [List.map_cons, side_cons .added (ls.map HunkLine.close),
        side_cons .removed (ls.map HunkLine.close)]
      exact ih

/-- The hunks of a diff that opens no other file are collected to the end. -/
lemma collectHunks_hunks (text : HunkText) (hopens : ∀ h ∈ hs, ∀ l ∈ h.lines, l.opens = false) (inHunk : Bool) :
    collectHunks inHunk text ((hs.flatMap Hunk.render).map String.ofList) =
      (withSides text (readSide .added hs) (readSide .removed hs), []) := by
  induction hs generalizing text inHunk with
  | nil => simp [collectHunks, readSide, withSides]
  | cons h hs ih =>
      have ih := ih (withSides text (side .added (h.lines.map HunkLine.close))
        (side .removed (h.lines.map HunkLine.close)))
        (fun k hk => hopens k (List.mem_cons_of_mem _ hk)) true
      have hheader : startsWith (String.ofList ("@@ -".toList ++ h.header)) "@@ " = true := by
        simp [startsWith, List.isPrefixOf]
      rw [withSides_withSides] at ih
      rw [List.flatMap_cons, List.map_append, Hunk.render, List.map_cons, List.cons_append,
        collectHunks, if_pos hheader, collectHunks_lines _ (hopens h List.mem_cons_self), ih]
      rfl

end Hunks

section Single

variable {d : Diff} {gaps : List (List Char)} {tail : List Char} {f g : String}

lemma readHunks_line {hs : List Hunk} (hne : hs ≠ [])
    (hchanges : ∀ h ∈ hs, ∃ l ∈ h.lines, l.kind ≠ .context) :
    ∃ h ∈ readHunks hs, ∃ l, l ∈ h.lines := by
  cases hs using readHunks.fun_cases with
  | case1 => exact absurd rfl hne
  | case2 h =>
      obtain ⟨l, hl, hkind⟩ := hchanges h List.mem_cons_self
      obtain ⟨before, m, _, _, _, _, htrim⟩ := trimLines_split ⟨l, hl, not_blank_of_change hkind⟩
      exact ⟨_, List.mem_cons_self, m.trimEnd.read, by simp [Hunk.read, htrim]⟩
  | case3 h h' hs =>
      obtain ⟨l, hl, _⟩ := hchanges h List.mem_cons_self
      exact ⟨h.read, List.mem_cons_self, l.read, List.mem_map_of_mem hl⟩

lemma mem_side {absent : LineKind} {ls : List HunkLine} {l : HunkLine} (hl : l ∈ ls)
    (hkind : l.kind ≠ absent) : '\n' ∈ side absent (ls.map HunkLine.close) := by
  induction ls with
  | nil => simp at hl
  | cons m ls ih =>
      rw [List.map_cons, side_cons, List.mem_append]
      rcases List.mem_cons.mp hl with rfl | hl
      · left
        simp [side, HunkLine.close, hkind]
      · exact Or.inr (ih hl)

/-- A hunk that is read with a line has text on one side at least. -/
lemma Turns.readSide_ne (h : Turns d gaps tail f g) :
    ¬ (readSide .added (readHunks d.hunks) = [] ∧ readSide .removed (readHunks d.hunks) = []) := by
  obtain ⟨k, hk, l, hl⟩ := readHunks_line h.hunks_ne h.changes
  have hmem : ∀ absent, l.kind ≠ absent → readSide absent (readHunks d.hunks) ≠ [] := by
    intro absent hkind
    have hend := mem_side hl hkind
    exact List.ne_nil_of_mem (List.mem_flatMap.mpr ⟨k, hk, hend⟩)
  rintro ⟨hold, hnew⟩
  rcases eq_or_ne l.kind .added with hadded | hadded
  · exact hmem .removed (by simp [hadded]) hnew
  · exact hmem .added hadded hold

/-- The path that the parser takes from the headers. -/
def Diff.readPath (d : Diff) : String := headerFile d.oldHeader d.newHeader

/-- The second header gives the diff's path with nothing but white space around it: behind one of
the prefixes that the parser takes away, or alone where it begins with neither. -/
def Diff.Named (d : Diff) : Prop :=
  trim (String.ofList d.newName) = "a/" ++ d.path ∨
    trim (String.ofList d.newName) = "b/" ++ d.path ∨
      trim (String.ofList d.newName) = d.path ∧ startsWith d.path "a/" = false ∧
        startsWith d.path "b/" = false

lemma trim_dropCRs (l : List Char) : trim (String.ofList (dropCRs l)) = trim (String.ofList l) := by
  rw [dropCRs, trim_dropCR, trim_dropCR]

/-- Taking a prefix away leaves a text exactly if it stands before that text. -/
lemma unprefixed_iff {name path : String} :
    ((stripPrefix name "a/").or (stripPrefix name "b/")).getD name = path ↔
      name = "a/" ++ path ∨ name = "b/" ++ path ∨
        name = path ∧ startsWith path "a/" = false ∧ startsWith path "b/" = false := by
  have hother : ∀ q : String, startsWith ("b/" ++ q) "a/" = false := by
    intro q
    simp [startsWith, List.isPrefixOf]
  have hstrip : ∀ pre q : String, stripPrefix (pre ++ q) pre = some q := by
    intro pre q
    simp [stripPrefix, startsWith]
  cases ha : startsWith name "a/" with
  | true =>
      obtain ⟨q, rfl⟩ := startsWith_iff.mp ha
      have hne : ∀ q', "a/" ++ q ≠ "b/" ++ q' := by
        intro q' heq
        rw [heq, hother] at ha
        cases ha
      rw [hstrip, Option.some_or, Option.getD_some]
      constructor
      · rintro rfl
        exact Or.inl rfl
      · rintro (heq | heq | ⟨rfl, hno, -⟩)
        · simpa using heq
        · exact absurd heq (hne path)
        · rw [ha] at hno
          cases hno
  | false =>
      have hnone : stripPrefix name "a/" = none := by simp [stripPrefix, ha]
      rw [hnone, Option.none_or]
      cases hb : startsWith name "b/" with
      | true =>
          obtain ⟨q, rfl⟩ := startsWith_iff.mp hb
          rw [hstrip, Option.getD_some]
          constructor
          · rintro rfl
            exact Or.inr (Or.inl rfl)
          · rintro (heq | heq | ⟨rfl, -, hno⟩)
            · rw [heq, startsWith_iff.mpr ⟨path, rfl⟩] at ha
              cases ha
            · simpa using heq
            · rw [hb] at hno
              cases hno
      | false =>
          have hnone : stripPrefix name "b/" = none := by simp [stripPrefix, hb]
          rw [hnone, Option.getD_none]
          constructor
          · rintro rfl
            exact Or.inr (Or.inr ⟨rfl, ha, hb⟩)
          · rintro (rfl | rfl | ⟨rfl, -⟩)
            · rw [startsWith_iff.mpr ⟨path, rfl⟩] at ha
              cases ha
            · rw [startsWith_iff.mpr ⟨path, rfl⟩] at hb
              cases hb
            · rfl

lemma Turns.readPath_iff (h : Turns d gaps tail f g) : d.readPath = d.path ↔ d.Named := by
  have hminus : stripPrefix d.newHeader "--- " = none := by
    simp [Diff.newHeader, stripPrefix, startsWith, List.isPrefixOf]
  have hplus : stripPrefix d.newHeader "+++ " = some (String.ofList (dropCRs d.newName)) := by
    simp [Diff.newHeader, stripPrefix, startsWith, List.isPrefixOf]
  rw [Diff.readPath, EditParser.headerFile, extractDiffPath, hminus, hplus, Option.none_or]
  dsimp only
  rw [trim_dropCRs, if_neg h.keeps_file, Option.some_or, Option.getD_some]
  exact unprefixed_iff

lemma Turns.extended_closed (h : Turns d gaps tail f g) :
    ∀ line ∈ (d.extended.map dropCRs).map String.ofList, opensFile line = false := by
  intro line hline
  obtain ⟨l, hl, rfl⟩ := List.mem_map.mp hline
  obtain ⟨word, hword, rfl⟩ := List.mem_map.mp hl
  have hword := h.extended_word word hword
  cases word with
  | nil => simp at hword
  | cons c cs =>
      have hc : c.isAlpha = true := by simpa using hword
      have hcr : c ≠ '\r' := by
        rintro rfl
        simp at hc
      have hdash : '-' ≠ c := by
        rintro rfl
        simp at hc
      rw [opensFile, startsWith_ofList, dropCRs_cons hcr]
      simp [List.isPrefixOf, hdash]

lemma parseFiles_skipAll {before ls : List String} {fuel : ℕ}
    (hclosed : ∀ line ∈ before, opensFile line = false) :
    parseFiles (before.length + fuel) (before ++ ls) = parseFiles fuel ls := by
  induction before with
  | nil => simp
  | cons line before ih =>
      rw [List.length_cons, Nat.succ_add, List.cons_append,
        parseFiles_skip (hclosed line List.mem_cons_self)]
      exact ih fun l hl => hclosed l (List.mem_cons_of_mem _ hl)

lemma render_noGitHeader (hs : List Hunk) :
    ∀ line ∈ (hs.flatMap Hunk.render).map String.ofList, startsWith line "diff " = false := by
  intro line hline
  obtain ⟨l, hl, rfl⟩ := List.mem_map.mp hline
  obtain ⟨c, hc, hmem⟩ := render_head hl
  rw [startsWith_ofList]
  cases l with
  | nil => simp at hc
  | cons d ds =>
      obtain rfl : d = c := by simpa using hc
      have hd : 'd' ≠ d := by
        rintro rfl
        revert hmem
        decide
      simp [List.isPrefixOf, hd]

/-- The lines of the hunks as the parser sees them. -/
def Diff.hunkLines (d : Diff) : List String :=
  ((readHunks d.hunks).flatMap Hunk.render).map String.ofList

lemma Diff.readLines_eq (d : Diff) : d.readLines.map String.ofList =
    (d.extended.map dropCRs).map String.ofList ++
      d.oldHeader :: d.newHeader :: d.hunkLines := by
  simp [Diff.readLines, d.headers_read, Diff.oldHeader, Diff.newHeader, Diff.hunkLines]

lemma Diff.oldHeader_opens (d : Diff) : opensFile d.oldHeader = true := by
  simp [Diff.oldHeader, opensFile, startsWith, List.isPrefixOf]

lemma Diff.newHeader_startsWith (d : Diff) : startsWith d.newHeader "+++ " = true := by
  simp [Diff.newHeader, startsWith, List.isPrefixOf]

/-- A diff that opens no other file is read as one edit of its file. -/
theorem Turns.parseUnifiedDiff_single (h : Turns d gaps tail f g) (hno : ¬ d.Dashed) :
    parseUnifiedDiff d.content =
      .ok ⟨[⟨d.readPath, String.ofList d.searched, String.ofList d.replacement⟩], .unifiedDiff⟩ := by
  have hopens : ∀ k ∈ readHunks d.hunks, ∀ l ∈ k.lines, l.opens = false := by
    intro k hk l hl
    by_contra hyes
    exact hno ⟨k, hk, l, hl, by simpa using hyes⟩
  have hdiff : ∀ line ∈ d.hunkLines, startsWith line "diff " = false := render_noGitHeader _
  have hcollect : collectHunks false ⟨"", ""⟩ d.hunkLines =
      (withSides ⟨"", ""⟩ (readSide .added (readHunks d.hunks))
        (readSide .removed (readHunks d.hunks)), []) := collectHunks_hunks _ hopens false
  have hrest := collectHunks_rest hdiff false ⟨"", ""⟩
  have hempty := collectHunks_empty hdiff false ⟨"", ""⟩
  rw [hcollect] at hrest hempty
  have hheads : headsFile (d.newHeader :: d.hunkLines) = true := by
    have hne := h.readSide_ne
    have hhunk : hasHunkLine false (d.hunkLines.takeWhile fun l => !opensFile l) = true := by
      simpa [withSides, ← String.toList_inj, hne] using hempty
    rw [headsFile, hhunk, d.newHeader_startsWith]
    rfl
  have hfile := parseFiles_file (d.hunkLines.length + 1) d.oldHeader_opens hdiff hheads
  rw [← hrest, parseFiles] at hfile
  have hlen : (d.readLines.map String.ofList).length =
      ((d.extended.map dropCRs).map String.ofList).length + (d.hunkLines.length + 1 + 1) := by
    rw [d.readLines_eq]
    simp
  have hedit : fileEdit d.oldHeader d.newHeader d.hunkLines =
      ⟨d.readPath, String.ofList d.searched, String.ofList d.replacement⟩ := by
    rw [fileEdit, hcollect, ← Diff.readPath]
    simp [withSides, trimEndChar, Diff.searched, Diff.replacement, trimNewlines, List.rdropWhile]
  unfold parseUnifiedDiff
  simp only [h.lines_content, hlen]
  rw [d.readLines_eq, parseFiles_skipAll h.extended_closed, hfile, hedit]
  rfl

end Single

end Loker.UnifiedDiff
