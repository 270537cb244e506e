import Loker.ByteSlices
import Loker.PlanCommands
import Loker.TextLines
import Loker.TraceStream

/-! The code that an issue's text refers to, as it is put before the backends, and the texts that
are cut after a number of bytes or lines. -/

namespace Loker.IssueContext

open ByteSlices TextOps

section References

/-- What is known of characters beyond ASCII: the digits of a pattern, letters and digits, and
small letters. -/
structure CharTables where
  isDecimal : Char → Bool
  isAlphanumeric : Char → Bool
  lowercase : String → String

structure GitHubIssue where
  title : String
  body : Option String
  deriving DecidableEq, Repr

structure FileRef where
  path : String
  line : ℕ
  deriving DecidableEq, Repr

variable (t : CharTables)

def isPathChar (c : Char) : Bool := c.isAlphanum || c = '_' || c = '/' || c = '.' || c = '-'

def extensions : List String :=
  ["rs", "rb", "py", "js", "ts", "go", "java", "c", "cpp", "h", "hpp", "tsx", "jsx"]

/-- Something, a dot and an extension. -/
def isSourcePath (path : List Char) : Bool :=
  extensions.any fun ext => ('.' :: ext.toList).isSuffixOf path && ext.length + 1 < path.length

/-- `FILE_REF_RE` at a place: no character of a path is a colon, so a path goes up to the next
colon. -/
def fileRefAt (text : List Char) : Option (List Char × List Char) :=
  let path := text.takeWhile isPathChar
  match text.dropWhile isPathChar with
  | ':' :: rest =>
      let digits := rest.takeWhile t.isDecimal
      if isSourcePath path = true ∧ digits ≠ [] then some (path, digits) else none
  | _ => none

/-- The matches from the left; the number counts what is still to pass of the last one. -/
def capturesFrom : ℕ → List Char → List (List Char × List Char)
  | _, [] => []
  | skip + 1, _ :: cs => capturesFrom skip cs
  | 0, c :: cs =>
      match fileRefAt t (c :: cs) with
      | some (path, digits) => (path, digits) :: capturesFrom (path.length + digits.length) cs
      | none => capturesFrom 0 cs

/-- `str::parse::<usize>` of digits. -/
def parseUsize (digits : List Char) : Option ℕ := do
  let values ← digits.mapM digitValue
  let n := values.foldl (fun n d => 10 * n + d) 0
  if n < 2 ^ 64 then some n else none

/-- Neighbours that are the same are one; those of one path keep their order. -/
def extractFileReferences (text : String) : List FileRef :=
  let refs := (capturesFrom t 0 text.toList).map fun cap =>
    (⟨String.ofList cap.1, (parseUsize cap.2).getD 0⟩ : FileRef)
  (refs.insertionSort fun a b => a.path ≤ b.path).destutter (· ≠ ·)

end References

section Gathering

variable (t : CharTables)

/-- The lines of a slice with their numbers; nothing stands for the panic of a slice that begins
after its end, which is also where a sum past the machine's numbers comes to. -/
def shownLines (lines : List String) (line : ℕ) : Option (List (String × ℕ)) :=
  let start := line - 10
  let stop := min (line + 10) lines.length
  if start ≤ stop then some (((lines.take stop).drop start).zipIdx (start + 1)) else none

def padded (n : ℕ) : String := String.ofList (List.replicate (4 - n.repr.length) ' ') ++ n.repr

def numberedLine (line : ℕ) (x : String × ℕ) : String :=
  (if x.2 = line then ">>>" else "   ") ++ " " ++ padded x.2 ++ ": " ++ x.1 ++ "\n"

def blockText (ref : FileRef) (shown : List (String × ℕ)) : String :=
  "### " ++ ref.path ++
    (if 0 < ref.line then " (around line " ++ ref.line.repr ++ ")" else "") ++ "\n```\n" ++
    String.join (shown.map (numberedLine ref.line)) ++ "```\n\n"

def referenceText (ref : FileRef) (content : String) : Option String :=
  (shownLines (lines content) ref.line).map (blockText ref)

def stopwords : List String :=
  ["the", "a", "an", "is", "are", "was", "were", "be", "been", "being", "have", "has", "had", "do",
    "does", "did", "will", "would", "could", "should", "may", "might", "must", "shall", "can",
    "need", "dare", "ought", "used", "to", "of", "in", "for", "on", "with", "at", "by", "from",
    "as", "into", "through", "during", "before", "after", "above", "below", "between", "under",
    "again", "further", "then", "once", "here", "there", "when", "where", "why", "how", "all",
    "each", "few", "more", "most", "other", "some", "such", "no", "nor", "not", "only", "own",
    "same", "so", "than", "too", "very", "just", "and", "but", "if", "or", "because", "until",
    "while", "this", "that", "these", "those", "bug", "fix", "error", "issue", "problem",
    "broken"]

def extractKeywords (title : String) : List String :=
  let words := (title.toList.splitOnP fun c => !t.isAlphanumeric c && c ≠ '_').map String.ofList
  words.filter fun w => 3 < byteLen w.toList && t.lowercase w ∉ stopwords

def keywordText (grep : String → Option String) (keyword : String) : String :=
  match grep keyword with
  | none => ""
  | some found =>
      if found = "" then ""
      else "### Matches for '" ++ keyword ++ "':\n```\n" ++
        "\n".intercalate ((lines found).take 20) ++ "\n```\n\n"

/-- A file that cannot be read is passed over. -/
def referenceBlock (read : String → Option String) (ref : FileRef) : Option String :=
  match read ref.path with
  | none => some ""
  | some content => referenceText ref content

/-- `read` gives the texts of the files below the directory, `grep` what the search prints. -/
def gatherCodeContext (read grep : String → Option String) (issue : GitHubIssue) :
    Option String :=
  let refs := extractFileReferences t (issue.title ++ " " ++ issue.body.getD "")
  (refs.mapM (referenceBlock read)).map fun blocks =>
    if refs ≠ [] then "## Referenced files from issue:\n\n" ++ String.join blocks
    else
      let keywords := extractKeywords t issue.title
      if keywords ≠ [] then
        "## Potentially relevant code (from keyword search):\n\n" ++
          String.join ((keywords.take 3).map (keywordText grep))
      else ""

end Gathering

section Windows

variable {ls : List String} {line : ℕ} {ref : FileRef} {content : String}

/-- The existing lines within ten lines of one. -/
def nearLines (ls : List String) (line : ℕ) : List (String × ℕ) :=
  (ls.zipIdx 1).filter fun x => line ≤ x.2 + 10 && x.2 ≤ line + 10

lemma filter_zipIdx_le {α : Type} (l : List α) (k b : ℕ) :
    (l.zipIdx k).filter (fun x => x.2 ≤ b) = (l.zipIdx k).take (b + 1 - k) := by
  induction l generalizing k with
  | nil => simp
  | cons x l ih =>
    rw [List.zipIdx_cons, List.filter_cons]
    by_cases hk : k ≤ b
    · have hsub : b + 1 - k = b + 1 - (k + 1) + 1 := by omega
      rw [if_pos (decide_eq_true hk), ih, hsub, List.take_succ_cons]
    · have hnone : b + 1 - k = 0 := by omega
      have hrest : b + 1 - (k + 1) = 0 := by omega
      rw [if_neg (by simpa using hk), ih, hnone, hrest, List.take_zero, List.take_zero]

lemma filter_zipIdx_ge {α : Type} (l : List α) (k a : ℕ) :
    (l.zipIdx k).filter (fun x => a ≤ x.2) = (l.zipIdx k).drop (a - k) := by
  induction l generalizing k with
  | nil => simp
  | cons x l ih =>
    rw [List.zipIdx_cons, List.filter_cons]
    by_cases hk : a ≤ k
    · have hnone : a - k = 0 := by omega
      have hrest : a - (k + 1) = 0 := by omega
      rw [if_pos (decide_eq_true hk), ih, hnone, hrest, List.drop_zero, List.drop_zero]
    · have hsub : a - k = a - (k + 1) + 1 := by omega
      rw [if_neg (by simpa using hk), ih, hsub, List.drop_succ_cons]

lemma nearLines_eq (ls : List String) (line : ℕ) :
    nearLines ls line = ((ls.zipIdx 1).take (line + 10)).drop (line - 11) := by
  have hsplit : nearLines ls line =
      ((ls.zipIdx 1).filter fun x => x.2 ≤ line + 10).filter fun x => line - 10 ≤ x.2 := by
    unfold nearLines
    rw [List.filter_filter]
    apply List.filter_congr
    intro x _
    have hiff : (line ≤ x.2 + 10) = (line - 10 ≤ x.2) := by
      apply propext
      omega
    simp only [hiff]
  have htake : (ls.zipIdx 1).take (line + 10 + 1 - 1) =
      (ls.take (line + 10)).zipIdx 1 := by
    apply List.ext_getElem?
    intro i
    simp only [List.getElem?_take, List.getElem?_zipIdx, Nat.add_sub_cancel]
    split <;> rfl
  rw [hsplit, filter_zipIdx_le, htake, filter_zipIdx_ge, ← htake]
  have hsub : line - 10 - 1 = line - 11 := by omega
  rw [hsub, Nat.add_sub_cancel]

lemma shownLines_eq (h : line ≤ ls.length + 10) :
    shownLines ls line = some (((ls.zipIdx 1).take (line + 10)).drop (line - 10)) := by
  unfold shownLines
  have hle : line - 10 ≤ min (line + 10) ls.length := by omega
  simp only [hle, if_true, Option.some.injEq]
  apply List.ext_getElem?
  intro i
  have hnumber : line - 10 + 1 + i = 1 + (line - 10 + i) := by omega
  simp only [List.getElem?_zipIdx, List.getElem?_drop, List.getElem?_take, hnumber]
  by_cases hi : line - 10 + i < line + 10
  · by_cases hlen : line - 10 + i < ls.length
    · have hmin : line - 10 + i < min (line + 10) ls.length := Nat.lt_min.mpr ⟨hi, hlen⟩
      rw [if_pos hmin, if_pos hi]
    · have hmin : ¬ line - 10 + i < min (line + 10) ls.length := fun h =>
        hlen (Nat.lt_min.mp h).2
      rw [if_neg hmin, if_pos hi, List.getElem?_eq_none (Nat.le_of_not_lt hlen)]
  · have hmin : ¬ line - 10 + i < min (line + 10) ls.length := fun h =>
      hi (Nat.lt_min.mp h).1
    rw [if_neg hmin, if_neg hi]
    rfl

lemma shownLines_eq_none_iff : shownLines ls line = none ↔ ls.length + 10 < line := by
  constructor
  · intro h
    by_contra hle
    rw [shownLines_eq (by omega)] at h
    cases h
  · intro h
    unfold shownLines
    exact if_neg (by omega)

/-- Beyond the tenth line the first of the existing lines is not shown. -/
lemma nearLines_eq_cons (hline : 10 < line) (h : line ≤ ls.length + 10) :
    ∃ x shown, shownLines ls line = some shown ∧ nearLines ls line = x :: shown := by
  have hlt : line - 11 < ((ls.zipIdx 1).take (line + 10)).length := by
    rw [List.length_take, List.length_zipIdx]
    omega
  have hnext : line - 10 = line - 11 + 1 := by omega
  have hcons := List.drop_eq_getElem_cons hlt
  rw [← nearLines_eq, ← hnext] at hcons
  exact ⟨_, _, shownLines_eq h, hcons⟩

lemma blockText_cons_ne (x : String × ℕ) (shown : List (String × ℕ)) :
    blockText ref shown ≠ blockText ref (x :: shown) := by
  intro h
  have hlen := congrArg String.length h
  have hpos : 0 < (numberedLine ref.line x).length := by
    unfold numberedLine
    simp only [String.length_append]
    have hone : ("\n" : String).length = 1 := rfl
    omega
  unfold blockText at hlen
  simp only [List.map_cons, String.join_cons, String.length_append] at hlen
  omega

/-- A reference's block has exactly the existing lines within ten lines of it when it refers to one
of the first ten lines, or to none. -/
lemma referenceText_iff : referenceText ref content =
    some (blockText ref (nearLines (lines content) ref.line)) ↔ ref.line ≤ 10 := by
  unfold referenceText
  constructor
  · intro h
    by_contra hline
    cases hshown : shownLines (lines content) ref.line with
    | none =>
      rw [hshown] at h
      cases h
    | some shown =>
      have hle : ref.line ≤ (lines content).length + 10 := by
        by_contra hgt
        rw [shownLines_eq_none_iff.mpr (by omega)] at hshown
        cases hshown
      obtain ⟨x, shown', hshown', hnear⟩ := nearLines_eq_cons (by omega) hle
      rw [hshown', hnear] at h
      exact blockText_cons_ne x shown' (Option.some.inj h)
  · intro hline
    have hzero : ref.line - 10 = ref.line - 11 := by omega
    rw [shownLines_eq (by omega), nearLines_eq, hzero]
    rfl

variable {t : CharTables} {read grep : String → Option String} {issue : GitHubIssue}

lemma mapM_ne_none_iff {α β : Type} {f : α → Option β} {l : List α} :
    l.mapM f ≠ none ↔ ∀ x ∈ l, f x ≠ none := by
  induction l with
  | nil => simp
  | cons x l ih =>
    rw [List.mapM_cons, List.forall_mem_cons, ← ih]
    cases f x with
    | none => simp
    | some y => cases l.mapM f <;> simp

lemma referenceBlock_ne_none_iff : referenceBlock read ref ≠ none ↔
    ∀ content, read ref.path = some content → ref.line ≤ (lines content).length + 10 := by
  unfold referenceBlock referenceText
  cases read ref.path with
  | none => simp
  | some content =>
    simp only [Option.some.injEq, forall_eq', ne_eq, Option.map_eq_none_iff,
      shownLines_eq_none_iff, not_lt]

lemma gatherCodeContext_ne_none_iff : gatherCodeContext t read grep issue ≠ none ↔
    ∀ ref ∈ extractFileReferences t (issue.title ++ " " ++ issue.body.getD ""),
      ∀ content, read ref.path = some content → ref.line ≤ (lines content).length + 10 := by
  unfold gatherCodeContext
  rw [ne_eq, Option.map_eq_none_iff, ← ne_eq, mapM_ne_none_iff]
  simp only [referenceBlock_ne_none_iff]

end Windows

section Cuts

variable {cs : List Char} {n : ℕ}

/-- The first bytes of the text end between two characters, or are all of it. -/
def CutsBetween (cs : List Char) (n : ℕ) : Prop := byteLen cs ≤ n ∨ isCharBoundary cs n = true

instance : Decidable (CutsBetween cs n) := by
  unfold CutsBetween
  infer_instance

lemma bytePrefix_ne_none_iff : PlanCommands.bytePrefix n cs ≠ none ↔ CutsBetween cs n := by
  unfold CutsBetween isCharBoundary
  induction cs generalizing n with
  | nil => simp [PlanCommands.bytePrefix]
  | cons c cs ih =>
    rw [PlanCommands.bytePrefix]
    have hpos := c.utf8Size_pos
    cases n with
    | zero => simp [sliceTo]
    | succ n =>
      rw [if_neg (Nat.succ_ne_zero n), sliceTo, byteLen_cons]
      by_cases hfits : c.utf8Size ≤ n + 1
      · rw [if_pos hfits, if_pos hfits, Option.isSome_map, ne_eq, Option.map_eq_none_iff, ← ne_eq,
          ih]
        constructor
        · rintro (hle | hcut)
          · exact .inl (by omega)
          · exact .inr hcut
        · rintro (hle | hcut)
          · exact .inl (by omega)
          · exact .inr hcut
      · rw [if_neg hfits, if_neg hfits]
        constructor
        · intro h
          exact absurd rfl h
        · rintro (hle | hcut)
          · exact absurd hle (by omega)
          · cases hcut

/-- The longest beginning that fits has all the bytes exactly when they end between characters. -/
lemma byteLen_truncateFrom_iff : byteLen (truncateFrom n cs) = n ↔ isCharBoundary cs n = true := by
  unfold isCharBoundary
  induction cs generalizing n with
  | nil =>
    cases n with
    | zero => exact ⟨fun _ => rfl, fun _ => rfl⟩
    | succ n =>
      constructor
      · nofun
      · nofun
  | cons c cs ih =>
    have hpos := c.utf8Size_pos
    rw [truncateFrom]
    cases n with
    | zero =>
      rw [if_neg (by omega)]
      exact ⟨fun _ => rfl, fun _ => rfl⟩
    | succ n =>
      rw [sliceTo]
      by_cases hfits : c.utf8Size ≤ n + 1
      · rw [if_pos hfits, if_pos hfits, Option.isSome_map, ← ih, byteLen_cons]
        omega
      · rw [if_neg hfits, if_neg hfits]
        constructor
        · nofun
        · nofun

lemma shortened_ne_none_iff {s : String} :
    TraceStream.shortened s ≠ none ↔ CutsBetween s.toList 120 := by
  unfold TraceStream.shortened CutsBetween
  change (if 120 < byteLen s.toList then
    if byteLen (truncateUtf8 s 120).toList = 120 then some (truncateUtf8 s 120 ++ "…") else none
    else some s) ≠ none ↔ _
  rw [truncateUtf8, String.toList_ofList]
  simp only [byteLen_truncateFrom_iff]
  by_cases hlong : 120 < byteLen s.toList
  · rw [if_pos hlong]
    by_cases hcut : isCharBoundary s.toList 120 = true
    · rw [if_pos hcut]
      exact ⟨fun _ => .inr hcut, fun _ => nofun⟩
    · rw [if_neg hcut]
      constructor
      · intro h
        exact absurd rfl h
      · rintro (hle | h)
        · omega
        · exact absurd h hcut
  · rw [if_neg hlong]
    exact ⟨fun _ => .inl (by omega), fun _ => nofun⟩

end Cuts

section Fenced

open PlanCommands TextLines

variable {opening : String} {payload : List String} {output : String}

/-- A line, a payload and a closing fence. -/
def fenced (opening : String) (payload : List String) : String :=
  "\n".intercalate (opening :: payload ++ ["```"])

def withoutReturn (line : String) : String := String.ofList (dropCR line.toList)

/-- The first bytes look like talk about code. -/
def talks (code : String) : Bool :=
  match bytePrefix 150 code.toList with
  | none => false
  | some start => badPatterns.any fun pattern =>
      contains (String.ofList (start.flatMap lowercase)) (toAsciiLowercase pattern)

lemma toList_intercalate_lines (ls : List String) (last : String) :
    ("\n".intercalate (ls ++ [last])).toList =
      unlines (ls.map String.toList) ++ last.toList := by
  induction ls with
  | nil => rfl
  | cons l ls ih =>
    have hne : ls ++ [last] ≠ [] := List.append_ne_nil_of_right_ne_nil ls (List.cons_ne_nil _ _)
    rw [List.cons_append, String.intercalate_cons_of_ne_nil hne, String.toList_append,
      String.toList_append, ih, List.map_cons, unlines_cons]
    simp

lemma lines_fenced (hopening : '\n' ∉ opening.toList)
    (hpayload : ∀ l ∈ payload, '\n' ∉ l.toList) :
    lines (fenced opening payload) =
      withoutReturn opening :: payload.map withoutReturn ++ ["```"] := by
  have hplain : Plain ((opening :: payload).map String.toList) := by
    intro l hl
    obtain ⟨line, hline, rfl⟩ := List.mem_map.mp hl
    rcases List.mem_cons.mp hline with rfl | hmem
    · exact hopening
    · exact hpayload line hmem
  have hclosing : '\n' ∉ ("```" : String).toList := by decide
  have hlist : (replaceAll (fenced opening payload) "\r\n" "\n").toList =
      unlines (((opening :: payload).map String.toList).map dropCR) ++ ("```" : String).toList := by
    unfold replaceAll fenced
    rw [String.toList_ofList, toList_intercalate_lines]
    exact normalize_unlines hplain hclosing
  unfold lines
  rw [hlist, splitLines_unlines hplain.map_dropCR hclosing (by decide), List.map_append,
    List.map_map, List.map_map]
  rfl

lemma trim_fenced (hstart : startsWith opening "```" = true) :
    trim (fenced opening payload) = fenced opening payload := by
  obtain ⟨rest, rfl⟩ := startsWith_iff.mp hstart
  have hlist := toList_intercalate_lines (("```" ++ rest) :: payload) "```"
  rw [← String.toList_inj, toList_trim]
  unfold fenced
  rw [hlist, List.map_cons, unlines_cons, String.toList_append]
  have hfront : ∀ u : List Char,
      (("```" : String).toList ++ u).dropWhile isWhiteSpace = ("```" : String).toList ++ u := by
    intro u
    exact List.dropWhile_cons_of_neg (by decide)
  rw [List.append_assoc, List.append_assoc, hfront, ← List.append_assoc, ← List.append_assoc]
  unfold trimEndChars
  rw [rdropWhile_append ⟨'`', by decide, by decide⟩]
  rfl

/-- What is left of a text without the fences around it. -/
def unfenced (code : String) : String :=
  if startsWith code "```" = true then
    let ls := lines code
    if 2 ≤ ls.length then
      let stop := if ls.getLast?.map trim = some "```" then ls.length - 1 else ls.length
      "\n".intercalate ((ls.take stop).drop 1)
    else code
  else code

lemma cleanCodeOutput_of_some {start : List Char}
    (h : bytePrefix 150 (trim output).toList = some start) :
    cleanCodeOutput output =
      if talks (trim output) = true then .rejected else .code (unfenced (trim output)) := by
  have htalks : talks (trim output) = badPatterns.any fun pattern =>
      contains (String.ofList (start.flatMap lowercase)) (toAsciiLowercase pattern) := by
    rw [talks, h]
  rw [htalks, cleanCodeOutput, h]
  dsimp only
  generalize (badPatterns.any fun pattern =>
    contains (String.ofList (start.flatMap lowercase)) (toAsciiLowercase pattern)) = talk
  cases talk with
  | true => rw [if_pos rfl, if_pos rfl]
  | false =>
    unfold unfenced
    rw [if_neg Bool.false_ne_true, if_neg Bool.false_ne_true]
    by_cases hfence : startsWith (trim output) "```" = true
    · rw [if_pos hfence, if_pos hfence]
      dsimp only
      split <;> rfl
    · rw [if_neg hfence, if_neg hfence]

lemma cleanCodeOutput_of_none (h : bytePrefix 150 (trim output).toList = none) :
    cleanCodeOutput output = .panicked := by
  rw [cleanCodeOutput, h]

lemma cleanCodeOutput_ne_panicked_iff :
    cleanCodeOutput output ≠ .panicked ↔ CutsBetween (trim output).toList 150 := by
  rw [← bytePrefix_ne_none_iff]
  cases hcut : bytePrefix 150 (trim output).toList with
  | none =>
    rw [cleanCodeOutput_of_none hcut]
    exact ⟨fun h => absurd rfl h, fun h => absurd rfl h⟩
  | some start =>
    rw [cleanCodeOutput_of_some hcut]
    constructor
    · intro _
      nofun
    · intro _
      split <;> nofun

lemma unfenced_fenced (hstart : startsWith opening "```" = true)
    (hopening : '\n' ∉ opening.toList) (hpayload : ∀ l ∈ payload, '\n' ∉ l.toList) :
    unfenced (fenced opening payload) = "\n".intercalate (payload.map withoutReturn) := by
  have hfence : startsWith (fenced opening payload) "```" = true := by
    obtain ⟨rest, rfl⟩ := startsWith_iff.mp hstart
    apply startsWith_iff.mpr
    have hne : payload ++ ["```"] ≠ [] :=
      List.append_ne_nil_of_right_ne_nil payload (List.cons_ne_nil _ _)
    refine ⟨rest ++ "\n" ++ "\n".intercalate (payload ++ ["```"]), ?_⟩
    unfold fenced
    rw [List.cons_append, String.intercalate_cons_of_ne_nil hne, String.append_assoc,
      String.append_assoc, String.append_assoc]
  have hlines := lines_fenced hopening hpayload
  have hlength : (lines (fenced opening payload)).length = payload.length + 2 := by
    rw [hlines]
    simp
  have hlast : (lines (fenced opening payload)).getLast?.map trim = some "```" := by
    have htrim : trim "```" = "```" := by decide
    rw [hlines, List.getLast?_concat, Option.map_some, htrim]
  unfold unfenced
  simp only [if_pos hfence, hlength, if_pos hlast, Nat.le_add_left, if_true]
  have htake : (lines (fenced opening payload)).take (payload.length + 2 - 1) =
      withoutReturn opening :: payload.map withoutReturn := by
    rw [hlines]
    apply List.take_left'
    simp
  rw [htake]
  rfl

/-- Without the fences the payload's lines are left, unless the text is taken for talk. -/
lemma cleanCodeOutput_fenced_iff (hstart : startsWith opening "```" = true)
    (hopening : '\n' ∉ opening.toList) (hpayload : ∀ l ∈ payload, '\n' ∉ l.toList) :
    cleanCodeOutput (fenced opening payload) =
        .code ("\n".intercalate (payload.map withoutReturn)) ↔
      CutsBetween (fenced opening payload).toList 150 ∧ talks (fenced opening payload) = false := by
  rw [← bytePrefix_ne_none_iff]
  have htrim : trim (fenced opening payload) = fenced opening payload := trim_fenced hstart
  cases hcut : bytePrefix 150 (fenced opening payload).toList with
  | none =>
    rw [← htrim] at hcut
    rw [cleanCodeOutput_of_none hcut]
    constructor
    · nofun
    · rintro ⟨hne, _⟩
      exact absurd rfl hne
  | some start =>
    rw [← htrim] at hcut
    rw [cleanCodeOutput_of_some hcut, htrim, unfenced_fenced hstart hopening hpayload]
    cases talks (fenced opening payload) with
    | true =>
      constructor
      · nofun
      · rintro ⟨_, htalks⟩
        cases htalks
    | false => exact ⟨fun _ => ⟨nofun, rfl⟩, fun _ => rfl⟩

end Fenced

section Traces

open TraceStream

variable {J : Type} [TraceJson J] {line : ByteLines.Bytes}

lemma parseTraceLine_ne_none_iff : parseTraceLine J line ≠ none ↔
    ∀ json : J, TraceJson.fromStr line = some json →
      getOr json "summary" "message" = none → CutsBetween (TraceJson.toText json).toList 120 := by
  rw [parseTraceLine_eq]
  cases hjson : (TraceJson.fromStr line : Option J) with
  | none =>
    constructor
    · intro _ json h
      cases h
    · intro _
      nofun
  | some json =>
    simp only [Option.some.injEq, forall_eq', ne_eq, Option.map_eq_none_iff]
    unfold display
    cases getOr json "summary" "message" with
    | some value =>
      constructor
      · intro _ h
        cases h
      · intro _
        nofun
    | none =>
      simp only [Option.map_eq_none_iff, forall_const]
      exact shortened_ne_none_iff

/-- No text is cut inside a character exactly where the cut is between two or there is none; the
fences come off exactly a payload that is cut well and is not taken for talk; a reference may go ten
lines past its file, and its block is complete for the first ten lines only. -/
theorem slices_iff (J : Type) [TraceJson J] (t : CharTables) :
    (∀ output, PlanCommands.cleanCodeOutput output ≠ .panicked ↔
      CutsBetween (trim output).toList 150) ∧
    (∀ opening payload, startsWith opening "```" = true → '\n' ∉ opening.toList →
      (∀ l ∈ payload, '\n' ∉ l.toList) →
      (PlanCommands.cleanCodeOutput (fenced opening payload) =
          .code ("\n".intercalate (payload.map withoutReturn)) ↔
        CutsBetween (fenced opening payload).toList 150 ∧
          talks (fenced opening payload) = false)) ∧
    (∀ line, parseTraceLine J line ≠ none ↔
      ∀ json : J, TraceJson.fromStr line = some json → getOr json "summary" "message" = none →
        CutsBetween (TraceJson.toText json).toList 120) ∧
    (∀ read grep issue, gatherCodeContext t read grep issue ≠ none ↔
      ∀ ref ∈ extractFileReferences t (issue.title ++ " " ++ issue.body.getD ""),
        ∀ content, read ref.path = some content → ref.line ≤ (lines content).length + 10) ∧
    (∀ ref content, referenceText ref content =
        some (blockText ref (nearLines (lines content) ref.line)) ↔ ref.line ≤ 10) := by
  refine ⟨fun _ => cleanCodeOutput_ne_panicked_iff, ?_, fun _ => parseTraceLine_ne_none_iff,
    fun _ _ _ => gatherCodeContext_ne_none_iff, fun _ _ => referenceText_iff⟩
  intro opening payload hstart hopening hpayload
  exact cleanCodeOutput_fenced_iff hstart hopening hpayload

def asciiTables : CharTables := ⟨Char.isDigit, Char.isAlphanum, String.toLower⟩

theorem slices_iff_rust :
    PlanCommands.cleanCodeOutput (fenced "```rust" ["fn main() {}"]) =
        .code ("\n".intercalate (["fn main() {}"].map withoutReturn)) ↔
      CutsBetween (fenced "```rust" ["fn main() {}"]).toList 150 ∧
        talks (fenced "```rust" ["fn main() {}"]) = false :=
  (slices_iff ℕ asciiTables).2.1 "```rust" ["fn main() {}"] (by decide) (by decide) (by decide)

/-- A JSON text of 122 bytes, with a character of two bytes at the places 119 and 120. -/
def longText : String := String.ofList ('"' :: List.replicate 118 'a' ++ ['é', '"'])

def longLine : ByteLines.Bytes := 34 :: List.replicate 118 97 ++ [0xC3, 0xA9, 34]

/-- The value of one line, which is a text. -/
instance : TraceJson Unit where
  fromStr text := if (text.reverse.dropWhile (· = 13)).reverse = longLine then some () else none
  get _ _ := none
  asStr _ := none
  toText _ := longText
  fromStr_blank text h := by
    refine if_neg ?_
    intro hline
    have hsuffix := (List.dropWhile_suffix (l := text.reverse) (· = 13)).reverse
    rw [List.reverse_reverse, hline] at hsuffix
    obtain ⟨rest, rfl⟩ := hsuffix
    cases h
  fromStr_return text := by simp

/-- A character across each of the two cuts, a reference past the end of its file, and a block
without the first of its lines. -/
theorem slices_not_safe :
    PlanCommands.cleanCodeOutput (String.ofList (List.replicate 149 'a' ++ ['é'])) = .panicked ∧
    parseTraceLine Unit longLine = none ∧
    gatherCodeContext asciiTables (fun _ => some "fn main() {}\n") (fun _ => none)
      ⟨"panic at a.rs:12", none⟩ = none ∧
    referenceText ⟨"a.rs", 11⟩ "fn main() {}\n" ≠
      some (blockText ⟨"a.rs", 11⟩ (nearLines (lines "fn main() {}\n") 11)) := by
  refine ⟨by decide +kernel, by decide +kernel, by decide +kernel, ?_⟩
  intro h
  exact absurd (referenceText_iff.mp h) (by decide)

end Traces

end Loker.IssueContext
