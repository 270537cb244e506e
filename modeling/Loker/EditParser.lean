import Loker.EditFiles

/-! The parser that reads a backend's answer as edits: unified diffs, JSON pairs or a whole
file. -/

namespace Loker.EditParser

open TextOps EditFiles

def maxInputSize : ℕ := 1024 * 1024

inductive EditParseError where
  | noContent
  | inputTooLarge
  | invalidDiff (reason : String)
  | invalidJson (reason : String)
  | invalidFormat (reason : String)
  | ambiguousFormat (reason : String)
  deriving DecidableEq, Repr

def EditParseError.toString : EditParseError → String
  | .noContent => "no content to parse"
  | .inputTooLarge => "input exceeds maximum size of " ++ maxInputSize.repr ++ " bytes"
  | .invalidDiff reason => "invalid unified diff: " ++ reason
  | .invalidJson reason => "invalid JSON edits: " ++ reason
  | .invalidFormat reason => "invalid format: " ++ reason
  | .ambiguousFormat reason => "ambiguous format: " ++ reason

section CodeBlock

/-- The text before the closing fence, which stands at the beginning of a line. -/
def findClosingFence (text : String) : Option String :=
  if contains text "\n```" then some (beforeFirst text "\n```")
  else if startsWith text "```" then some ""
  else none

/-- The language on the opening fence's line, and what comes after that line. -/
def splitLangHint (afterBackticks : String) : Option String × String :=
  match splitAtFirst afterBackticks "\n" with
  | some (hint, rest) => (if trim hint = "" then none else some (trim hint), rest)
  | none => (none, afterBackticks)

/-- The content of the first code block with its language, or the input as it is. -/
def extractCodeBlock (input : String) : String × Option String :=
  match splitAtFirst input "```" with
  | none => (input, none)
  | some (_, afterBackticks) =>
      let block := splitLangHint afterBackticks
      match findClosingFence block.2 with
      | some content => (content, block.1)
      | none => (input, none)

end CodeBlock

section Detect

-- No character outside ASCII has one of the letters of these words as its lower case.
def hintedFormat (hint : String) : Option EditFormat :=
  let hintLower := toAsciiLowercase hint
  if hintLower = "diff" ∨ hintLower = "patch" then some .unifiedDiff
  else if hintLower = "json" then some .jsonOldNew
  else none

def detectFormat (content : String) (langHint : Option String) : EditFormat :=
  match langHint.bind hintedFormat with
  | some format => format
  | none =>
      if (contains content "\n--- " || startsWith content "--- ") &&
          (contains content "\n+++ " || contains content "\n@@ ") then .unifiedDiff
      else if contains content "\n@@ -" || startsWith content "@@ -" then .unifiedDiff
      else
        let firstChar := content.toList.head?.getD ' '
        if firstChar = '{' ∨ firstChar = '[' then .jsonOldNew else .fullFile

end Detect

section Json

-- The reader of JSON texts: the edits of an output object, where they may be missing, and the
-- edits of a bare array.
variable (readWrapper readEdits : String → Option (List FileEdit))

def normalizeEdits (edits : List FileEdit) : List FileEdit :=
  edits.map fun e => { e with old := trimEndChar e.old '\n', new := trimEndChar e.new '\n' }

def tryParse (c : String) : Option ParsedEdits :=
  match (readWrapper c).filter (· ≠ []) with
  | some edits => some ⟨normalizeEdits edits, .jsonOldNew⟩
  | none => ((readEdits c).filter (· ≠ [])).map fun edits => ⟨normalizeEdits edits, .jsonOldNew⟩

/-- A control character inside a string, escaped as JSON wants it. -/
def escapeControl (c : Char) : List Char :=
  if c = '\n' then ['\\', 'n']
  else if c = '\t' then ['\\', 't']
  else if c = '\r' then ['\\', 'r']
  else if c.toNat < 32 ∨ (127 ≤ c.toNat ∧ c.toNat < 160) then
    let digits := Nat.toDigits 16 c.toNat
    ['\\', 'u'] ++ List.replicate (4 - digits.length) '0' ++ digits
  else [c]

/-- The scan with its two flags: inside a string, and after a backslash there. -/
def sanitizeFrom : Bool → Bool → List Char → List Char
  | _, _, [] => []
  | false, _, c :: cs => c :: sanitizeFrom (c = '"') false cs
  | true, true, c :: cs => c :: sanitizeFrom true false cs
  | true, false, c :: cs =>
      if c = '\\' then c :: sanitizeFrom true true cs
      else if c = '"' then c :: sanitizeFrom false false cs
      else escapeControl c ++ sanitizeFrom true false cs

def sanitizeJsonStrings (input : String) : String :=
  String.ofList (sanitizeFrom false false input.toList)

def parseJsonEdits (content : String) : Except EditParseError ParsedEdits :=
  match tryParse readWrapper readEdits content with
  | some result => .ok result
  | none =>
      match tryParse readWrapper readEdits (sanitizeJsonStrings content) with
      | some result => .ok result
      | none => .error (.invalidJson "could not parse as AgenticOutput or bare FileEdit array")

end Json

section Diff

def noNewlineMarker : String := "\\ No newline at end of file"

/-- The path of a header line, or `none` for the null device. -/
def extractDiffPath (line : String) : Option String :=
  match (stripPrefix line "--- ").or (stripPrefix line "+++ ") with
  | none => none
  | some path =>
      let path := trim path
      if path = "/dev/null" then none
      else some (((stripPrefix path "a/").or (stripPrefix path "b/")).getD path)

/-- The old and the new text of a file's hunks as far as they are collected. -/
structure HunkText where
  old : String
  new : String
  deriving DecidableEq, Repr

/-- A line inside a hunk; one without a sign counts as context. -/
def HunkText.addLine (text : HunkText) (line : String) : HunkText :=
  match stripPrefix line "-", stripPrefix line "+", stripPrefix line " " with
  | some stripped, _, _ => { text with old := text.old ++ stripped ++ "\n" }
  | none, some stripped, _ => { text with new := text.new ++ stripped ++ "\n" }
  | none, none, some stripped =>
      ⟨text.old ++ stripped ++ "\n", text.new ++ stripped ++ "\n"⟩
  | none, none, none => ⟨text.old ++ line ++ "\n", text.new ++ line ++ "\n"⟩

/-- Collects the hunks of one file up to the line that ends them. The flag says that a hunk's
header was read; lines before it are skipped. -/
def collectHunks : Bool → HunkText → List String → HunkText × List String
  | _, text, [] => (text, [])
  | inHunk, text, line :: rest =>
      if startsWith line "@@ " then collectHunks true text rest
      else if startsWith line "--- " || startsWith line "diff " then (text, line :: rest)
      else if inHunk = false ∨ line = noNewlineMarker then collectHunks inHunk text rest
      else collectHunks true (text.addLine line) rest

/-- The path a file's two header lines give. -/
def headerFile (old new : String) : String :=
  ((extractDiffPath new).or (extractDiffPath old)).getD "unknown"

/-- The files of a diff one after the other; every pass of the loop takes a line at least, so
as much fuel as there are lines is enough. -/
def parseFiles : ℕ → List String → Except EditParseError (List FileEdit)
  | 0, _ => .ok []
  | _ + 1, [] => .ok []
  | fuel + 1, line :: rest =>
      if startsWith line "--- " then
        match rest with
        | [] => .error (.invalidDiff "expected +++ header after ---")
        | plus :: rest =>
            if startsWith plus "+++ " then
              let filePath := headerFile line plus
              let collected := collectHunks false ⟨"", ""⟩ rest
              let text := collected.1
              if text.old = "" ∧ text.new = "" then
                .error (.invalidDiff ("no hunks found for file: " ++ filePath))
              else
                match parseFiles fuel collected.2 with
                | .error e => .error e
                | .ok edits =>
                    .ok (⟨filePath, trimEndChar text.old '\n',
                      trimEndChar text.new '\n'⟩ :: edits)
            else .error (.invalidDiff "expected +++ header after ---")
      else parseFiles fuel rest

def parseUnifiedDiff (content : String) : Except EditParseError ParsedEdits :=
  let lines := lines content
  match parseFiles lines.length lines with
  | .error e => .error e
  | .ok edits =>
      if edits = [] then .error (.invalidDiff "no file headers found in diff")
      else .ok ⟨edits, .unifiedDiff⟩

end Diff

section FullFile

/-- The path a full file's first line gives. -/
def headerPath (line : String) : Option String :=
  match (((stripPrefix line "File: ").or (stripPrefix line "File:")).or
      (stripPrefix line "file: ")).or (stripPrefix line "file:") with
  | some path => some (trim path)
  | none =>
      (stripPrefix line "--- ").map fun path => (stripPrefix (trim path) "a/").getD (trim path)

def parseFullFile (content : String) : Except EditParseError ParsedEdits :=
  match lines content with
  | [] => .error .noContent
  | first :: rest =>
      match headerPath first with
      | none => .error (.invalidFormat
          "full file content requires a 'File: path' or '--- a/path' header on the first line")
      | some filePath =>
          if filePath = "" then .error (.invalidFormat "file path is empty")
          else
            let fileContent := trimEndChar ("\n".intercalate rest) '\n'
            .ok ⟨[⟨filePath, "", fileContent⟩], .fullFile⟩

end FullFile

section Parse

variable (readWrapper readEdits : String → Option (List FileEdit))

def parse (input : String) : Except EditParseError ParsedEdits :=
  if input.utf8ByteSize > maxInputSize then .error .inputTooLarge
  else
    let trimmed := trim (replaceAll input "\r\n" "\n")
    if trimmed = "" then .error .noContent
    else
      let (content, langHint) := extractCodeBlock trimmed
      let content := trim content
      if content = "" then .error .noContent
      else
        match detectFormat content langHint with
        | .unifiedDiff => parseUnifiedDiff content
        | .jsonOldNew => parseJsonEdits readWrapper readEdits content
        | .fullFile => parseFullFile content

end Parse

end Loker.EditParser
