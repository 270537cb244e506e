import Loker.LexicalPaths
import Loker.Programs
import Loker.SpecBlocks

/-! The commands that write a plan and that implement it: what they ask of the file system and of
the backends, in the order in which they ask it. -/

namespace Loker.PlanCommands

open FileTree LexicalPaths Programs SpecBlocks SpecFiles TextOps TomlText

section Operations

/-- What a question to the backends is about. -/
inductive Subject where
  | plan
  | roadmaps
  | consensus
  | specs
  | subtasks (name : String)

/-- The operations that are over when they have worked. -/
inductive Effect where
  | getBackends
  | runQuery (subject : Subject)
  | read (path : RawPath)
  | createDirAll (path : RawPath)
  | write (path : RawPath) (text : String)
  | updateSpecStatus (path : RawPath) (status : SubtaskStatus) (error : String)
  | runVerification
  | commitFile (file message : String)

/-- What the backends come to, with their retries and the synthesis of several answers. -/
inductive Generation where
  | aborted (error : String)
  | failed (summary : String)
  | generated (output : String)

inductive Op where
  | effect (e : Effect)
  | generate (target parentWhat : String) (subtask : SubtaskSpec)
  | fix (target code error : String)

def PlanOps : Signature where
  Op := Op
  Answer
    | .effect _ => Except String Unit
    | .generate _ _ _ => Generation
    | .fix _ _ _ => Generation

abbrev Command := ExceptT String (Prog PlanOps)

def attempt (e : Effect) : Command (Except String Unit) := op (S := PlanOps) (.effect e)

def perform (e : Effect) : Command Unit := do
  match ← attempt e with
  | .ok () => pure ()
  | .error error => throw error

def generate (target parentWhat : String) (subtask : SubtaskSpec) : Command Generation :=
  op (S := PlanOps) (.generate target parentWhat subtask)

def fix (target code error : String) : Command Generation :=
  op (S := PlanOps) (.fix target code error)

end Operations

section Cleaning

/-- The first bytes of a text, when they end between two characters. -/
def bytePrefix : ℕ → List Char → Option (List Char)
  | _, [] => some []
  | max, c :: cs =>
      if max = 0 then some []
      else if c.utf8Size ≤ max then (bytePrefix (max - c.utf8Size) cs).map (c :: ·)
      else none

/-- A character in lower case, as far as ASCII letters come of it. -/
def lowercase (c : Char) : List Char :=
  if c = '\u0130' then ['i', '\u0307'] else if c = '\u212a' then ['k'] else [c.toLower]

/-- Signs that a model has talked instead of writing code. -/
def badPatterns : List String :=
  ["I don't have", "I cannot", "I can't", "permission", "Here's the", "Here is the", "Let me",
    "I'll create", "I will create", "Once you grant", "The file is ready"]

/-- The text is cut after a number of bytes, which panics within a character. -/
inductive Cleaned where
  | panicked
  | rejected
  | code (text : String)
  deriving DecidableEq, Repr

def cleanCodeOutput (output : String) : Cleaned :=
  let code := trim output
  match bytePrefix 150 code.toList with
  | none => .panicked
  | some start =>
    let first150 := String.ofList (start.flatMap lowercase)
    if badPatterns.any fun pattern => contains first150 (toAsciiLowercase pattern) then .rejected
    else if startsWith code "```" then
      let ls := lines code
      if 2 ≤ ls.length then
        let stop := if ls.getLast?.map trim = some "```" then ls.length - 1 else ls.length
        .code ("\n".intercalate ((ls.take stop).drop 1))
      else .code code
    else .code code

example : cleanCodeOutput "```rust\nfn main() {}\n```" = .code "fn main() {}" := by decide +kernel

end Cleaning

section Implement

/-- A file in a step's directory, with its text. -/
structure DirEntry where
  name : String
  isName : IsName name
  content : String

/-- What the command finds of a step when it comes to it. -/
structure Found where
  present : Bool
  spec : Option String
  entries : List DirEntry

/-- What the command finds before it comes to the steps, and then of each step. -/
structure RoadmapContent where
  specsPresent : Bool
  roadmap : Option String
  found : ℕ → Found

variable (lib : Library) (dir : RawPath)

def specsDir : RawPath := (dir.join ".arf").join "specs"

def isSubtaskFile (entry : DirEntry) : Bool :=
  endsWith entry.name ".arf" && entry.name ≠ "spec.arf"

/-- The files that can be decoded, in the order of their subtasks. -/
def subtasksOf (entries : List DirEntry) : List (DirEntry × SubtaskSpec) :=
  ((entries.filter isSubtaskFile).filterMap fun entry =>
    (load lib decodeSubtaskSpec entry.content).map (entry, ·)).insertionSort fun a b =>
      a.2.order ≤ b.2.order

def writeTarget (target code : String) : Command Unit := do
  let targetPath := dir.join target
  match targetPath.parent with
  | some parent => perform (.createDirAll parent)
  | none => pure ()
  perform (.write targetPath code)

/-- Verifies the project; a failure asks for a fix while there are attempts left. -/
def verifyLoop (target : String) : ℕ → String → Command Bool
  | attempts, currentCode => do
    match ← attempt .runVerification with
    | .ok () => pure true
    | .error error =>
      match attempts with
      | 0 => pure false
      | attempts + 1 =>
        match ← fix target currentCode error with
        | .aborted error => throw error
        | .failed _ => pure false
        | .generated output =>
          match cleanCodeOutput output with
          | .panicked => throw "byte index is not a char boundary"
          | .rejected => pure false
          | .code fixedCode =>
            perform (.write (dir.join target) fixedCode)
            verifyLoop target attempts fixedCode

/-- Three fixes at the most. -/
def checkTarget (verify : Bool) (target code : String) : Command Bool :=
  if verify then verifyLoop dir target 3 code else pure true

/-- The status is written to the subtask's file; a commit that fails is only reported. -/
def concludeSubtask (specPath : RawPath) (target what : String) (succeeded : Bool) :
    Command Unit := do
  perform (.updateSpecStatus specPath (if succeeded then .complete else .failed) "")
  if succeeded then
    let _ ← attempt (.commitFile target ("implement: " ++ what))
    pure ()

def implementSubtask (verify : Bool) (stepDir : RawPath) (parentWhat : String)
    (task : DirEntry × SubtaskSpec) : Command Unit :=
  if task.2.status = .complete then pure ()
  else
    match task.2.file with
    | none => pure ()
    | some target => do
      match ← generate target parentWhat task.2 with
      | .aborted error => throw error
      | .failed summary =>
        perform (.updateSpecStatus (stepDir.join task.1.name) .failed summary)
      | .generated output =>
        match cleanCodeOutput output with
        | .panicked => throw "byte index is not a char boundary"
        | .rejected => perform (.updateSpecStatus (stepDir.join task.1.name) .failed "")
        | .code cleanCode =>
          writeTarget dir target cleanCode
          let succeeded ← checkTarget dir verify target cleanCode
          concludeSubtask (stepDir.join task.1.name) target task.2.what succeeded

def stepDirOf (step : RoadmapStep) : RawPath := (specsDir dir).join step.dir

def readSpec (step : RoadmapStep) : Option String → Command Unit
  | some _ => perform (.read ((stepDirOf dir step).join "spec.arf"))
  | none => pure ()

def readSubtask (step : RoadmapStep) (entry : DirEntry) : Command Unit :=
  perform (.read ((stepDirOf dir step).join entry.name))

/-- A step whose directory is missing is skipped. -/
def implementStep (verify : Bool) (step : RoadmapStep) (found : Found) : Command Unit :=
  if found.present then do
    readSpec dir step found.spec
    perform (.read (stepDirOf dir step))
    (found.entries.filter isSubtaskFile).forM (readSubtask dir step)
    (subtasksOf lib found.entries).forM (implementSubtask dir verify (stepDirOf dir step)
      (readStepSpec lib step found.spec).what)
  else pure ()

def readRoadmap (content : RoadmapContent) : Except String Roadmap :=
  if content.specsPresent then
    match content.roadmap with
    | none => .error "No roadmap.arf found in .arf/specs/"
    | some text =>
      match load lib decodeRoadmap text with
      | none => .error "Failed to parse roadmap.arf"
      | some roadmap => .ok roadmap
  else .error "No specs found. Run 'lok spec' first to generate specs in .arf/specs/"

/-- The steps to run, with their places among these. -/
def stepsToRun (filter : Option String) (roadmap : Roadmap) : List (RoadmapStep × ℕ) :=
  match filter with
  | some name => (roadmap.steps.filter fun s => s.dir = name ∨ s.spec = name).zipIdx
  | none => roadmap.steps.zipIdx

def noSteps : Option String → String
  | some name => "Step '" ++ name ++ "' not found in roadmap"
  | none => "No steps found in roadmap"

def readRoadmapFile (content : RoadmapContent) : Command Unit :=
  if content.specsPresent && content.roadmap.isSome then
    perform (.read ((specsDir dir).join "roadmap.arf"))
  else pure ()

def implementSteps (verify : Bool) (filter : Option String) (content : RoadmapContent) :
    Command Unit :=
  match readRoadmap lib content with
  | .error error => throw error
  | .ok roadmap =>
    if stepsToRun filter roadmap = [] then throw (noSteps filter)
    else do
      perform .getBackends
      (stepsToRun filter roadmap).forM fun step =>
        implementStep lib dir verify step.1 (content.found step.2)

def implement (verify : Bool) (filter : Option String) (content : RoadmapContent) :
    Command Unit := do
  readRoadmapFile dir content
  implementSteps lib dir verify filter content

end Implement

section Spec

/-- What the backends answer: the specs, and for each of these its subtasks, if anything. -/
structure PlanContent where
  output : String
  breakdown : ℕ → Option String

variable (lib : Library) (tables : CharTables) (dir : RawPath)

@[irreducible] def sortedSpecs (output : String) : List (String × SpecEntry) :=
  (parseSpecs lib output).insertionSort fun a b => a.2.order ≤ b.2.order

def sortedSubtasks (output : String) : List (String × SubtaskEntry) :=
  (parseSubtasks lib output).insertionSort fun a b => a.2.order ≤ b.2.order

def allSubtasks (content : PlanContent) : List (String × List (String × SubtaskEntry)) :=
  (sortedSpecs lib content.output).zipIdx.map fun spec =>
    (spec.1.1, ((content.breakdown spec.2).map (sortedSubtasks lib)).getD [])

/-- The subtasks of the first spec of the name. -/
@[irreducible] def subtasksFor (content : PlanContent) (name : String) :
    List (String × SubtaskEntry) :=
  (((allSubtasks lib content).find? fun entry => entry.1 = name).map (·.2)).getD []

def subtaskFile (subtask : String × SubtaskEntry) : String :=
  twoDigits subtask.2.order.toNat ++ "-" ++ subtask.1 ++ ".arf"

def writeSubtask (stepDir : RawPath) (subtask : String × SubtaskEntry) : Command Unit :=
  perform (.write (stepDir.join (subtaskFile subtask)) (formatSubtask tables subtask.2))

def writeSpec (content : PlanContent) (spec : String × SpecEntry) : Command Unit := do
  let stepDir := (specsDir dir).join (SpecFiles.stepDir spec.1 spec.2)
  perform (.createDirAll stepDir)
  perform (.write (stepDir.join "spec.arf") (formatSpec tables spec.2))
  (subtasksFor lib content spec.1).forM (writeSubtask tables stepDir)

/-- The roadmap is written before the subtasks are asked for, the specs after. -/
def writePlan (noSpecs task : String) (content : PlanContent) : Command Unit :=
  let specs := sortedSpecs lib content.output
  if specs = [] then throw noSpecs
  else do
    perform (.createDirAll (specsDir dir))
    perform (.write ((specsDir dir).join "roadmap.arf") (formatRoadmap tables task specs))
    specs.forM fun spec => perform (.runQuery (.subtasks spec.1))
    specs.forM (writeSpec lib tables dir content)

def runSingleBackend (task : String) (content : PlanContent) : Command Unit := do
  perform .getBackends
  perform (.runQuery .plan)
  writePlan lib tables dir "No specs parsed" task content

def runSpec (backendCount : ℕ) (task : String) (content : PlanContent) : Command Unit := do
  perform .getBackends
  if backendCount = 1 then runSingleBackend lib tables dir task content
  else
    perform (.runQuery .roadmaps)
    perform .getBackends
    perform (.runQuery .consensus)
    perform (.runQuery .specs)
    writePlan lib tables dir "No specs parsed from output" task content

end Spec

end Loker.PlanCommands
