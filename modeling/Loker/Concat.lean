import Loker.Strategies

/-! The aggregators that fold the outcomes of a fan-out's branches into one text. -/

namespace Loker.Concat

open TextOps Dispatch Strategies

section Families

inductive Family where
  | anthropic
  | google
  | openAI
  | zhipu
  | «local»
  | other (name : String)
  deriving DecidableEq, Repr

/-- The payload of `other` is not shown. -/
def Family.asStr : Family → String
  | .anthropic => "anthropic"
  | .google => "google"
  | .openAI => "openai"
  | .zhipu => "zhipu"
  | .local => "local"
  | .other _ => "other"

def familyOfSuffix (token : String) : Family :=
  if token = "openai" then .openAI
  else if token = "anthropic" then .anthropic
  else if token = "google" ∨ token = "gemini" then .google
  else if token = "zhipu" then .zhipu
  else if token = "local" ∨ token = "ollama" then .local
  else .other token

def familyOfName (backendId : String) : Family :=
  if backendId = "claude" then .anthropic
  else if backendId = "gemini" then .google
  else if backendId = "openai" ∨ backendId = "codex" then .openAI
  else if backendId = "zhipu" then .zhipu
  else if backendId = "ollama" then .local
  else .other backendId

/-- What stands after the last underscore, when there is one. -/
def afterLastUnderscore (s : String) : Option String :=
  if '_' ∈ s.toList then some (String.ofList (s.toList.reverse.takeWhile (· ≠ '_')).reverse)
  else none

def purposeFamily (backendId : String) : Option Family := do
  let suffix ← stripPrefix backendId "loker_"
  let token ← afterLastUnderscore suffix
  pure (familyOfSuffix token)

/-- Every pass takes one `tensorzero/` off the front. -/
def familyFrom : ℕ → String → Family
  | 0, backendId => familyOfName backendId
  | passes + 1, backendId =>
      match stripPrefix backendId "tensorzero/" with
      | some suffix => familyFrom passes suffix
      | none => (purposeFamily backendId).getD (familyOfName backendId)

def familyOf (backendId : String) : Family := familyFrom (backendId.length + 1) backendId

example : familyOf "tensorzero/loker_review_anthropic" = .anthropic := by decide

end Families

section Branches

structure BranchSuccess where
  backendId : String
  family : String
  index : ℕ
  output : String
  deriving DecidableEq, Repr

structure BranchFailure where
  backendId : String
  family : String
  index : ℕ
  reason : String
  deriving DecidableEq, Repr

/-- The family of a branch is its backend's. -/
def asSuccess : BranchOutcome → Option BranchSuccess
  | .success backendId index output =>
      some ⟨backendId, (familyOf backendId).asStr, index, output⟩
  | .failure _ _ _ => none

def asFailure : BranchOutcome → Option BranchFailure
  | .success _ _ _ => none
  | .failure backendId index reason =>
      some ⟨backendId, (familyOf backendId).asStr, index, reason⟩

structure AggregatedArtifact where
  text : String
  successful : ℕ
  failed : ℕ
  deriving DecidableEq, Repr

inductive AggregatorError where
  | unsupported (detail : String)
  | noSuccessfulBranches
  | branchFailures (detail : String)
  deriving DecidableEq, Repr

def AggregatorError.text : AggregatorError → String
  | .unsupported detail => "unsupported aggregator operation: " ++ detail
  | .noSuccessfulBranches => "no successful branches"
  | .branchFailures detail => "one or more branches failed: " ++ detail

end Branches

section Headings

def backendField : List Char := "\x7bbackend_id\x7d".toList

def familyField : List Char := "\x7bfamily\x7d".toList

def indexField : List Char := "\x7bindex\x7d".toList

variable (backendId family : String) (index : ℕ)

/-- One pass from the left; `skip` counts the characters already passed. What stands between
other braces is kept, and a brace that is never closed keeps all the rest. -/
def headingFrom : ℕ → List Char → List Char
  | _, [] => []
  | skip + 1, _ :: cs => headingFrom skip cs
  | 0, c :: cs =>
      if c = '{' then
        if backendField.isPrefixOf (c :: cs) then
          backendId.toList ++ headingFrom (backendField.length - 1) cs
        else if familyField.isPrefixOf (c :: cs) then
          family.toList ++ headingFrom (familyField.length - 1) cs
        else if indexField.isPrefixOf (c :: cs) then
          index.repr.toList ++ headingFrom (indexField.length - 1) cs
        else if '}' ∈ cs then
          let body := cs.takeWhile (· ≠ '}')
          c :: body ++ '}' :: headingFrom (body.length + 1) cs
        else c :: cs
      else c :: headingFrom 0 cs

def renderHeading (template : String) : String :=
  String.ofList (headingFrom backendId family index 0 template.toList)

variable {backendId family index}

lemma headingFrom_skip (passed : List Char) {cs : List Char} :
    headingFrom backendId family index passed.length (passed ++ cs) =
      headingFrom backendId family index 0 cs := by
  induction passed with
  | nil => rfl
  | cons c passed ih => exact ih

lemma headingFrom_plain {c : Char} {cs : List Char} (h : c ≠ '{') :
    headingFrom backendId family index 0 (c :: cs) =
      c :: headingFrom backendId family index 0 cs := by
  rw [headingFrom, if_neg h]

end Headings

section Concat

/-- Emitted when there are no branch outcomes at all. -/
def emptyConcatSentinel : String :=
  "<!-- loker: concat aggregator received no target outputs -->"

def renderSuccess (headingTemplate : String) (success : BranchSuccess) : String :=
  let heading := renderHeading success.backendId success.family success.index headingTemplate
  let output := trim success.output
  if output = "" then heading else heading ++ "\n\n" ++ output

/-- Line ends of any kind are written as a backslash and an `n`. -/
def renderReason (reason : String) : String :=
  replaceAll (replaceAll (replaceAll (trim reason) "\r\n" "\n") "\r" "\n") "\n" "\\n"

def renderError (failure : BranchFailure) : String :=
  "- backend_id: " ++ failure.backendId ++ "\n  family: " ++ failure.family ++
    "\n  index: " ++ failure.index.repr ++ "\n  reason: " ++ renderReason failure.reason

def renderErrors (failures : List BranchFailure) : String :=
  failures.foldl (fun out failure => out ++ "\n\n" ++ renderError failure) "## Errors"

/-- The sections of the text: one for each success and the footer with the failures. -/
def concatParts (headingTemplate : String) (branches : List BranchOutcome) : List String :=
  let sections := (branches.filterMap asSuccess).map (renderSuccess headingTemplate)
  let failures := branches.filterMap asFailure
  if failures = [] then sections else sections ++ [renderErrors failures]

def aggregateConcat (headingTemplate : String) (branches : List BranchOutcome) :
    AggregatedArtifact :=
  if branches = [] then ⟨emptyConcatSentinel, 0, 0⟩
  else
    ⟨"\n\n".intercalate (concatParts headingTemplate branches) ++ "\n",
      (branches.filterMap asSuccess).length, (branches.filterMap asFailure).length⟩

end Concat

section Others

def aggregateFirst (branches : List BranchOutcome) :
    Except AggregatorError AggregatedArtifact :=
  match branches.findSome? asSuccess with
  | some success => .ok ⟨success.output, 1, branches.findIdx fun b => (asSuccess b).isSome⟩
  | none => .error .noSuccessfulBranches

def describeFailure (failure : BranchFailure) : String :=
  "#" ++ failure.index.repr ++ " " ++ failure.backendId ++ ": " ++ failure.reason

def aggregateAllPass (branches : List BranchOutcome) :
    Except AggregatorError AggregatedArtifact :=
  let outputs := (branches.filterMap asSuccess).map (·.output)
  let failures := (branches.filterMap asFailure).map describeFailure
  if failures = [] then .ok ⟨"\n\n".intercalate outputs, outputs.length, 0⟩
  else .error (.branchFailures ("; ".intercalate failures))

/-- The heading that the name `concat` stands for. -/
def concatHeading : String := "## \x7bbackend_id\x7d"

def aggregate : AggregatorName → List BranchOutcome → Except AggregatorError AggregatedArtifact
  | .first, branches => aggregateFirst branches
  | .concat, branches => .ok (aggregateConcat concatHeading branches)
  | .anyFail, _ => .error
      (.unsupported "AnyFail is evaluated inline by ParallelFanOut, not via aggregate()")
  | .allPass, branches => aggregateAllPass branches
  | .vote, _ => .error
      (.unsupported "Vote is evaluated inline by ParallelFanOut, not via aggregate()")

/-- The text of the artefact or of the error. -/
def aggregateText (name : AggregatorName) (branches : List BranchOutcome) :
    Except String String :=
  match aggregate name branches with
  | .ok artefact => .ok artefact.text
  | .error e => .error e.text

end Others

end Loker.Concat
