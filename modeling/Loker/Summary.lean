import Loker.TextSearch
import Loker.RunOps

/-! The summary of a run, as it is collected from the marker files. -/

namespace Loker.Summary

open FileTree TextOps RunFiles

/-- The status of a phase in the summary. -/
inductive PhaseStatus where
  | completed
  | failed
  | skipped
  deriving DecidableEq, Repr

inductive RunStatus where
  | success
  | failed
  | partialRun
  | aborted
  deriving DecidableEq, Repr

structure PhaseSummary where
  phase : String
  status : PhaseStatus
  attempts : ℕ
  deriving DecidableEq, Repr

/-- The terminal markers as the summary reads them back. -/
class SummaryFormat (B : Type) extends RunFormat B where
  readCompletedMarker : B → Option CompletedMarker
  readFailedMarker : B → Option FailedMarker
  readCompletedMarker_ofCompleted : ∀ m, readCompletedMarker (ofCompleted m) = some m
  readFailedMarker_ofFailed : ∀ m, readFailedMarker (ofFailed m) = some m

attribute [simp] SummaryFormat.readCompletedMarker_ofCompleted
  SummaryFormat.readFailedMarker_ofFailed

instance : SummaryFormat Doc where
  readCompletedMarker
    | .completed m => some m
    | _ => none
  readFailedMarker
    | .failed m => some m
    | _ => none
  readCompletedMarker_ofCompleted _ := rfl
  readFailedMarker_ofFailed _ := rfl

section Names

/-- The parts before and after the last match of the pattern. -/
def rsplitOnce (s pat : String) : Option (String × String) :=
  if contains s pat then
    let after := (takeBefore pat.toList.reverse s.toList.reverse).reverse
    some (String.ofList (s.toList.take (s.toList.length - after.length - pat.toList.length)),
      String.ofList after)
  else none

def dropPrefixes (pat : List Char) : ℕ → List Char → List Char
  | 0, cs => cs
  | fuel + 1, cs =>
      if pat.isPrefixOf cs then dropPrefixes pat fuel (cs.drop pat.length) else cs

/-- Takes a nonempty pattern off the end as often as it is there. -/
def trimEndMatches (s pat : String) : String :=
  String.ofList (dropPrefixes pat.toList.reverse s.toList.length s.toList.reverse).reverse

/-- The phase and the attempt of a started marker. -/
def startedName (fileName : String) : Option (String × ℕ) := do
  let (phase, attempt) ← rsplitOnce fileName ".started."
  let n ← parseU32 attempt
  pure (phase, n)

/-- The phase and the status of a terminal marker. -/
def terminalName (fileName : String) : Option (String × PhaseStatus) :=
  if contains fileName ".started." then none
  else if endsWith fileName ".completed" then
    some (trimEndMatches fileName ".completed", .completed)
  else if endsWith fileName ".failed" then some (trimEndMatches fileName ".failed", .failed)
  else none

end Names

section Collect

variable {B : Type} [SummaryFormat B]

/-- The number of attempts to show: the marker's, or one when it cannot be read. -/
def attemptsOf (status : PhaseStatus) (bytes : Option B) : ℕ :=
  match status with
  | .completed =>
      ((bytes.bind SummaryFormat.readCompletedMarker).map fun m => (m.attempt + 1) % 2 ^ 32).getD 1
  | _ => ((bytes.bind SummaryFormat.readFailedMarker).map FailedMarker.attemptsMade).getD 1

def phaseSummary (t : Disk B) (dir : Path) (fileName : String) : Option PhaseSummary :=
  (terminalName fileName).map fun x => ⟨x.1, x.2, attemptsOf x.2 (fileAt t (dir ++ [fileName]))⟩

/-- One entry for each terminal marker, sorted by phase. -/
def collectPhases (t : Disk B) (runDir : Path) : List PhaseSummary :=
  let dir := markersDir runDir
  if isDir t dir then
    ((readDir t dir).filterMap (phaseSummary t dir)).insertionSort fun a b => a.phase ≤ b.phase
  else []

def computeRunStatus (phases : List PhaseSummary) : RunStatus :=
  if phases = [] then .failed
  else if ∀ p ∈ phases, p.status = .completed then .success
  else if ∃ p ∈ phases, p.status = .failed then .partialRun
  else .aborted

end Collect

end Loker.Summary
