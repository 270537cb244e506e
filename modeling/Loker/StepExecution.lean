import Loker.Consensus
import Loker.EditParser
import Loker.StepOps

/-! The execution of one step of a workflow: an iteration over items, a shell command, several
backends or one backend with its edits, its verification and its validation. -/

namespace Loker.StepExecution

open Programs TextOps EditFiles StepWorkflow ParallelEdits EditRetry StepOps Consensus

section Commands

structure CodebaseContext where
  detectedLanguage : Option String := none
  hasRuff : Bool := false
  hasMypy : Bool := false
  hasPrettier : Bool := false
  hasEslint : Bool := false
  hasRubocop : Bool := false
  hasRspec : Bool := false
  hasGolangciLint : Bool := false
  deriving DecidableEq, Repr

def CodebaseContext.formatCommand (ctx : CodebaseContext) : Option String :=
  match ctx.detectedLanguage with
  | some "rust" => some "cargo fmt"
  | some "go" => some "go fmt ./..."
  | some "python" | some "python/django" | some "python/fastapi" =>
      if ctx.hasRuff then some "ruff format ." else none
  | some "typescript" | some "javascript" =>
      if ctx.hasPrettier then some "npm run format --if-present" else none
  | some "ruby/rails" | some "ruby" =>
      if ctx.hasRubocop then some "bundle exec rubocop -a" else none
  | _ => none

/-- The parts that are there, one after the other. -/
def chain (parts : List (Bool × String)) : Option String :=
  match (parts.filter Prod.fst).map Prod.snd with
  | [] => none
  | commands => some (" && ".intercalate commands)

def CodebaseContext.verifyCommand (ctx : CodebaseContext) : Option String :=
  match ctx.detectedLanguage with
  | some "rust" => some "cargo clippy -- -D warnings && cargo build"
  | some "go" => chain [(true, "go vet ./..."), (ctx.hasGolangciLint, "golangci-lint run"),
      (true, "go build ./...")]
  | some "python" | some "python/django" | some "python/fastapi" =>
      chain [(ctx.hasRuff, "ruff check ."), (!ctx.hasRuff && ctx.hasMypy, "mypy .")]
  | some "typescript" | some "javascript" =>
      chain [(ctx.hasEslint, "npm run lint --if-present"), (true, "npm run build --if-present")]
  | some "ruby/rails" | some "ruby" =>
      chain [(ctx.hasRubocop, "bundle exec rubocop --lint"),
        (ctx.hasRspec, "bundle exec rspec --dry-run")]
  | _ => none

-- No character outside ASCII has one of the letters of these words as its lower case.
def keyword (value : String) : String := toAsciiLowercase (trim value)

def resolveFormatCommand (format : String) (ctx : CodebaseContext) : Option String :=
  match keyword format with
  | "true" => ctx.formatCommand
  | "false" | "" => none
  | "rust" => some "cargo fmt"
  | "go" | "golang" => some "go fmt ./..."
  | "python" | "py" => some "ruff format ."
  | "node" | "nodejs" | "javascript" | "typescript" => some "npm run format --if-present"
  | "ruby" => some "bundle exec rubocop -a"
  | _ => some format

def resolveVerifyCommand (verify : String) (ctx : CodebaseContext) : Option String :=
  match keyword verify with
  | "true" => ctx.verifyCommand
  | "false" | "" => none
  | "rust" => some "cargo clippy -- -D warnings && cargo build"
  | "go" | "golang" => some "go vet ./... && go build ./..."
  | "python" | "py" => some "ruff check ."
  | "node" | "nodejs" | "javascript" | "typescript" =>
      some "npm run lint --if-present && npm run build --if-present"
  | "ruby" => some "bundle exec rubocop --lint"
  | _ => some verify

end Commands

section Model

structure Iteration (Item : Type) where
  index : ℕ
  item : Item
  output : String
  success : Bool

/-- The runner of a workflow: its working directory, what it knows of the code base, and the
template engine and the readers and writers of JSON that it uses. -/
structure WorkflowRunner (Results Item : Type) where
  cwd : String
  commandWrapper : Option String
  context : CodebaseContext
  interpolate : String → Results → Except String String
  parseForEachArray : String → Results → Except String (List Item)
  interpolateLoopVars : String → Item → ℕ → String
  toStringPretty : List (Iteration Item) → String
  readWrapper : String → Option (List FileEdit)
  readEdits : String → Option (List FileEdit)
  iteration : List (String × ℕ) → List (String × ℕ)

structure PreparedStep (Item : Type) where
  step : Step
  prompt : String
  shell : Option String
  format : Option String
  verify : Option String
  forEachItems : Option (List Item)

structure StepFailure where
  kind : StepFailureKind
  message : String
  deriving DecidableEq, Repr

/-- `rawOutput` is the output before the validator's replaced it. -/
structure StepResult where
  name : String
  output : String
  success : Bool
  rawOutput : Option String := none
  validation : Option ValidationResult := none
  failure : Option StepFailure := none
  deriving DecidableEq, Repr

def StepResult.error (name output : String) (kind : StepFailureKind) : StepResult where
  name := name
  output := output
  success := false
  failure := some ⟨kind, output⟩

variable {Results Item : Type} (runner : WorkflowRunner Results Item) (wf : Workflow)

def WorkflowRunner.parse (raw : String) : Except String ParsedEdits :=
  (EditParser.parse runner.readWrapper runner.readEdits raw).mapError EditParser.EditParseError.toString

/-- An optional field's value, or why it has none. -/
def mapField {β : Type} (f : String → Except String β) : Option String → Except String (Option β)
  | some field => (f field).map some
  | none => .ok none

def prepare (step : Step) (results : Results) : Except String (PreparedStep Item) := do
  let prompt ← runner.interpolate step.prompt results
  let shell ← mapField (runner.interpolate · results) step.shell
  let verifyValue ← mapField (runner.interpolate · results) step.verify
  let forEachItems ← mapField (runner.parseForEachArray · results) step.forEach
  pure {
    step := step
    prompt := prompt
    shell := shell
    format := verifyValue.bind fun v => resolveFormatCommand v runner.context
    verify := verifyValue.bind fun v => resolveVerifyCommand v runner.context
    forEachItems := forEachItems }

def defaultStepTimeoutMs : ℕ := 120000

def timeoutMs (step : Step) : ℕ := (stepTimeout wf step).getD defaultStepTimeoutMs

/-- In milliseconds; a year stands for no limit. -/
def timeoutDuration (step : Step) : ℕ :=
  if timeoutMs wf step = 0 then 365 * 24 * 60 * 60 * 1000 else timeoutMs wf step

def secondsOf (milliseconds : ℕ) : String := (milliseconds / 1000).repr ++ "s"

def failureText (step : Step) : Failure → String
  | .error message _ => "Error: " ++ message
  | .elapsed => "Error: Step timed out after " ++ secondsOf (timeoutDuration wf step)

def connectText (backend : String) : ConnectError → String
  | .notFound => "Backend not found: " ++ backend
  | .notCreated message => "Failed to create backend: " ++ message

def shellWork (cmd : String) : Work := .command (applyCommandWrapper cmd runner.commandWrapper)

def queryWork (p : PreparedStep Item) (backend prompt : String) : Work :=
  .query backend prompt p.step.model

end Model

section Tail

variable {Item : Type}

/-- The validation of a step's text and the result with its verdict. -/
def finish (p : PreparedStep Item) (text : String) (stderr : Option String) :
    Prog RunnerOps StepResult :=
  match p.step.validate with
  | none => pure { name := p.step.name, output := text, success := true }
  | some config => do
      let (validation, cleaned) ← call (S := RunnerOps) (.validate config text stderr)
      let passed := (validation.map ValidationResult.passed).getD true
      match cleaned.filter fun _ => config.replaceOutput with
      | some cleaned =>
          pure { name := p.step.name, output := cleaned, success := passed, rawOutput := some text,
                 validation := validation }
      | none =>
          pure { name := p.step.name, output := text, success := passed, validation := validation }

/-- One attempt and as many retries as are left. -/
def attemptWork (work : Work) : ℕ → Prog RunnerOps (Except Failure Output)
  | 0 => call (S := RunnerOps) (.attempt work)
  | left + 1 => do
      match ← call (S := RunnerOps) (.attempt work) with
      | .ok out => pure (.ok out)
      | .error _ => attemptWork work left

end Tail

section ForEach

variable {Results Item : Type} (runner : WorkflowRunner Results Item) (wf : Workflow)

def iterationOutcome (p : PreparedStep Item) : Except Failure Output → String × Bool
  | .ok out => (out.stdout, true)
  | .error failure => (failureText wf p.step failure, false)

def iterate (p : PreparedStep Item) (item : Item) (index : ℕ) :
    Prog RunnerOps (String × Bool) :=
  match p.shell with
  | some cmd => do
      let cmd := runner.interpolateLoopVars cmd item index
      let answer ← call (S := RunnerOps) (.attempt (shellWork runner cmd))
      pure (iterationOutcome wf p answer)
  | none => do
      match ← call (S := RunnerOps) (.connect p.step.backend) with
      | .error e => pure (connectText p.step.backend e, false)
      | .ok () =>
          let prompt := runner.interpolateLoopVars p.prompt item index
          let answer ← call (S := RunnerOps) (.attempt (queryWork p p.step.backend prompt))
          pure (iterationOutcome wf p answer)

def iterateFrom (p : PreparedStep Item) :
    ℕ → List Item → Prog RunnerOps (List (Iteration Item))
  | _, [] => pure []
  | index, item :: items => do
      let (output, success) ← iterate runner wf p item index
      let rest ← iterateFrom p (index + 1) items
      pure (⟨index, item, output, success⟩ :: rest)

def forEachFailure : StepFailure := ⟨.backendError, "for_each: some iterations failed"⟩

def forEachResult (p : PreparedStep Item) (iterations : List (Iteration Item)) : StepResult :=
  let allSuccess := iterations.all Iteration.success
  { name := p.step.name, output := runner.toStringPretty iterations, success := allSuccess,
    failure := if allSuccess then none else some forEachFailure }

def forEachStep (p : PreparedStep Item) (items : List Item) : Prog RunnerOps StepResult := do
  let iterations ← iterateFrom runner wf p 0 items
  pure (forEachResult runner p iterations)

end ForEach

section Shell

variable {Results Item : Type} (runner : WorkflowRunner Results Item) (wf : Workflow)

def shellFailureKind : Failure → StepFailureKind
  | .error _ _ => .backendError
  | .elapsed => .timeout

def shellStep (p : PreparedStep Item) (cmd : String) : Prog RunnerOps StepResult := do
  match ← attemptWork (shellWork runner cmd) p.step.retries with
  | .ok out => finish p out.stdout out.stderr
  | .error failure =>
      pure (.error p.step.name (failureText wf p.step failure) (shellFailureKind failure))

end Shell

section Multi

variable {Results Item : Type} (runner : WorkflowRunner Results Item) (wf : Workflow)

def branchFailure (p : PreparedStep Item) : Failure → String
  | .error message _ => message
  | .elapsed => "Timeout after " ++ secondsOf (timeoutDuration wf p.step)

/-- One branch: the response of a backend or why there is none. -/
def queryBackend (p : PreparedStep Item) (backend : String) :
    Prog RunnerOps (Except String BackendResponse) := do
  match ← call (S := RunnerOps) (.connect backend) with
  | .error e => pure (.error (backend ++ ": " ++ connectText backend e))
  | .ok () =>
      match ← call (S := RunnerOps) (.isAvailable backend) with
      | false => pure (.error (backend ++ ": Backend " ++ backend ++ " not available"))
      | true =>
          match ← call (S := RunnerOps) (.attempt (queryWork p backend p.prompt)) with
          | .ok out => pure (.ok ⟨backend, out.stdout⟩)
          | .error failure => pure (.error (backend ++ ": " ++ branchFailure wf p failure))

/-- The branches run side by side; the order of what they do does not matter to each other, and
here it is the order of their results. -/
def queryAll (p : PreparedStep Item) :
    List String → Prog RunnerOps (List (Except String BackendResponse))
  | [] => pure []
  | backend :: backends => do
      let answer ← queryBackend wf p backend
      let rest ← queryAll p backends
      pure (answer :: rest)

def responsesOf (answers : List (Except String BackendResponse)) : List BackendResponse :=
  answers.filterMap fun
    | .ok response => some response
    | .error _ => none

def errorsOf (answers : List (Except String BackendResponse)) : List String :=
  answers.filterMap fun
    | .ok _ => none
    | .error message => some message

def synthPrompt (prompt : String) (responses : List BackendResponse) : String :=
  let proposals := "\n".intercalate (responses.map fun r =>
    "## " ++ r.backend ++ "'s Response\n" ++ r.content ++ "\n")
  "Multiple AI backends responded to this prompt:\n\n## Original Prompt\n" ++ prompt ++
    "\n\n## Responses\n" ++ proposals ++ "\n\n## Instructions\n" ++
    "Synthesize these responses into a single, unified answer that:\n" ++
    "1. Takes the best insights from each\n2. Resolves any contradictions\n" ++
    "3. Is clear and concise\n\nOutput only the synthesized response, no preamble."

/-- Where nothing can be synthesized, the first response stands. -/
def synthesize (p : PreparedStep Item) (first : BackendResponse)
    (responses : List BackendResponse) : Prog RunnerOps String := do
  let backend := match ← call (S := RunnerOps) (.containsBackend "claude") with
    | true => "claude"
    | false => (getBackends p.step).head?.getD "claude"
  match ← call (S := RunnerOps) (.connect backend) with
  | .error _ => pure first.content
  | .ok () =>
      let work := .query backend (synthPrompt p.prompt responses) none
      match ← call (S := RunnerOps) (.assist work) with
      | .ok out => pure out.stdout
      | .error _ => pure first.content

def combine (p : PreparedStep Item) (first : BackendResponse) (responses : List BackendResponse) :
    Prog RunnerOps String :=
  match getConsensusStrategy p.step with
  | .first => pure first.content
  | .vote =>
      pure (((majorityVote runner.iteration responses).map VoteResult.winner).getD first.content)
  | .weightedVote =>
      pure (((weightedVote runner.iteration responses).map WeightedVoteResult.winner).getD
        first.content)
  | .synthesis => synthesize p first responses

def multiStep (p : PreparedStep Item) : Prog RunnerOps StepResult := do
  let answers ← queryAll wf p (getBackends p.step)
  match responsesOf answers with
  | [] =>
      let message := "All backends failed: " ++ "; ".intercalate (errorsOf answers)
      pure (.error p.step.name message .backendError)
  | first :: rest => do
      let text ← combine runner p first (first :: rest)
      finish p text none

end Multi

section Single

variable {Results Item : Type} (runner : WorkflowRunner Results Item) (wf : Workflow)

def stepErrStderrTruncBytes : ℕ := 1024

def mapRetryFailure (outcome : RetryLoopOutcome) (timeoutMs : ℕ)
    (partialPaths : Option (List String)) : String × StepFailureKind :=
  let attemptCount := outcome.attempts.length.repr
  match outcome.attempts.getLast? with
  | none => ("Retry loop exited without any attempts", .editFailed)
  | some last =>
      let rawTrunc := truncateForPrompt last.rawOutput stepErrRawTruncBytes
      match last.verifyResult, last.applyError, last.parseError with
      | some vr, _, _ =>
          let stderrTrunc := truncateForPrompt vr.stderr stepErrStderrTruncBytes
          if vr.timedOut then
            ("Verification timed out after " ++ attemptCount ++ " attempts (" ++ timeoutMs.repr ++
              "ms limit).\n\nPartial stderr:\n" ++ stderrTrunc, .verifyFailed)
          else
            let code := (vr.exitCode.map Int.repr).getD "unknown"
            ("Verification failed after " ++ attemptCount ++ " attempts with exit code " ++ code ++
              ".\n\nStderr:\n" ++ stderrTrunc, .verifyFailed)
      | none, some err, _ =>
          let pathsJoined := ((partialPaths.map fun paths => ", ".intercalate paths).filter
            (· ≠ "")).getD "(not captured)"
          ("Apply failed after " ++ attemptCount ++ " attempts: " ++ err ++ "\n\nFailed files: " ++
            pathsJoined ++ "\n\nLast output:\n" ++ rawTrunc, .editFailed)
      | none, none, some err =>
          ("Parse failed after " ++ attemptCount ++ " attempts: " ++ err ++ "\n\nLast output:\n" ++
            rawTrunc, .editFailed)
      | none, none, none => ("Retry loop failed without a recorded error", .editFailed)

/-- Applies the edits of an output, with a verification in a loop of fixes or without one. -/
def applyStep (p : PreparedStep Item) (out : Output) :
    Prog RunnerOps (Except StepResult Output) :=
  let duration := timeoutDuration wf p.step
  match composeVerify p.format p.verify with
  | some command => do
      let verification : Verification := ⟨applyCommandWrapper command runner.commandWrapper,
        duration, defaultVerifyMaxOutputBytes⟩
      let (outcome, caps) ← embed (EditRetry.execute runner.parse
        ⟨p.step.fixRetries, verification, false⟩ out.stdout runner.cwd) {}
      if outcome.success then
        pure (.ok ⟨(outcome.attempts.getLast?.map AttemptRecord.rawOutput).getD out.stdout,
          caps.lastStderr.or out.stderr⟩)
      else
        let (message, kind) := mapRetryFailure outcome duration caps.lastApplyPartialPaths
        pure (.error (.error p.step.name message kind))
  | none => do
      match ← embed (applyOnce runner.parse out.stdout runner.cwd p.format runner.commandWrapper)
        {} with
      | (.ok (), _) => pure (.ok out)
      | (.error message, _) => pure (.error (.error p.step.name message .editFailed))

/-- Formats and verifies without edits; the formatter's result does not matter. -/
def verifyStep (p : PreparedStep Item) (out : Output) :
    Prog RunnerOps (Except StepResult Output) := do
  match p.format with
  | some cmd =>
      let _ ← call (S := RunnerOps) (.assist (shellWork runner cmd))
      verify
  | none => verify
where
  verify : Prog RunnerOps (Except StepResult Output) :=
    match p.verify with
    | none => pure (.ok out)
    | some cmd => do
        match ← call (S := RunnerOps) (.assist (shellWork runner cmd)) with
        | .ok _ => pure (.ok out)
        | .error failure =>
            let reason := match failure with
              | .error e _ => "Verification failed: " ++ e
              | .elapsed => "Verification timed out after " ++ (timeoutMs wf p.step).repr ++ "ms"
            let message := reason ++ "\n\nOriginal output:\n" ++ out.stdout
            pure (.error (.error p.step.name message .verifyFailed))

def queryFailureKind : Failure → StepFailureKind
  | .error _ ranOut => if ranOut then .timeout else .backendError
  | .elapsed => .timeout

def checkOutput (p : PreparedStep Item) (out : Output) : Prog RunnerOps (Except StepResult Output) :=
  if p.step.applyEdits then applyStep runner wf p out else verifyStep runner wf p out

/-- What is done with the output of the only backend. -/
def useOutput (p : PreparedStep Item) (out : Output) : Prog RunnerOps StepResult := do
  match ← checkOutput runner wf p out with
  | .error result => pure result
  | .ok out => finish p out.stdout out.stderr

def singleStep (p : PreparedStep Item) : Prog RunnerOps StepResult := do
  let backend := p.step.backend
  match ← call (S := RunnerOps) (.connect backend) with
  | .error e => pure (.error p.step.name (connectText backend e) .backendError)
  | .ok () =>
      match ← call (S := RunnerOps) (.isAvailable backend) with
      | false =>
          pure (.error p.step.name ("Backend " ++ backend ++ " not available") .backendError)
      | true =>
          match ← attemptWork (queryWork p backend p.prompt) p.step.retries with
          | .ok out => useOutput runner wf p out
          | .error failure =>
              pure (.error p.step.name (failureText wf p.step failure) (queryFailureKind failure))

/-- The four kinds of steps. -/
def executeStep (p : PreparedStep Item) : Prog RunnerOps StepResult :=
  match p.forEachItems, p.shell with
  | some items, _ => forEachStep runner wf p items
  | none, some cmd => shellStep runner wf p cmd
  | none, none =>
      if 1 < (getBackends p.step).length then multiStep runner wf p else singleStep runner wf p

end Single

end Loker.StepExecution
