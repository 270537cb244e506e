import Loker.Dispatch
import Loker.RunOps

/-! The strategies that turn a phase's prompt into attempts: one call, a fan-out over several
targets and a ladder of backends. -/

namespace Loker.Strategies

open FileTree Programs RunFiles RunLoad RunOps Dispatch

section Data

inductive VerifyStatus where
  | pass
  | fail
  | skipped
  deriving DecidableEq, Repr

structure VerifyOutcome where
  status : VerifyStatus
  hook : Option String
  deriving DecidableEq, Repr

def VerifyOutcome.skipped : VerifyOutcome := ⟨.skipped, none⟩

def VerifyOutcome.passed (hook : String) : VerifyOutcome := ⟨.pass, some hook⟩

def VerifyOutcome.failed (hook : String) : VerifyOutcome := ⟨.fail, some hook⟩

inductive FinishReason where
  | stop
  | error
  deriving DecidableEq, Repr

structure Attempt where
  tier : Option Tier
  backend : String
  finishReason : FinishReason
  outputPath : String
  verify : VerifyOutcome
  deriving DecidableEq, Repr

inductive FinalStatus where
  | succeeded
  | exhausted
  deriving DecidableEq, Repr

structure StrategyOutput where
  strategy : StrategyName
  phase : String
  attempts : List Attempt
  finalStatus : Option FinalStatus
  aggregator : Option AggregatorName
  aggregateOutputPath : Option String
  verify : Option VerifyOutcome
  deriving DecidableEq, Repr

inductive StrategyError where
  | backendNotFound (name : String)
  | phase (detail : String)
  | noBackends
  | promptRender (detail : String)
  | backend (e : BackendError)
  | exhausted (output : StrategyOutput)
  | floorViolation (successes minResponses : ℕ) (output : StrategyOutput)
  | anyFail (backend reason : String) (offender : Attempt) (output : StrategyOutput)
  deriving DecidableEq, Repr

/-- What the next rung of the ladder may be told about the last failure. -/
structure FailureContext where
  previousTier : Tier
  previousBackend : String
  verifyReason : Option String
  backendErrorClass : Option String
  responseExcerpt : Option String
  deriving DecidableEq, Repr

inductive BranchOutcome where
  | success (backendId : String) (index : ℕ) (output : String)
  | failure (backendId : String) (index : ℕ) (reason : String)
  deriving DecidableEq, Repr

/-- The text functions that the strategies and aggregators call: the template engine with its
context, the aggregators and the failure envelope. -/
structure Engines where
  template : String → Except String String
  anyFailEvaluate : String → Except String Unit
  aggregateVote : List BranchOutcome → Except String String
  aggregate : AggregatorName → List BranchOutcome → Except String String
  redactSecrets : String → String
  truncateExcerpt : String → ℕ → String
  buildFailureEnvelope : FailureContext → String → String

/-- The inputs of one phase run; backends and the verify hook are known by their names. -/
structure PhaseInputs where
  backends : List String
  promptModel : Option String
  phaseName : String
  verify : Option String
  runDir : Path
  runId : String
  deriving DecidableEq, Repr

end Data

section Texts

def backendErrorClass : BackendError → String
  | .timeout _ => "Timeout"
  | .rateLimit _ => "RateLimited"
  | .auth _ => "Auth"
  | .network _ => "Network"
  | .parse _ => "Parse"
  | .executionFailed _ => "ExecutionFailed"
  | .unavailable _ => "Unavailable"
  | .config _ => "Config"

def backendErrorText : BackendError → String
  | .timeout message => "timeout: " ++ message
  | .rateLimit message => "rate limited: " ++ message
  | .auth message => "auth: " ++ message
  | .network message => "network: " ++ message
  | .parse message => "parse: " ++ message
  | .executionFailed message => "execution failed: " ++ message
  | .unavailable message => "unavailable: " ++ message
  | .config message => "config: " ++ message

def maxResponseExcerptBytes : ℕ := 4096

def fromVerifyFail (eng : Engines) (tier : Tier) (backend reason response : String) :
    FailureContext where
  previousTier := tier
  previousBackend := backend
  verifyReason := some (eng.redactSecrets reason)
  backendErrorClass := none
  responseExcerpt := some (eng.truncateExcerpt (eng.redactSecrets response) maxResponseExcerptBytes)

def fromBackendError (eng : Engines) (tier : Tier) (backend : String) (e : BackendError) :
    FailureContext where
  previousTier := tier
  previousBackend := backend
  verifyReason := none
  backendErrorClass := some (eng.redactSecrets (backendErrorClass e))
  responseExcerpt := none

/-- Names of the files that the strategies write, relative to the run directory. -/
def singleOutput : String := "attempts/0.txt"

def branchOutput (phase : String) (idx : ℕ) : String :=
  phase ++ "/attempts/" ++ idx.repr ++ "-parallel.txt"

def aggregatedOutput (phase : String) : String := phase ++ "/aggregated.txt"

def rungOutput (phase : String) (idx : ℕ) (tier : Tier) : String :=
  phase ++ "/attempts/" ++ (idx + 1).repr ++ "-" ++ tier.asStr ++ ".md"

end Texts

variable {B : Type} [RunFormat B] (eng : Engines) (inp : PhaseInputs)

section Execute

def renderPrompt (template : String) : Run B StrategyError String :=
  match eng.template template with
  | .ok rendered => pure rendered
  | .error e => throw (.promptRender e)

def writeText (path : Path) (text failure : String) : Run B StrategyError Unit := do
  match ← op (S := RunSig B) (.writeFile path (RunFormat.ofText text)) with
  | .ok () => pure ()
  | .error err =>
      throw (.backend (.executionFailed (failure ++ displayPath path ++ ": " ++ err)))

/-- One output file below the run directory with the directories above it. -/
def writeOutput (outputPath text parentFailure failure : String) : Run B StrategyError Unit := do
  let path := join inp.runDir outputPath
  match ← op (S := RunSig B) (.createDirAll path.dropLast) with
  | .ok () => writeText path text failure
  | .error err =>
      throw (.backend (.executionFailed (parentFailure ++ displayPath path.dropLast ++ ": " ++ err)))

def writeStrategyOutput (outputPath text : String) : Run B StrategyError Unit :=
  writeOutput inp outputPath text "failed to create output parent "
    "failed to write strategy output "

def writeBranchOutput (outputPath text : String) : Run B StrategyError Unit :=
  writeOutput inp outputPath text "failed to create branch output parent "
    "failed to write branch output "

def writeAggregateOutput (outputPath text : String) : Run B StrategyError Unit :=
  writeOutput inp outputPath text "failed to create aggregate output parent "
    "failed to write aggregate output to "

def findBackend (name : String) : Except StrategyError String :=
  match inp.backends.find? (· = name) with
  | some backend => .ok backend
  | none => .error (.backendNotFound name)

lemma findBackend_present {name : String} (h : name ∈ inp.backends) :
    findBackend inp name = .ok name := by
  have hthere : (inp.backends.find? (· = name)).isSome := by
    rw [List.find?_isSome]
    exact ⟨name, h, by simp⟩
  obtain ⟨b, hb⟩ := Option.isSome_iff_exists.mp hthere
  have hname : b = name := by simpa using List.find?_some hb
  rw [findBackend, hb, hname]

def nonempty (model : Option String) : Option String := model.filter (· ≠ "")

section Single

def singleSucceeded (backend stdout : String) : Run B StrategyError StrategyOutput := do
  writeStrategyOutput inp singleOutput stdout
  let attempt := ⟨none, backend, .stop, singleOutput, .skipped⟩
  pure ⟨.single, inp.phaseName, [attempt], none, none, none, none⟩

def singleModel (backend template : String) : Run B StrategyError StrategyOutput :=
  if inp.backends = [] then throw .noBackends
  else
    match findBackend inp backend with
    | .error e => throw e
    | .ok chosen => do
        let rendered ← renderPrompt eng template
        match ← op (S := RunSig B) (.query ⟨0, chosen, rendered, inp.promptModel⟩) with
        | .error e => throw (.backend e)
        | .ok stdout => singleSucceeded inp chosen stdout

end Single

section Parallel

structure FanState where
  attempts : List Attempt
  successes : ℕ
  branches : List BranchOutcome

variable (aggregator : AggregatorName)

def branchAttempt (target : TargetSpec) (idx : ℕ) (finish : FinishReason) : Attempt :=
  ⟨none, target.backend, finish, branchOutput inp.phaseName idx, .skipped⟩

def fanOutput (attempts : List Attempt) (verify : VerifyOutcome) : StrategyOutput :=
  ⟨.parallel, inp.phaseName, attempts, none, some aggregator,
    some (aggregatedOutput inp.phaseName), some verify⟩

/-- The error of the any-fail aggregator, with the offending attempt last. -/
def anyFailError (target : TargetSpec) (reason : String) (offender : Attempt)
    (attempts : List Attempt) : StrategyError :=
  .anyFail target.backend reason offender
    (fanOutput inp aggregator (attempts ++ [offender]) (.failed "Aggregator::AnyFail"))

def branchAccepted (target : TargetSpec) (idx : ℕ) (stdout : String) (st : FanState) : FanState where
  attempts := st.attempts ++ [branchAttempt inp target idx .stop]
  successes := st.successes + 1
  branches := st.branches ++ [.success target.backend (st.successes + 1) stdout]

def afterBranchWritten (target : TargetSpec) (idx : ℕ) (stdout : String) (st : FanState) :
    Except StrategyError FanState :=
  match aggregator, eng.anyFailEvaluate stdout with
  | .anyFail, .error reason =>
      .error (anyFailError inp aggregator target reason (branchAttempt inp target idx .stop)
        st.attempts)
  | _, _ => .ok (branchAccepted inp target idx stdout st)

def branchSucceeded (target : TargetSpec) (idx : ℕ) (stdout : String) (st : FanState) :
    Run B StrategyError FanState := do
  writeBranchOutput inp (branchOutput inp.phaseName idx) stdout
  match afterBranchWritten eng inp aggregator target idx stdout st with
  | .ok st => pure st
  | .error e => throw e

def branchFailed (target : TargetSpec) (idx : ℕ) (err : BackendError) (st : FanState) :
    Except StrategyError FanState :=
  let attempt := branchAttempt inp target idx .error
  if aggregator = .anyFail then
    .error (anyFailError inp aggregator target (backendErrorText err) attempt st.attempts)
  else
    let branch := .failure target.backend (st.attempts.length + 1) (backendErrorText err)
    .ok { st with attempts := st.attempts ++ [attempt], branches := st.branches ++ [branch] }

/-- These aggregators look at every branch. -/
def needsAll : AggregatorName → Bool
  | .anyFail | .vote | .allPass => true
  | _ => false

/-- The branches in the order in which they finish. -/
def collect (targets : List TargetSpec) (minResponses : ℕ) :
    ℕ → List Query → FanState → Run B StrategyError FanState
  | 0, _, st => pure st
  | left + 1, pending, st => do
      let (idx, result) ← op (S := RunSig B) (.race pending)
      let rest := pending.filter (·.index ≠ idx)
      match targets[idx]?, result with
      | none, _ => pure st
      | some target, .error err =>
          match branchFailed inp aggregator target idx err st with
          | .error e => throw e
          | .ok st => collect targets minResponses left rest st
      | some target, .ok stdout => do
          let st ← branchSucceeded eng inp aggregator target idx stdout st
          if needsAll aggregator = false ∧ st.successes ≥ minResponses then pure st
          else collect targets minResponses left rest st

def voteCollected (st : FanState) : Run B StrategyError StrategyOutput :=
  match eng.aggregateVote st.branches with
  | .error detail => throw (.phase detail)
  | .ok text => do
      writeAggregateOutput inp (aggregatedOutput inp.phaseName) text
      pure (fanOutput inp aggregator st.attempts (.passed "Vote"))

def fanFinished (minResponses : ℕ) (st : FanState) : Run B StrategyError StrategyOutput :=
  if aggregator = .anyFail then
    pure (fanOutput inp aggregator st.attempts (.passed "Aggregator::AnyFail"))
  else if st.successes < minResponses then
    throw (.floorViolation st.successes minResponses
      (fanOutput inp aggregator st.attempts .skipped))
  else if aggregator = .vote then voteCollected eng inp aggregator st
  else pure (fanOutput inp aggregator st.attempts .skipped)

def branchQuery (rendered : String) (target : TargetSpec × ℕ) : Except StrategyError Query :=
  (findBackend inp target.1.backend).map fun backend =>
    ⟨target.2, backend, rendered, (nonempty target.1.model).or (nonempty inp.promptModel)⟩

/-- The queries of all targets, in their order. -/
def branchQueries (rendered : String) (targets : List TargetSpec) :
    Except StrategyError (List Query) :=
  targets.zipIdx.mapM (branchQuery inp rendered)

def parallelFanOut (targets : List TargetSpec) (minResponses : ℕ) (template : String) :
    Run B StrategyError StrategyOutput :=
  if targets = [] ∨ inp.backends = [] then throw .noBackends
  else do
    let rendered ← renderPrompt eng template
    match branchQueries inp rendered targets with
    | .error e => throw e
    | .ok queries => do
        let st ← collect eng inp aggregator targets minResponses queries.length queries ⟨[], 0, []⟩
        fanFinished eng inp aggregator minResponses st

end Parallel

section Escalating

variable (hook : String) (passFailureContext : Bool)

def ladderOutput (attempts : List Attempt) (status : FinalStatus) : StrategyOutput :=
  ⟨.escalatingRetry, inp.phaseName, attempts, some status, none, none, none⟩

def rungPrompt (rendered : String) (idx : ℕ) (previous : Option FailureContext) : String :=
  match previous with
  | some failure =>
      if idx > 0 ∧ passFailureContext then
        eng.redactSecrets (eng.buildFailureEnvelope failure rendered)
      else rendered
  | none => rendered

/-- How a rung ends: the ladder's output, or one more attempt and what to tell the next rung. -/
inductive RungEnd where
  | passed
  | failed (verify : VerifyOutcome) (failure : FailureContext)

def judgeRung (rung : PhaseRung) (stdout : String) : Except String HookResult → RungEnd
  | .ok .pass => .passed
  | .ok (.fail summary) =>
      .failed (.failed hook) (fromVerifyFail eng rung.tier rung.backend summary stdout)
  | .ok .undecided =>
      .failed (.failed hook)
        (fromVerifyFail eng rung.tier rung.backend "verify did not pass" stdout)
  | .error message =>
      .failed (.failed hook) (fromVerifyFail eng rung.tier rung.backend message stdout)

def verifyRung (rung : PhaseRung) (stdout : String) : Run B StrategyError RungEnd := do
  let verdict ← op (S := RunSig B) (.verify stdout)
  pure (judgeRung eng hook rung stdout verdict)

def rungAnswered (rung : PhaseRung) (outputPath stdout : String) : Run B StrategyError RungEnd := do
  writeStrategyOutput inp outputPath stdout
  verifyRung eng hook rung stdout

def climb (rendered : String) :
    ℕ → List PhaseRung → List Attempt → Option FailureContext → Run B StrategyError StrategyOutput
  | _, [], attempts, _ => throw (.exhausted (ladderOutput inp attempts .exhausted))
  | idx, rung :: rungs, attempts, previous =>
      match findBackend inp rung.backend with
      | .error e => throw e
      | .ok backend => do
          let outputPath := rungOutput inp.phaseName idx rung.tier
          let prompt := rungPrompt eng passFailureContext rendered idx previous
          match ← op (S := RunSig B) (.query ⟨idx, backend, prompt, inp.promptModel⟩) with
          | .error err =>
              let attempt := ⟨some rung.tier, rung.backend, .error, outputPath, .skipped⟩
              let failure := fromBackendError eng rung.tier backend err
              climb rendered (idx + 1) rungs (attempts ++ [attempt])
                (if passFailureContext then some failure else none)
          | .ok stdout => do
              match ← rungAnswered eng inp hook rung outputPath stdout with
              | .passed =>
                  let attempt := ⟨some rung.tier, backend, .stop, outputPath, .passed hook⟩
                  pure (ladderOutput inp (attempts ++ [attempt]) .succeeded)
              | .failed verify failure =>
                  let attempt := ⟨some rung.tier, backend, .stop, outputPath, verify⟩
                  climb rendered (idx + 1) rungs (attempts ++ [attempt])
                    (if passFailureContext then some failure else none)

def escalatingRetry (rungs : List PhaseRung) (template : String) :
    Run B StrategyError StrategyOutput :=
  if rungs = [] ∨ inp.backends = [] then throw .noBackends
  else do
    let rendered ← renderPrompt eng template
    climb eng inp hook passFailureContext rendered 0 rungs [] none

end Escalating

def execute : Strategy String → Run B StrategyError StrategyOutput
  | .singleModel backend template => singleModel eng inp backend template
  | .parallelFanOut targets minResponses template aggregator =>
      parallelFanOut eng inp aggregator targets minResponses template
  | .escalatingRetry rungs template hook passFailureContext =>
      escalatingRetry eng inp hook passFailureContext rungs template

end Execute

section Emitted

/-- The files a strategy may write for a phase, relative to the run directory. -/
def OutputName (phase : String) : Strategy String → String → Prop
  | .singleModel _ _, name => name = singleOutput
  | .parallelFanOut targets _ _ aggregator, name =>
      (aggregator = .vote ∧ name = aggregatedOutput phase) ∨
        ∃ idx < targets.length, name = branchOutput phase idx
  | .escalatingRetry rungs _ _ _, name => ∃ idx < rungs.length, ∃ tier, name = rungOutput phase idx tier

lemma join_branchOutput {runDir : Path} {phase : String} (h : IsName phase) (idx : ℕ) :
    join runDir (branchOutput phase idx) =
      runDir ++ [phase, "attempts", idx.repr ++ "-parallel.txt"] := by
  have hname : IsName (idx.repr ++ "-parallel.txt") :=
    isName_append (slash_not_mem_repr idx) (by decide) (by decide)
  have hhead : (idx.repr ++ "-parallel.txt").toList.head? ≠ some '/' :=
    fun hslash => hname.no_slash (List.mem_of_mem_head? hslash)
  have hsplit : branchOutput phase idx =
      phase ++ "/" ++ ("attempts" ++ "/" ++ (idx.repr ++ "-parallel.txt")) := by
    simp [branchOutput, ← String.toList_inj]
  rw [hsplit, join_append h (by simp), join_append (by decide) hhead, join_of_isName hname]
  simp

lemma join_aggregatedOutput {runDir : Path} {phase : String} (h : IsName phase) :
    join runDir (aggregatedOutput phase) = runDir ++ [phase, "aggregated.txt"] := by
  have hsplit : aggregatedOutput phase = phase ++ "/" ++ "aggregated.txt" := by
    simp [aggregatedOutput, ← String.toList_inj]
  rw [hsplit, join_append h (by decide), join_of_isName (by decide)]
  simp

lemma join_rungOutput {runDir : Path} {phase : String} (h : IsName phase) (idx : ℕ) (tier : Tier) :
    join runDir (rungOutput phase idx tier) =
      runDir ++ [phase, "attempts", (idx + 1).repr ++ "-" ++ tier.asStr ++ ".md"] := by
  have htier : '/' ∉ tier.asStr.toList := by cases tier <;> decide
  have hname : IsName ((idx + 1).repr ++ "-" ++ tier.asStr ++ ".md") :=
    isName_append (by simpa [htier] using slash_not_mem_repr (idx + 1)) (by decide) (by decide)
  have hhead : ((idx + 1).repr ++ "-" ++ tier.asStr ++ ".md").toList.head? ≠ some '/' :=
    fun hslash => hname.no_slash (List.mem_of_mem_head? hslash)
  have hsplit : rungOutput phase idx tier =
      phase ++ "/" ++ ("attempts" ++ "/" ++ ((idx + 1).repr ++ "-" ++ tier.asStr ++ ".md")) := by
    simp [rungOutput, ← String.toList_inj]
  rw [hsplit, join_append h (by simp), join_append (by decide) hhead, join_of_isName hname]
  simp

/-- Where the outputs of a phase are. -/
lemma join_outputName {runDir : Path} {phase name : String} {strategy : Strategy String}
    (hphase : IsName phase) (h : OutputName phase strategy name) :
    join runDir name = runDir ++ ["attempts", "0.txt"] ∨
      join runDir name = runDir ++ [phase, "aggregated.txt"] ∨
      ∃ s, join runDir name = runDir ++ [phase, "attempts", s] := by
  cases strategy with
  | singleModel backend template =>
      obtain rfl : name = singleOutput := h
      refine Or.inl ?_
      rw [singleOutput, show "attempts/0.txt" = "attempts" ++ "/" ++ "0.txt" from rfl,
        join_append (by decide) (by decide), join_of_isName (by decide)]
      simp
  | parallelFanOut targets minResponses template aggregator =>
      rcases h with ⟨_, rfl⟩ | ⟨idx, _, rfl⟩
      · exact Or.inr (Or.inl (join_aggregatedOutput hphase))
      · exact Or.inr (Or.inr ⟨_, join_branchOutput hphase idx⟩)
  | escalatingRetry rungs template hook passFailureContext =>
      obtain ⟨idx, _, tier, rfl⟩ := h
      exact Or.inr (Or.inr ⟨_, join_rungOutput hphase idx tier⟩)

/-- The prompts a strategy may send: its template as the engine renders it, or on a ladder that
passes failures on whatever the failure makes of it. -/
def Sends (eng : Engines) (prompt : String) : Strategy String → Prop
  | .singleModel _ template => eng.template template = .ok prompt
  | .parallelFanOut _ _ template _ => eng.template template = .ok prompt
  | .escalatingRetry _ template _ passFailureContext =>
      passFailureContext = true ∨ eng.template template = .ok prompt

/-- A strategy writes its outputs, sends its prompt and calls its hook, and does nothing else. -/
def StrategyOp (inp : PhaseInputs) (outputs sends : String → Prop) : Op B → Prop
  | .createDirAll p => ∃ name, outputs name ∧ p = (join inp.runDir name).dropLast
  | .writeFile p _ => ∃ name, outputs name ∧ p = join inp.runDir name
  | .query q => sends q.prompt
  | .race pending => ∀ q ∈ pending, sends q.prompt
  | .verify _ => True
  | _ => False

variable {eng inp} {outputs sends : String → Prop}

lemma writeOutput_emits {name text parentFailure failure : String}
    (hname : outputs name) :
    Emits (StrategyOp inp outputs sends)
      (writeOutput inp name text parentFailure failure : Run B StrategyError Unit) := by
  refine Emits.exceptBind (Emits.op ⟨name, hname, rfl⟩) fun r => ?_
  cases r with
  | error err => exact Emits.throw _
  | ok _ =>
      refine Emits.exceptBind (Emits.op ⟨name, hname, rfl⟩) fun r => ?_
      cases r with
      | error err => exact Emits.throw _
      | ok _ => exact Emits.pure _

omit [RunFormat B] in
lemma emits_renderPrompt {template : String} {ρ : Type} {f : String → Run B StrategyError ρ}
    (hf : ∀ rendered, eng.template template = .ok rendered →
      Emits (StrategyOp inp outputs sends) (f rendered)) :
    Emits (StrategyOp inp outputs sends)
      (renderPrompt eng template >>= f : Run B StrategyError ρ) := by
  unfold renderPrompt
  cases hrender : eng.template template with
  | error e => trivial
  | ok rendered => exact hf rendered hrender

lemma singleModel_emits {backend template : String} (hname : outputs singleOutput)
    (hsends : ∀ prompt, eng.template template = .ok prompt → sends prompt) :
    Emits (StrategyOp inp outputs sends)
      (singleModel eng inp backend template : Run B StrategyError StrategyOutput) := by
  unfold singleModel
  split
  · exact Emits.throw _
  split
  · exact Emits.throw _
  refine emits_renderPrompt fun rendered hrender => ?_
  refine Emits.exceptBind (Emits.op (hsends rendered hrender)) fun r => ?_
  cases r with
  | error e => exact Emits.throw _
  | ok stdout =>
      refine Emits.exceptBind (writeOutput_emits hname) fun _ => ?_
      exact Emits.pure _

lemma collect_emits {aggregator : AggregatorName} {targets : List TargetSpec}
    {minResponses : ℕ} (left : ℕ) (pending : List Query) (st : FanState)
    (hnames : ∀ idx < targets.length, outputs (branchOutput inp.phaseName idx))
    (hpending : ∀ q ∈ pending, sends q.prompt) :
    Emits (StrategyOp inp outputs sends)
      (collect eng inp aggregator targets minResponses left pending st :
        Run B StrategyError FanState) := by
  induction left generalizing pending st with
  | zero => exact Emits.pure _
  | succ left ih =>
      refine Emits.exceptBind (Emits.op hpending) fun r => ?_
      obtain ⟨idx, result⟩ := r
      have hrest : ∀ q ∈ pending.filter (·.index ≠ idx), sends q.prompt :=
        fun q hq => hpending q (List.mem_of_mem_filter hq)
      dsimp only
      split
      · exact Emits.pure _
      · split
        · exact Emits.throw _
        · exact ih _ _ hrest
      · next target stdout htarget =>
        have hidx := (List.getElem?_eq_some_iff.mp htarget).1
        refine Emits.exceptBind ?_ fun st => ?_
        · refine Emits.exceptBind (writeOutput_emits (hnames idx hidx)) fun _ => ?_
          split
          · exact Emits.pure _
          · exact Emits.throw _
        · split
          · exact Emits.pure _
          · exact ih _ _ hrest

lemma fanFinished_emits {aggregator : AggregatorName} {minResponses : ℕ} {st : FanState}
    (hname : aggregator = .vote → outputs (aggregatedOutput inp.phaseName)) :
    Emits (StrategyOp inp outputs sends)
      (fanFinished eng inp aggregator minResponses st : Run B StrategyError StrategyOutput) := by
  unfold fanFinished
  split
  · exact Emits.pure _
  split
  · exact Emits.throw _
  split
  · next hvote =>
    unfold voteCollected
    split
    · exact Emits.throw _
    · refine Emits.exceptBind (writeOutput_emits (hname hvote)) fun _ => ?_
      exact Emits.pure _
  · exact Emits.pure _

lemma branchQuery_prompt {rendered : String} {target : TargetSpec × ℕ} {q : Query}
    (h : branchQuery inp rendered target = .ok q) : q.prompt = rendered := by
  unfold branchQuery at h
  cases hfind : findBackend inp target.1.backend with
  | error e =>
      rw [hfind] at h
      cases h
  | ok backend =>
      rw [hfind] at h
      cases h
      rfl

lemma branchQueries_prompt {rendered : String} {targets : List TargetSpec}
    {queries : List Query} (h : branchQueries inp rendered targets = .ok queries) :
    ∀ q ∈ queries, q.prompt = rendered := by
  unfold branchQueries at h
  generalize targets.zipIdx = xs at h
  induction xs generalizing queries with
  | nil =>
      cases h
      simp
  | cons x xs ih =>
      obtain ⟨q, rest, hfirst, hrest, rfl⟩ := mapM_cons_eq_ok.mp h
      exact List.forall_mem_cons.mpr ⟨branchQuery_prompt hfirst, ih hrest⟩

lemma parallelFanOut_emits {aggregator : AggregatorName} {targets : List TargetSpec}
    {minResponses : ℕ} {template : String}
    (hnames : ∀ idx < targets.length, outputs (branchOutput inp.phaseName idx))
    (hvote : aggregator = .vote → outputs (aggregatedOutput inp.phaseName))
    (hsends : ∀ prompt, eng.template template = .ok prompt → sends prompt) :
    Emits (StrategyOp inp outputs sends) (parallelFanOut eng inp aggregator targets minResponses template :
      Run B StrategyError StrategyOutput) := by
  unfold parallelFanOut
  split
  · exact Emits.throw _
  refine emits_renderPrompt fun rendered hrender => ?_
  split
  · exact Emits.throw _
  · next queries hqueries =>
    refine Emits.exceptBind (collect_emits _ _ _ hnames fun q hq => ?_)
      fun _ => fanFinished_emits hvote
    rw [branchQueries_prompt hqueries q hq]
    exact hsends rendered hrender

lemma rungAnswered_emits {hook : String} {rung : PhaseRung} {name stdout : String}
    (hname : outputs name) :
    Emits (StrategyOp inp outputs sends)
      (rungAnswered eng inp hook rung name stdout : Run B StrategyError RungEnd) := by
  refine Emits.exceptBind (writeOutput_emits hname) fun _ => ?_
  refine Emits.exceptBind (Emits.op trivial) fun _ => ?_
  exact Emits.pure _

/-- Induction on the rungs that are left. -/
lemma climb_emits {hook : String} {passFailureContext : Bool} {rendered : String} (idx : ℕ)
    (rungs : List PhaseRung) (attempts : List Attempt) (previous : Option FailureContext)
    (hnames : ∀ i < rungs.length, ∀ tier, outputs (rungOutput inp.phaseName (idx + i) tier))
    (hsends : ∀ idx previous,
      sends (rungPrompt eng passFailureContext rendered idx previous)) :
    Emits (StrategyOp inp outputs sends)
      (climb eng inp hook passFailureContext rendered idx rungs attempts previous :
        Run B StrategyError StrategyOutput) := by
  induction rungs generalizing idx attempts previous with
  | nil => exact Emits.throw _
  | cons rung rungs ih =>
      unfold climb
      split
      · exact Emits.throw _
      have hrest : ∀ i < rungs.length, ∀ tier,
          outputs (rungOutput inp.phaseName (idx + 1 + i) tier) := by
        intro i hi tier
        rw [Nat.add_assoc, Nat.add_comm 1 i]
        exact hnames (i + 1) (by simpa using hi) tier
      refine Emits.exceptBind (Emits.op (hsends idx previous)) fun r => ?_
      cases r with
      | error err => exact ih _ _ _ hrest
      | ok stdout =>
          refine Emits.exceptBind (rungAnswered_emits (hnames 0 (by simp) _)) fun r => ?_
          cases r with
          | passed => exact Emits.pure _
          | failed verify failure => exact ih _ _ _ hrest

lemma escalatingRetry_emits {hook : String} {passFailureContext : Bool}
    {rungs : List PhaseRung} {template : String}
    (hnames : ∀ idx < rungs.length, ∀ tier, outputs (rungOutput inp.phaseName idx tier))
    (hsends : ∀ prompt,
      passFailureContext = true ∨ eng.template template = .ok prompt → sends prompt) :
    Emits (StrategyOp inp outputs sends) (escalatingRetry eng inp hook passFailureContext rungs template :
      Run B StrategyError StrategyOutput) := by
  unfold escalatingRetry
  split
  · exact Emits.throw _
  refine emits_renderPrompt fun rendered hrender => ?_
  refine climb_emits _ _ _ _ (by simpa using hnames) fun idx previous => hsends _ ?_
  unfold rungPrompt
  cases passFailureContext with
  | true => exact Or.inl rfl
  | false =>
      right
      split
      · simpa using hrender
      · exact hrender

/-- What any strategy does in one phase run. -/
theorem execute_emits (strategy : Strategy String) :
    Emits (StrategyOp inp (OutputName inp.phaseName strategy) fun prompt =>
        Sends eng prompt strategy)
      (execute eng inp strategy : Run B StrategyError StrategyOutput) := by
  cases strategy with
  | singleModel backend template => exact singleModel_emits rfl fun _ h => h
  | parallelFanOut targets minResponses template aggregator =>
      exact parallelFanOut_emits (fun idx hidx => Or.inr ⟨idx, hidx, rfl⟩)
        (fun hvote => Or.inl ⟨hvote, rfl⟩) fun _ h => h
  | escalatingRetry rungs template hook passFailureContext =>
      exact escalatingRetry_emits (fun idx hidx tier => ⟨idx, hidx, tier, rfl⟩) fun _ h => h

end Emitted

end Loker.Strategies
