import Loker.Strategies

/-! One run of a phase: its started markers, the strategy, the canonical output, the verify
hook, and either the commit of the artefact or the record of the failure. -/

namespace Loker.PhaseRunner

open FileTree Programs RunFiles RunLoad RunOps Dispatch Strategies

inductive PhaseError where
  | invalidConfig (message : String)
  | strategyFailed (e : StrategyError)
  | verifyHook (message : String)
  | verifyFailed (phase : String) (attempt : ℕ) (result : HookResult)
  | phaseFailed (phase message : String)
  | aggregator (detail : String)
  | manifest (e : ManifestError)
  | marker (message : String)
  | io (message : String)
  | panicked (message : String)
  deriving DecidableEq, Repr

def errorClass : PhaseError → String
  | .strategyFailed _ => "strategy_failed"
  | .verifyHook _ | .verifyFailed _ _ _ => "verify_failed"
  | .aggregator _ => "aggregator_failed"
  | .manifest _ => "manifest_failed"
  | .marker _ => "marker_failed"
  | .io _ => "io_failed"
  | .invalidConfig _ | .phaseFailed _ _ | .panicked _ => "phase_failed"

structure PhaseOutcome where
  artefactPath : Path
  manifestEntry : ManifestEntry
  strategyOutput : StrategyOutput
  verify : Option HookResult
  deriving DecidableEq, Repr

variable {B : Type} [RunFormat B]

section Persist

variable {ε : Type}

/-- A file operation whose error ends the program. -/
def orThrow (wrap : String → ε) (answer : Except String Unit) : Run B ε Unit :=
  match answer with
  | .ok () => pure ()
  | .error e => throw (wrap e)

def createDirOr (wrap : String → ε) (p : Path) : Run B ε Unit := do
  let answer ← op (S := RunSig B) (.createDirAll p)
  orThrow wrap answer

def writeFileOr (wrap : String → ε) (p : Path) (bytes : B) : Run B ε Unit := do
  let answer ← op (S := RunSig B) (.writeFile p bytes)
  orThrow wrap answer

def writeMarker (runDir : Path) (m : Marker) : Run B PhaseError Unit := do
  createDirOr .marker (markersDir runDir)
  let answer ← op (S := RunSig B) (.writeMarker runDir m)
  orThrow .marker answer

def startAttempt (runDir : Path) (phase : String) (attempt : ℕ) : Run B PhaseError Unit :=
  writeMarker runDir (.started ⟨phase, attempt⟩)

/-- The directory above a path string, before `..` is resolved in its last component. -/
def parentOf (base : Path) (name : String) : Path :=
  let start := if name.toList.head? = some '/' then [] else base
  match normalComponents name with
  | [] => start.dropLast
  | names => names.dropLast.foldl descend start

/-- `atomic_write` to a path string, which must name a file. -/
def atomicWrite (base : Path) (name : String) (bytes : B) : Run B PhaseError Unit :=
  if namesDirectory name then throw (.io "not a file")
  else writeFileOr .io (join base name) bytes

def fromPayload (cfg : PhaseConfig) (attempt : ℕ) (bytes : B) : ManifestEntry where
  name := cfg.artefactName
  kind := cfg.artefactKind
  schemaVersion := 1
  sha256 := RunFormat.sha256Hex bytes
  producer := cfg.producer
  phase := some cfg.phase
  attempt := some attempt

def loadManifestOr (runDir : Path) : Run B PhaseError Manifest := do
  match ← op (S := RunSig B) (.loadManifest runDir) with
  | .ok manifest => pure manifest
  | .error e => throw (.manifest e)

def loadOrNew (runDir : Path) (runId : String) : Run B PhaseError Manifest := do
  let there : Bool ← op (S := RunSig B) (.occupied (manifestPath runDir))
  if there then loadManifestOr runDir else pure (Manifest.new runId none)

def append (runDir : Path) (manifest : Manifest) (entry : ManifestEntry) :
    Run B PhaseError Unit := do
  let answer ← op (S := RunSig B)
    (.writeManifest runDir { manifest with entries := manifest.entries ++ [entry] })
  orThrow (fun _ => .manifest .io) answer

def commitSuccess (runDir : Path) (cfg : PhaseConfig) (bytes : B) (attempt : ℕ)
    (runId : String) : Run B PhaseError ManifestEntry := do
  createDirOr .io runDir
  createDirOr .io (parentOf runDir cfg.artefactName)
  atomicWrite runDir cfg.artefactName bytes
  let entry := fromPayload cfg attempt bytes
  let manifest ← loadOrNew runDir runId
  append runDir manifest entry
  pure entry

def archivePath (runDir : Path) (phase : String) (attempt : ℕ) : Path :=
  join (join (runDir ++ ["attempts"]) phase) attempt.repr

def failureSummary (cfg : PhaseConfig) (attempt : ℕ) (errorClass : String) : FailureSummary :=
  ⟨cfg.phase, attempt, errorClass⟩

def recordTerminalFailure (runDir : Path) (cfg : PhaseConfig) (attemptsMade : ℕ)
    (errorClass : String) : Run B PhaseError Unit := do
  let lastAttempt := attemptsMade - 1
  let archive := archivePath runDir cfg.phase lastAttempt
  createDirOr .io archive
  atomicWrite archive "failure-summary.json"
    (RunFormat.ofSummary (failureSummary cfg lastAttempt errorClass))
  writeMarker runDir (.failed ⟨cfg.phase, attemptsMade, errorClass, displayPath archive⟩)

/-- An error of the program is only reported. -/
def quietly (p : Run B PhaseError Unit) : Run B PhaseError Unit :=
  ExceptT.mk (ExceptT.run p >>= fun _ => pure (.ok ()))

/-- The failure is recorded and returned. -/
def failWith {ρ : Type} (runDir : Path) (cfg : PhaseConfig) (attemptsMade : ℕ) (e : PhaseError) :
    Run B PhaseError ρ := do
  quietly (recordTerminalFailure runDir cfg attemptsMade (errorClass e))
  throw e

end Persist

section Canonical

def succeeded (a : Attempt) : Bool := a.finishReason ≠ .error

def winning (a : Attempt) : Bool := succeeded a && a.verify.status ≠ .fail

def lastWinning (attempts : List Attempt) : Option (Attempt × ℕ) :=
  attempts.zipIdx.reverse.find? fun x => winning x.1

def selectedAttemptIndex (output : StrategyOutput) : ℕ :=
  ((lastWinning output.attempts).map (·.2)).getD 0

def readOr (p : Path) : Run B PhaseError B := do
  match ← op (S := RunSig B) (.readFile p) with
  | .ok bytes => pure bytes
  | .error e => throw (.io e)

/-- An absolute path is kept. -/
def resolveOutputPath (runDir : Path) (path : String) : Path := join runDir path

def attemptBytes (runDir : Path) (output : StrategyOutput) (chosen : Option (Attempt × ℕ)) :
    Run B PhaseError (B × ℕ) :=
  match chosen with
  | none => throw (.phaseFailed output.phase "no successful attempts")
  | some (attempt, idx) => do
      let bytes ← readOr (resolveOutputPath runDir attempt.outputPath)
      pure (bytes, idx)

def firstSuccessBytes (runDir : Path) (output : StrategyOutput) : Run B PhaseError (B × ℕ) :=
  attemptBytes runDir output (output.attempts.zipIdx.find? fun x => succeeded x.1)

def winningSuccessBytes (runDir : Path) (output : StrategyOutput) : Run B PhaseError (B × ℕ) :=
  attemptBytes runDir output (lastWinning output.attempts)

def readBranch (runDir : Path) (x : Attempt × ℕ) : Run B PhaseError BranchOutcome :=
  if succeeded x.1 then do
    let bytes : B ← readOr (resolveOutputPath runDir x.1.outputPath)
    match RunFormat.toText bytes with
    | some text => pure (.success x.1.backend (x.2 + 1) text)
    | none => throw (.io "stream did not contain valid UTF-8")
  else pure (.failure x.1.backend (x.2 + 1) "backend error")

def readBranches (runDir : Path) : List (Attempt × ℕ) → Run B PhaseError (List BranchOutcome)
  | [] => pure []
  | x :: xs => do
      let branch ← readBranch runDir x
      let branches ← readBranches runDir xs
      pure (branch :: branches)

def aggregateAttempts (eng : Engines) (runDir : Path) (output : StrategyOutput)
    (aggregator : AggregatorName) : Run B PhaseError (B × ℕ) := do
  let branches ← readBranches runDir output.attempts.zipIdx
  match eng.aggregate aggregator branches with
  | .ok text => pure (RunFormat.ofText text, selectedAttemptIndex output)
  | .error detail => throw (.aggregator detail)

def aggregatedBytes (eng : Engines) (runDir : Path) (output : StrategyOutput) :
    AggregatorName → Run B PhaseError (B × ℕ)
  | .first => winningSuccessBytes runDir output
  | .concat => aggregateAttempts eng runDir output .concat
  | .allPass => aggregateAttempts eng runDir output .allPass
  | .anyFail => firstSuccessBytes runDir output
  | .vote => firstSuccessBytes runDir output

def readAggregated (output : StrategyOutput) (path : Path) :
    Run B PhaseError (B × ℕ) := do
  let bytes ← readOr path
  pure (bytes, selectedAttemptIndex output)

/-- The bytes of the artefact and the attempt they come from. -/
def canonicalBytes (eng : Engines) (runDir : Path) (output : StrategyOutput)
    (aggregator : AggregatorName) : Run B PhaseError (B × ℕ) :=
  match output.aggregateOutputPath with
  | none => aggregatedBytes eng runDir output aggregator
  | some path => do
      let there : Bool ← op (S := RunSig B) (.isFile (resolveOutputPath runDir path))
      if there then readAggregated output (resolveOutputPath runDir path)
      else aggregatedBytes eng runDir output aggregator

end Canonical

section Run

variable (eng : Engines) (cfg : PhaseConfig) (inp : PhaseInputs) (initialAttempt : ℕ)

def dispatchError : DispatchError → PhaseError
  | .invalidConfig message => .invalidConfig message
  | .assertionFailed message => .panicked message

def dispatched {ρ : Type} : Except DispatchError ρ → Run B PhaseError ρ
  | .ok r => pure r
  | .error e => throw (dispatchError e)

def strategyError : StrategyError → PhaseError
  | .anyFail _ reason _ _ => .aggregator ("one or more branches failed: " ++ reason)
  | e => .strategyFailed e

/-- The strategy's error as a value. -/
def attemptStrategy (strategy : Strategy String) :
    Run B PhaseError (Except StrategyError StrategyOutput) :=
  ExceptT.mk (ExceptT.run (execute eng inp strategy) >>= fun r => pure (.ok r))

def runStrategy (strategy : Strategy String) : Run B PhaseError StrategyOutput := do
  match ← attemptStrategy eng inp strategy with
  | .ok output => pure output
  | .error e => failWith inp.runDir cfg (initialAttempt + 1) (strategyError e)

/-- The started markers of the attempts after the first one. -/
def startAttempts : List ℕ → Run B PhaseError Unit
  | [] => pure ()
  | i :: is => do
      startAttempt inp.runDir cfg.phase (initialAttempt + i)
      startAttempts is

def attemptsMade (output : StrategyOutput) : ℕ :=
  initialAttempt + max output.attempts.length 1

/-- An error of the canonical output as a value. -/
def attemptCanonical (output : StrategyOutput) : Run B PhaseError (Except PhaseError (B × ℕ)) :=
  ExceptT.mk (ExceptT.run (canonicalBytes eng inp.runDir output cfg.aggregator) >>=
    fun r => pure (.ok r))

def runCanonical (output : StrategyOutput) : Run B PhaseError (B × ℕ) := do
  match ← attemptCanonical eng cfg inp output with
  | .ok chosen => pure chosen
  | .error e => failWith inp.runDir cfg (attemptsMade initialAttempt output) e

def verifyHookDebug : VerifyHookName → String
  | .none => "None"
  | .runCommand => "RunCommand"
  | .llmVerifier => "LlmVerifier"
  | .humanVerifier => "HumanVerifier"

/-- A phase with a human verifier brings its own hook. -/
def resolveVerifyHook : Except PhaseError Unit :=
  match cfg.verify, inp.verify with
  | .humanVerifier, _ => .ok ()
  | _, some _ => .ok ()
  | name, none =>
      .error (.invalidConfig ("verify hook " ++ verifyHookDebug name ++
        " requires PhaseInputs::verify"))

def callHook (bytes : B) : Run B PhaseError HookResult := do
  match ← op (S := RunSig B) (.verify (RunFormat.toTextLossy bytes)) with
  | .ok result => pure result
  | .error message => throw (.verifyHook message)

def judge (output : StrategyOutput) (selected : ℕ) (bytes : B) :
    Run B PhaseError (Option HookResult) := do
  let result ← callHook bytes
  if result = .pass then pure (some result)
  else
    failWith inp.runDir cfg (attemptsMade initialAttempt output)
      (.verifyFailed cfg.phase selected result)

def runVerify (output : StrategyOutput) (selected : ℕ) (bytes : B) :
    Run B PhaseError (Option HookResult) :=
  if cfg.verify = .none then pure none
  else
    match resolveVerifyHook cfg inp with
    | .error e => throw e
    | .ok () => judge cfg inp initialAttempt output selected bytes

def commit (output : StrategyOutput) (verify : Option HookResult) (bytes : B) (attempt : ℕ) :
    Run B PhaseError PhaseOutcome := do
  let entry ← commitSuccess inp.runDir cfg bytes attempt inp.runId
  writeMarker inp.runDir (.completed ⟨cfg.phase, attempt, entry.sha256, [cfg.artefactName]⟩)
  pure ⟨join inp.runDir cfg.artefactName, entry, output, verify⟩

/-- Everything before the commit. -/
def attemptPhase : Run B PhaseError (StrategyOutput × Option HookResult × B × ℕ) := do
  dispatched (validateConfig cfg)
  startAttempt inp.runDir cfg.phase initialAttempt
  let strategy ← dispatched (resolveStrategy cfg inp.verify)
  let output ← runStrategy eng cfg inp initialAttempt strategy
  startAttempts cfg inp initialAttempt (List.range' 1 (output.attempts.length - 1))
  let (bytes, selected) ← runCanonical eng cfg inp initialAttempt output
  let verify ← runVerify cfg inp initialAttempt output selected bytes
  pure (output, verify, bytes, initialAttempt + selected)

def run : Run B PhaseError PhaseOutcome := do
  let (output, verify, bytes, attempt) ← attemptPhase eng cfg inp initialAttempt
  commit cfg inp output verify bytes attempt

end Run

section Emitted

/-- The files that the phase's strategy may write. -/
def PhaseOutputName (cfg : PhaseConfig) (inp : PhaseInputs) (name : String) : Prop :=
  ∃ strategy, resolveStrategy cfg inp.verify = .ok strategy ∧
    OutputName inp.phaseName strategy name

/-- What a phase run does before the commit: it writes its started markers and the strategy's
outputs and reads; one that fails writes its failed marker and a failure summary too. -/
def PhaseOp (cfg : PhaseConfig) (inp : PhaseInputs) (fails : Prop) : Op B → Prop
  | .createDirAll p => p = markersDir inp.runDir ∨
      (∃ name, PhaseOutputName cfg inp name ∧ p = (join inp.runDir name).dropLast) ∨
      fails ∧ ∃ n, p = archivePath inp.runDir cfg.phase n
  | .writeFile p _ => (∃ name, PhaseOutputName cfg inp name ∧ p = join inp.runDir name) ∨
      fails ∧ ∃ n, p = join (archivePath inp.runDir cfg.phase n) "failure-summary.json"
  | .writeMarker dir m => dir = inp.runDir ∧ m.phase = cfg.phase ∧
      ((∃ c, m = .started c) ∨ fails ∧ ∃ c, m = .failed c)
  | .readFile _ | .isFile _ | .query _ | .race _ | .verify _ => True
  | _ => False

variable {eng : Engines} {cfg : PhaseConfig} {inp : PhaseInputs} {ε ρ : Type} {fails : Prop}

omit [RunFormat B] in
lemma orThrow_emits {P : Op B → Prop} {wrap : String → ε} {answer : Except String Unit} :
    Emits P (orThrow wrap answer : Run B ε Unit) := by
  cases answer with
  | ok _ => exact Emits.pure _
  | error e => exact Emits.throw _

omit [RunFormat B] in
lemma createDirOr_emits {P : Op B → Prop} {wrap : String → ε} {p : Path}
    (h : P (.createDirAll p)) : Emits P (createDirOr wrap p : Run B ε Unit) :=
  Emits.exceptBind (Emits.op h) fun _ => orThrow_emits

omit [RunFormat B] in
lemma writeFileOr_emits {P : Op B → Prop} {wrap : String → ε} {p : Path} {bytes : B}
    (h : P (.writeFile p bytes)) : Emits P (writeFileOr wrap p bytes : Run B ε Unit) :=
  Emits.exceptBind (Emits.op h) fun _ => orThrow_emits

omit [RunFormat B] in
lemma writeMarker_emits {m : Marker} (hphase : m.phase = cfg.phase)
    (hm : (∃ c, m = .started c) ∨ fails ∧ ∃ c, m = .failed c) :
    Emits (PhaseOp cfg inp fails) (writeMarker inp.runDir m : Run B PhaseError Unit) :=
  Emits.exceptBind (createDirOr_emits (Or.inl rfl)) fun _ =>
    Emits.exceptBind (Emits.op ⟨rfl, hphase, hm⟩) fun _ => orThrow_emits

omit [RunFormat B] in
lemma startAttempt_emits {attempt : ℕ} :
    Emits (PhaseOp (B := B) cfg inp fails) (startAttempt inp.runDir cfg.phase attempt) :=
  writeMarker_emits rfl (Or.inl ⟨_, rfl⟩)

lemma failWith_emits {attemptsMade : ℕ} {e : PhaseError} (hfails : fails) :
    Emits (PhaseOp cfg inp fails) (failWith inp.runDir cfg attemptsMade e : Run B PhaseError ρ) := by
  refine Emits.exceptBind ?_ fun _ => Emits.throw _
  refine Emits.bind (p := recordTerminalFailure inp.runDir cfg attemptsMade (errorClass e)) ?_
    fun _ => trivial
  refine Emits.exceptBind (createDirOr_emits (Or.inr (Or.inr ⟨hfails, _, rfl⟩))) fun _ => ?_
  refine Emits.exceptBind ?_ fun _ => writeMarker_emits rfl (Or.inr ⟨hfails, _, rfl⟩)
  unfold atomicWrite
  split
  · exact Emits.throw _
  · exact writeFileOr_emits (Or.inr ⟨hfails, _, rfl⟩)

lemma failWith_achieves {sem : Semantics (RunSig B) (World B)} {post : ρ → World B → Prop}
    {runDir : Path} {attemptsMade : ℕ} {e : PhaseError} {w : World B} :
    Achieves sem post (failWith runDir cfg attemptsMade e : Run B PhaseError ρ) w :=
  Achieves.bind fun _ _ _ _ => Achieves.throw

section Asked

variable {P : Op B → Prop}

omit [RunFormat B] in
lemma readOr_emits (hread : ∀ q, P (.readFile q)) {p : Path} :
    Emits P (readOr p : Run B PhaseError B) := by
  refine Emits.exceptBind (Emits.op (hread p)) fun r => ?_
  cases r with
  | ok bytes => exact Emits.pure _
  | error e => exact Emits.throw _

omit [RunFormat B] in
lemma attemptBytes_emits (hread : ∀ q, P (.readFile q)) {runDir : Path} {output : StrategyOutput}
    {chosen : Option (Attempt × ℕ)} :
    Emits P (attemptBytes runDir output chosen : Run B PhaseError (B × ℕ)) := by
  cases chosen with
  | none => exact Emits.throw _
  | some x => exact Emits.exceptBind (readOr_emits hread) fun _ => Emits.pure _

lemma readBranches_emits (hread : ∀ q, P (.readFile q)) {runDir : Path} (xs : List (Attempt × ℕ)) :
    Emits P (readBranches runDir xs) := by
  induction xs with
  | nil => exact Emits.pure _
  | cons x xs ih =>
      refine Emits.exceptBind ?_ fun _ => Emits.exceptBind ih fun _ => Emits.pure _
      unfold readBranch
      split
      · refine Emits.exceptBind (readOr_emits hread) fun bytes => ?_
        split
        · exact Emits.pure _
        · exact Emits.throw _
      · exact Emits.pure _

lemma aggregatedBytes_emits (hread : ∀ q, P (.readFile q)) {runDir : Path}
    {output : StrategyOutput} (aggregator : AggregatorName) :
    Emits P (aggregatedBytes eng runDir output aggregator : Run B PhaseError (B × ℕ)) := by
  have hattempts : ∀ name,
      Emits P (aggregateAttempts eng runDir output name : Run B PhaseError (B × ℕ)) := by
    intro name
    refine Emits.exceptBind (readBranches_emits hread _) fun branches => ?_
    split
    · exact Emits.pure _
    · exact Emits.throw _
  cases aggregator with
  | first => exact attemptBytes_emits hread
  | concat => exact hattempts .concat
  | allPass => exact hattempts .allPass
  | anyFail => exact attemptBytes_emits hread
  | vote => exact attemptBytes_emits hread

/-- Finding the artefact's bytes only looks at files. -/
lemma canonicalBytes_emits (hread : ∀ q, P (.readFile q)) (hfile : ∀ q, P (.isFile q))
    {runDir : Path} {output : StrategyOutput} {aggregator : AggregatorName} :
    Emits P (canonicalBytes eng runDir output aggregator : Run B PhaseError (B × ℕ)) := by
  unfold canonicalBytes
  split
  · exact aggregatedBytes_emits hread _
  · refine Emits.exceptBind (Emits.op (hfile _)) fun there => ?_
    split
    · exact Emits.exceptBind (readOr_emits hread) fun _ => Emits.pure _
    · exact aggregatedBytes_emits hread _

lemma callHook_emits (hverify : ∀ text, P (.verify text)) {bytes : B} :
    Emits P (callHook bytes) := by
  refine Emits.exceptBind (Emits.op (hverify _)) fun r => ?_
  cases r with
  | ok result => exact Emits.pure _
  | error message => exact Emits.throw _

omit [RunFormat B] in
/-- Each further attempt has its started marker. -/
lemma marks_emits {initialAttempt : ℕ} {is : List ℕ} (hdir : P (.createDirAll (markersDir inp.runDir)))
    (hmark : ∀ i ∈ is, P (.writeMarker inp.runDir (.started ⟨cfg.phase, initialAttempt + i⟩))) :
    Emits P (startAttempts cfg inp initialAttempt is) := by
  induction is with
  | nil => exact Emits.pure _
  | cons i is ih =>
      refine Emits.exceptBind ?_ fun _ => ih fun j hj => hmark j (List.mem_cons_of_mem _ hj)
      refine Emits.exceptBind (createDirOr_emits hdir) fun _ => ?_
      exact Emits.exceptBind (Emits.op (hmark i List.mem_cons_self)) fun _ => orThrow_emits

end Asked

lemma execute_phaseOp {strategy : Strategy String}
    (hstrategy : resolveStrategy cfg inp.verify = .ok strategy) :
    Emits (PhaseOp cfg inp fails)
      (execute eng inp strategy : Run B StrategyError StrategyOutput) := by
  refine Emits.mono (execute_emits strategy) fun o ho => ?_
  cases o with
  | createDirAll p =>
      obtain ⟨name, hname, rfl⟩ := ho
      exact Or.inr (Or.inl ⟨name, ⟨strategy, hstrategy, hname⟩, rfl⟩)
  | writeFile p b =>
      obtain ⟨name, hname, rfl⟩ := ho
      exact Or.inl ⟨name, ⟨strategy, hstrategy, hname⟩, rfl⟩
  | query q => trivial
  | race pending => trivial
  | verify text => trivial
  | _ => cases ho

lemma attemptStrategy_emits {strategy : Strategy String}
    (hstrategy : resolveStrategy cfg inp.verify = .ok strategy) :
    Emits (PhaseOp (B := B) cfg inp fails) (attemptStrategy eng inp strategy) :=
  Emits.bind (p := execute eng inp strategy) (execute_phaseOp hstrategy) fun _ => trivial

omit [RunFormat B] in
lemma startAttempts_emits {initialAttempt : ℕ} (is : List ℕ) :
    Emits (PhaseOp (B := B) cfg inp fails) (startAttempts cfg inp initialAttempt is) :=
  marks_emits (Or.inl rfl) fun _ _ => ⟨rfl, rfl, Or.inl ⟨_, rfl⟩⟩

lemma attemptCanonical_emits {output : StrategyOutput} :
    Emits (PhaseOp (B := B) cfg inp fails) (attemptCanonical eng cfg inp output) :=
  Emits.bind (p := canonicalBytes eng inp.runDir output cfg.aggregator)
    (canonicalBytes_emits (fun _ => trivial) fun _ => trivial) fun _ => trivial

omit [RunFormat B] in
lemma dispatched_emits {P : Op B → Prop} {r : Except DispatchError ρ} {τ : Type}
    {f : ρ → Run B PhaseError τ} (hf : ∀ x, r = .ok x → Emits P (f x)) :
    Emits P (dispatched r >>= f : Run B PhaseError τ) := by
  cases r with
  | ok x => exact hf x rfl
  | error e => exact Emits.throw _

theorem attemptPhase_emits {initialAttempt : ℕ} :
    Emits (PhaseOp (B := B) cfg inp True) (attemptPhase eng cfg inp initialAttempt) := by
  refine dispatched_emits fun _ _ => ?_
  refine Emits.exceptBind startAttempt_emits fun _ => ?_
  refine dispatched_emits fun strategy hstrategy => ?_
  refine Emits.exceptBind ?_ fun output => ?_
  · refine Emits.exceptBind (attemptStrategy_emits hstrategy) fun r => ?_
    cases r with
    | ok output => exact Emits.pure _
    | error e => exact failWith_emits trivial
  refine Emits.exceptBind (startAttempts_emits _) fun _ => ?_
  refine Emits.exceptBind ?_ fun chosen => ?_
  · refine Emits.exceptBind attemptCanonical_emits fun r => ?_
    cases r with
    | ok chosen => exact Emits.pure _
    | error e => exact failWith_emits trivial
  refine Emits.exceptBind ?_ fun _ => Emits.pure _
  unfold runVerify
  split
  · exact Emits.pure _
  split
  · exact Emits.throw _
  · refine Emits.exceptBind (callHook_emits fun _ => trivial) fun result => ?_
    split
    · exact Emits.pure _
    · exact failWith_emits trivial

/-- What the commit does. -/
def CommitOp (cfg : PhaseConfig) (runDir : Path) : Op B → Prop
  | .createDirAll p =>
      p = runDir ∨ p = parentOf runDir cfg.artefactName ∨ p = markersDir runDir
  | .writeFile p _ => p = join runDir cfg.artefactName
  | .occupied _ | .loadManifest _ => True
  | .writeManifest dir _ => dir = runDir
  | .writeMarker dir m => dir = runDir ∧ ∃ c, m = .completed c ∧ c.phase = cfg.phase
  | _ => False

lemma commit_emits {output : StrategyOutput} {verify : Option HookResult} {bytes : B}
    {attempt : ℕ} :
    Emits (CommitOp cfg inp.runDir) (commit cfg inp output verify bytes attempt) := by
  refine Emits.exceptBind ?_ fun entry => ?_
  · refine Emits.exceptBind (createDirOr_emits (Or.inl rfl)) fun _ => ?_
    refine Emits.exceptBind (createDirOr_emits (Or.inr (Or.inl rfl))) fun _ => ?_
    refine Emits.exceptBind ?_ fun _ => ?_
    · unfold atomicWrite
      split
      · exact Emits.throw _
      · exact writeFileOr_emits rfl
    refine Emits.exceptBind (Emits.exceptBind (Emits.op trivial) fun there => ?_) fun manifest => ?_
    · split
      · refine Emits.exceptBind (Emits.op trivial) fun r => ?_
        cases r with
        | ok manifest => exact Emits.pure _
        | error e => exact Emits.throw _
      · exact Emits.pure _
    · refine Emits.exceptBind ?_ fun _ => Emits.pure _
      exact Emits.exceptBind (Emits.op rfl) fun _ => orThrow_emits
  · refine Emits.exceptBind ?_ fun _ => Emits.pure _
    refine Emits.exceptBind (createDirOr_emits (Or.inr (Or.inr rfl))) fun _ => ?_
    exact Emits.exceptBind (Emits.op ⟨rfl, _, rfl, rfl⟩) fun _ => orThrow_emits

theorem run_emits {initialAttempt : ℕ} :
    Emits (fun o => PhaseOp (B := B) cfg inp True o ∨ CommitOp cfg inp.runDir o)
      (run eng cfg inp initialAttempt) :=
  Emits.exceptBind (Emits.mono attemptPhase_emits fun _ => Or.inl)
    fun _ => Emits.mono commit_emits fun _ => Or.inr

section Achieved

variable {sem : Semantics (RunSig B) (World B)} {I : World B → Prop} {w : World B}

omit [RunFormat B] in
lemma dispatched_achieves {r : Except DispatchError ρ} (hI : I w) :
    Achieves sem (fun x w' => I w' ∧ r = .ok x) (dispatched r : Run B PhaseError ρ) w := by
  cases r with
  | ok x => exact Achieves.pure ⟨hI, rfl⟩
  | error e => exact Achieves.throw

lemma runVerify_achieves {initialAttempt selected : ℕ} {output : StrategyOutput} {bytes : B}
    (hstep : ∀ o s a s', PhaseOp cfg inp False o → I s → sem o s a s' → I s') (hI : I w) :
    Achieves sem (fun _ => I) (runVerify cfg inp initialAttempt output selected bytes) w := by
  unfold runVerify
  split
  · exact Achieves.pure hI
  split
  · exact Achieves.throw
  · refine Achieves.bind (((callHook_emits fun _ => trivial).achieves hstep hI).mono
      fun result w' hw' => ?_)
    split
    · exact Achieves.pure hw'
    · exact failWith_achieves

/-- An invariant of the operations of a run without failure holds when it gets to the commit. -/
theorem attemptPhase_achieves {initialAttempt : ℕ}
    (hstep : ∀ o s a s', PhaseOp cfg inp False o → I s → sem o s a s' → I s') (hI : I w) :
    Achieves sem (fun _ => I) (attemptPhase eng cfg inp initialAttempt) w := by
  refine Achieves.bind ((dispatched_achieves hI).mono fun _ w₀ hw₀ => ?_)
  refine Achieves.bind ((startAttempt_emits.achieves hstep hw₀.1).mono fun _ w₁ hw₁ => ?_)
  refine Achieves.bind ((dispatched_achieves hw₁).mono fun strategy w₂ hw₂ => ?_)
  refine Achieves.bind (Achieves.bind
    (((attemptStrategy_emits hw₂.2).achieves hstep hw₂.1).mono fun r w₃ hw₃ => ?_))
  cases r with
  | error e => exact failWith_achieves
  | ok output =>
    refine (Achieves.pure ?_)
    refine Achieves.bind (((startAttempts_emits _).achieves hstep hw₃).mono fun _ w₄ hw₄ => ?_)
    refine Achieves.bind (Achieves.bind
      ((attemptCanonical_emits.achieves hstep hw₄).mono fun r w₅ hw₅ => ?_))
    cases r with
    | error e => exact failWith_achieves
    | ok chosen =>
      refine Achieves.pure ?_
      refine Achieves.bind ((runVerify_achieves hstep hw₅).mono fun _ w₆ hw₆ => ?_)
      exact Achieves.pure hw₆

omit [RunFormat B] in
lemma dispatched_secures {r : Except DispatchError ρ} (hI : I w) :
    Secures sem I (fun x w' => I w' ∧ r = .ok x) (dispatched r : Run B PhaseError ρ) w := by
  cases r with
  | ok x => exact Secures.pure hI ⟨hI, rfl⟩
  | error e => exact Secures.throw hI

/-- An invariant of the operations and of the record of a failure holds wherever the run stops
before the commit. -/
theorem attemptPhase_secures {initialAttempt : ℕ}
    (hstep : ∀ o s a s', PhaseOp cfg inp False o → I s → sem o s a s' → I s')
    (hfail : ∀ attemptsMade e s, I s → Secures sem I (fun _ _ => True)
      (recordTerminalFailure inp.runDir cfg attemptsMade e) s) (hI : I w) :
    Secures sem I (fun _ => I) (attemptPhase eng cfg inp initialAttempt) w := by
  have hemits : ∀ {τ : Type} {p : Run B PhaseError τ} {s : World B},
      Emits (PhaseOp cfg inp False) p → I s → Secures sem I (fun _ => I) p s :=
    fun hp hs => hp.secures (fun o s a s' ho h _ hact => ⟨hstep o s a s' ho h hact,
      hstep o s a s' ho h hact⟩) hs hs
  have hfailed : ∀ {τ : Type} {post : τ → World B → Prop} {attemptsMade : ℕ} {e : PhaseError}
      {s : World B}, I s → Secures sem I post (failWith inp.runDir cfg attemptsMade e) s := by
    intro τ post attemptsMade e s hs
    refine Secures.bind ?_
    refine Meets.bind (Meets.mono (hfail attemptsMade (errorClass e) s hs) fun r s' hr => ?_)
    exact Secures.pure hr.1 (Secures.throw hr.1)
  refine Secures.bind ((dispatched_secures hI).mono fun _ w₀ hw₀ _ => ?_)
  refine Secures.bind ((hemits startAttempt_emits hw₀).mono fun _ w₁ hw₁ _ => ?_)
  refine Secures.bind ((dispatched_secures hw₁).mono fun strategy w₂ hw₂ hstrategy => ?_)
  refine Secures.bind (Secures.bind
    ((hemits (attemptStrategy_emits hstrategy.2) hw₂).mono fun r w₃ hw₃ _ => ?_))
  cases r with
  | error e => exact hfailed hw₃
  | ok output =>
    refine Secures.pure hw₃ ?_
    refine Secures.bind ((hemits (startAttempts_emits _) hw₃).mono fun _ w₄ hw₄ _ => ?_)
    refine Secures.bind (Secures.bind
      ((hemits attemptCanonical_emits hw₄).mono fun r w₅ hw₅ _ => ?_))
    cases r with
    | error e => exact hfailed hw₅
    | ok chosen =>
      refine Secures.pure hw₅ (Secures.bind ?_)
      unfold runVerify
      split
      · exact Secures.pure hw₅ (Secures.pure hw₅ hw₅)
      split
      · exact Secures.throw hw₅
      · refine Secures.bind ((hemits (callHook_emits fun _ => trivial) hw₅).mono fun result w₆ hw₆ _ => ?_)
        split
        · exact Secures.pure hw₆ (Secures.pure hw₆ hw₆)
        · exact hfailed hw₆

end Achieved

end Emitted

end Loker.PhaseRunner
