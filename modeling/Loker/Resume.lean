import Loker.PhaseRunner

/-! Resuming a run: the plan from the loaded state, the archive of an interrupted attempt, the
phase lock and the run of every phase that is not completed. -/

namespace Loker.Resume

open FileTree TextOps Programs RunFiles RunLoad RunOps Dispatch Strategies PhaseRunner

inductive ResumeError where
  | io (message : String)
  | marker
  | phase (e : PhaseError)
  | phaseLocked (phase : String)
  | invalidPhaseName (phase : String)
  | lockIo (message : String)
  deriving DecidableEq, Repr

inductive PhaseAction where
  | skip
  | resume (nextAttempt : ℕ)
  | runFresh
  deriving DecidableEq, Repr

variable {B : Type} [RunFormat B]

section Plan

/-- What to do with one phase; reading its markers may fail. -/
def planPhase (t : Disk B) (runDir : Path) (status : StatusMap) (phase : String) :
    Option PhaseAction :=
  match status.lookup phase with
  | none => some .runFresh
  | some .completed => some .skip
  | some .failed => (nextAttempt t runDir phase).map .resume
  | some .started => (nextAttempt t runDir phase).map .resume
  | some .none => some .runFresh

def plan (t : Disk B) (runDir : Path) (state : RunState) (phases : List PhaseConfig) :
    Except ResumeError (List (PhaseConfig × PhaseAction)) :=
  match phases.mapM fun cfg => (planPhase t runDir state.phaseStatus cfg.phase).map (cfg, ·) with
  | some actions => .ok actions
  | none => .error .marker

end Plan

section Archive

def archiveDest (runDir : Path) (phase : String) (attempt : ℕ) : Path :=
  join (join (runDir ++ ["attempts"]) phase) attempt.repr

def moveAttempt (src dest : Path) : Run B ResumeError Unit := do
  let there : Bool ← op (S := RunSig B) (.occupied dest)
  if there then throw (.io ("archive destination already exists: " ++ displayPath dest))
  else
    let answer ← op (S := RunSig B) (.rename src dest)
    orThrow .io answer

/-- Nothing to archive is not an error. -/
def archiveCurrentAttempt (runDir : Path) (phase : String) (attempt : ℕ) :
    Run B ResumeError Unit := do
  let there : Bool ← op (S := RunSig B) (.occupied (join runDir phase))
  if there then
    createDirOr .io (join (runDir ++ ["attempts"]) phase)
    moveAttempt (join runDir phase) (archiveDest runDir phase attempt)
  else pure ()

end Archive

section Lock

def validatePhaseName (phase : String) : Bool :=
  phase ≠ "" && !contains phase "/" && !contains phase "\\" && !phase.toList.contains '\x00' &&
    trim phase ≠ "." && trim phase ≠ ".."

def lockPath (runDir : Path) (phase : String) : Path := join (runDir ++ ["locks"]) (phase ++ ".lock")

def takeLock (runDir : Path) (phase body : String) : Run B ResumeError Unit := do
  let busy : Bool ← op (S := RunSig B) (.lockBusy (lockPath runDir phase))
  if busy then throw (.phaseLocked phase)
  else
    createDirOr .lockIo (runDir ++ ["locks"])
    writeFileOr .lockIo (lockPath runDir phase) (RunFormat.ofText body)

def acquireLock (runDir : Path) (phase body : String) : Run B ResumeError Unit := do
  if validatePhaseName phase then
    let there : Bool ← op (S := RunSig B) (.isDir runDir)
    if there then takeLock runDir phase body
    else throw (.lockIo "run directory not found or is a symlink")
  else throw (.invalidPhaseName phase)

/-- The lock file stays, emptied. -/
def releaseLock (runDir : Path) (phase : String) : Run B ResumeError Unit := do
  let _ ← op (S := RunSig B) (.writeFile (lockPath runDir phase) (RunFormat.ofText ""))
  pure ()

end Lock

section Execute

variable (eng : Engines) (cfg : PhaseConfig) (inp : PhaseInputs) (lockBody : String)

/-- The phase's result as a value. -/
def attemptRun (attempt : ℕ) : Run B ResumeError (Except PhaseError PhaseOutcome) :=
  ExceptT.mk (ExceptT.run (PhaseRunner.run eng cfg inp attempt) >>= fun r => pure (.ok r))

/-- The run with the lock held. -/
def lockedRun (attempt : ℕ) : Run B ResumeError Unit := do
  let result ← attemptRun eng cfg inp attempt
  releaseLock inp.runDir cfg.phase
  match result with
  | .ok _ => pure ()
  | .error e => throw (.phase e)

def runPhase (attempt : ℕ) : Run B ResumeError Unit := do
  acquireLock inp.runDir cfg.phase lockBody
  lockedRun eng cfg inp attempt

/-- The attempt before, in 32 bits. -/
def previousAttempt (attempt : ℕ) : ℕ := (attempt + (2 ^ 32 - 1)) % 2 ^ 32

def resumePhase (attempt : ℕ) : Run B ResumeError Unit := do
  archiveCurrentAttempt inp.runDir cfg.phase (previousAttempt attempt)
  runPhase eng cfg inp lockBody attempt

def executeAction : PhaseAction → Run B ResumeError Unit
  | .skip => pure ()
  | .resume nextAttempt => resumePhase eng cfg inp lockBody nextAttempt
  | .runFresh => runPhase eng cfg inp lockBody 0

/-- The inputs the resume runner gives a phase: no prompt model and no verify hook. -/
def resumeInputs (backends : List String) (runDir : Path) (runId phase : String) : PhaseInputs :=
  ⟨backends, none, phase, none, runDir, runId⟩

def executePlan (backends : List String) (runDir : Path) (runId : String) :
    List (PhaseConfig × PhaseAction) → Run B ResumeError Unit
  | [] => pure ()
  | (cfg, action) :: actions => do
      executeAction eng cfg (resumeInputs backends runDir runId cfg.phase) lockBody action
      executePlan backends runDir runId actions

end Execute

section Emitted

/-- What resuming a phase does besides running it: it moves the phase's directory into the
archive and writes the lock file. -/
def ResumeOp (runDir : Path) (phase : String) : Op B → Prop
  | .createDirAll p => p = join (runDir ++ ["attempts"]) phase ∨ p = runDir ++ ["locks"]
  | .writeFile p _ => p = lockPath runDir phase
  | .rename src dst => src = join runDir phase ∧ ∃ n, dst = archiveDest runDir phase n
  | .occupied _ | .isDir _ | .lockBusy _ => True
  | _ => False

variable {runDir : Path} {phase : String}

omit [RunFormat B] in
lemma archiveCurrentAttempt_emits {attempt : ℕ} :
    Emits (ResumeOp (B := B) runDir phase) (archiveCurrentAttempt runDir phase attempt) := by
  refine Emits.exceptBind (Emits.op trivial) fun there => ?_
  split
  · refine Emits.exceptBind (createDirOr_emits (Or.inl rfl)) fun _ => ?_
    refine Emits.exceptBind (Emits.op trivial) fun occupied => ?_
    split
    · exact Emits.throw _
    · exact Emits.exceptBind (Emits.op ⟨rfl, _, rfl⟩) fun _ => orThrow_emits
  · exact Emits.pure _

lemma acquireLock_emits {body : String} :
    Emits (ResumeOp (B := B) runDir phase) (acquireLock runDir phase body) := by
  unfold acquireLock
  split
  · refine Emits.exceptBind (Emits.op trivial) fun there => ?_
    split
    · refine Emits.exceptBind (Emits.op trivial) fun busy => ?_
      split
      · exact Emits.throw _
      · exact Emits.exceptBind (createDirOr_emits (Or.inr rfl)) fun _ => writeFileOr_emits rfl
    · exact Emits.throw _
  · exact Emits.throw _

lemma releaseLock_emits :
    Emits (ResumeOp (B := B) runDir phase) (releaseLock runDir phase) :=
  Emits.exceptBind (Emits.op rfl) fun _ => Emits.pure _

/-- What skipping, resuming or running a phase afresh may do. -/
def ActionOp (cfg : PhaseConfig) (inp : PhaseInputs) (o : Op B) : Prop :=
  PhaseOp cfg inp True o ∨ CommitOp cfg inp.runDir o ∨ ResumeOp inp.runDir cfg.phase o

variable {eng : Engines} {cfg : PhaseConfig} {inp : PhaseInputs} {lockBody : String}

lemma runPhase_emits {attempt : ℕ} :
    Emits (ActionOp (B := B) cfg inp) (runPhase eng cfg inp lockBody attempt) := by
  refine Emits.exceptBind (Emits.mono acquireLock_emits fun _ h => Or.inr (Or.inr h)) fun _ => ?_
  refine Emits.exceptBind (Emits.bind (p := PhaseRunner.run eng cfg inp attempt)
    (Emits.mono run_emits fun _ h => h.imp_right Or.inl) fun _ => trivial) fun result => ?_
  refine Emits.exceptBind (Emits.mono releaseLock_emits fun _ h => Or.inr (Or.inr h)) fun _ => ?_
  cases result with
  | ok _ => exact Emits.pure _
  | error e => exact Emits.throw _

theorem executeAction_emits (action : PhaseAction) :
    Emits (ActionOp (B := B) cfg inp) (executeAction eng cfg inp lockBody action) := by
  cases action with
  | skip => exact Emits.pure _
  | runFresh => exact runPhase_emits
  | resume nextAttempt =>
      exact Emits.exceptBind
        (Emits.mono archiveCurrentAttempt_emits fun _ h => Or.inr (Or.inr h))
        fun _ => runPhase_emits

end Emitted

end Loker.Resume
