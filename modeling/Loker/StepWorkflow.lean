import Loker.ResumeDecision
import Loker.PhaseBridge

/-! Workflows of steps: their validation, the capabilities their steps demand, and the phase
configurations that the resume command makes of them. -/

namespace Loker.StepWorkflow

open TextOps FileTree RunFiles RunLoad Dispatch Strategies PhaseBridge

section Model

inductive ConsensusStrategy where
  | first
  | synthesis
  | vote
  | weightedVote
  deriving DecidableEq, Repr

structure ValidateConfig where
  check : Option String
  backend : Option String
  model : Option String
  prompt : Option String
  onError : Option String
  onParseError : Option String
  mode : Option String
  maxInputLength : Option ℕ
  replaceOutput : Bool
  timeoutMs : Option ℕ
  deriving DecidableEq, Repr

structure Step where
  name : String
  backend : String := ""
  backends : List String := []
  model : Option String := none
  prompt : String := ""
  dependsOn : List String := []
  shell : Option String := none
  applyEdits : Bool := false
  verify : Option String := none
  fixRetries : ℕ := 0
  retries : ℕ := 0
  retryDelay : ℕ := 1000
  forEach : Option String := none
  outputFormat : Option String := none
  minDepsSuccess : Option ℕ := none
  timeout : Option ℕ := none
  consensus : Option ConsensusStrategy := none
  validate : Option ValidateConfig := none
  deriving DecidableEq, Repr

structure Workflow where
  name : String
  steps : List Step := []
  timeout : Option ℕ := none
  deriving DecidableEq, Repr

inductive WorkflowError where
  | minDepsSuccessExceedsDeps (workflow step : String) (minDepsSuccess actualDeps : ℕ)
  | timeoutTooSmall (workflow step : String) (timeout min : ℕ)
  | missingCapability (workflow step backend capability reason : String)
  | applyEditsMultiBackend (workflow step backends : String)
  | missingBackendForCapability (workflow step capability reason : String)
  deriving DecidableEq, Repr

/-- A list of backends, or else the comma-separated names. -/
def getBackends (step : Step) : List String :=
  if step.backends ≠ [] then step.backends
  else if step.backend = "" then []
  else ((step.backend.toList.splitOn ',').map fun s => trim (String.ofList s)).filter (· ≠ "")

def getConsensusStrategy (step : Step) : ConsensusStrategy := step.consensus.getD .synthesis

end Model

section Validate

def minTimeoutMs : ℕ := 100

def stepTimeout (wf : Workflow) (step : Step) : Option ℕ := step.timeout.or wf.timeout

def checkMinDeps (wf : Workflow) (step : Step) : Except WorkflowError Unit :=
  match step.minDepsSuccess with
  | some min =>
      if min > step.dependsOn.length then
        .error (.minDepsSuccessExceedsDeps wf.name step.name min step.dependsOn.length)
      else .ok ()
  | none => .ok ()

/-- No timeout is 0; a smaller one than the minimum is taken for a mistake. -/
def checkTimeout (wf : Workflow) (step : Step) : Except WorkflowError Unit :=
  match stepTimeout wf step with
  | some timeout =>
      if timeout > 0 ∧ timeout < minTimeoutMs then
        .error (.timeoutTooSmall wf.name step.name timeout minTimeoutMs)
      else .ok ()
  | none => .ok ()

def validate (wf : Workflow) : Except WorkflowError Unit :=
  wf.steps.forM fun step => do
    checkMinDeps wf step
    checkTimeout wf step

structure BackendCapabilities where
  toolUse : Bool
  streaming : Bool
  fileEdit : Bool
  deriving DecidableEq, Repr

def BackendCapabilities.none : BackendCapabilities := ⟨false, false, false⟩

/-- The capabilities a step demands, each with the feature that demands it. -/
def requiredCapabilities (step : Step) : List (String × String) :=
  if step.applyEdits then [("file_edit", "apply_edits = true")] else []

def satisfied (caps : BackendCapabilities) : String → Bool
  | "tool_use" => caps.toolUse
  | "streaming" => caps.streaming
  | "file_edit" => caps.fileEdit
  | _ => false

variable (lookup : String → Option BackendCapabilities)

def checkBackend (wf : Workflow) (step : Step) (demands : List (String × String))
    (backend : String) : Except WorkflowError Unit :=
  demands.forM fun (capability, reason) =>
    if satisfied ((lookup backend).getD BackendCapabilities.none) capability then .ok ()
    else .error (.missingCapability wf.name step.name backend capability reason)

def checkCapabilities (wf : Workflow) (step : Step) : Except WorkflowError Unit :=
  match requiredCapabilities step with
  | [] => .ok ()
  | (capability, reason) :: demands =>
      let backends := getBackends step
      if step.applyEdits ∧ backends.length > 1 then
        .error (.applyEditsMultiBackend wf.name step.name (", ".intercalate backends))
      else if backends = [] then
        .error (.missingBackendForCapability wf.name step.name capability reason)
      else backends.forM (checkBackend lookup wf step ((capability, reason) :: demands))

def validateWithCapabilities (wf : Workflow) : Except WorkflowError Unit := do
  validate wf
  wf.steps.forM (checkCapabilities lookup wf)

end Validate

section Bridge

def aggregatorOf : ConsensusStrategy → AggregatorName
  | .first | .synthesis => .first
  | .vote | .weightedVote => .vote

def strategyOf (step : Step) : StrategyName :=
  if step.retries > 0 then .escalatingRetry
  else if (getBackends step).length > 1 then .parallel
  else .single

def artefactKindOf (step : Step) : Kind :=
  match step.outputFormat with
  | some "json" => .verifyJson
  | some "lines" => .responseJson
  | _ => .designMd

/-- The phase a step becomes. -/
def phaseConfigOf (step : Step) : PhaseConfig where
  phase := step.name
  strategy := strategyOf step
  aggregator := aggregatorOf (getConsensusStrategy step)
  verify := if step.applyEdits ∨ step.verify.isSome then .runCommand else .none
  artefactName := step.name
  artefactKind := artefactKindOf step
  producer := if (getBackends step).length > 1 then .parallel else .single
  promptTemplate := step.prompt
  backend := (getBackends step).head?
  targets := if (getBackends step).length > 1 then (getBackends step).map (⟨·, none⟩) else []
  minResponses := 1
  rungs := if step.retries > 0 then [⟨.medium, (getBackends step).head?.getD ""⟩] else []
  passFailureContext := false

/-- Shell steps become no phase. -/
def toPhaseConfigs (wf : Workflow) : List PhaseConfig :=
  (wf.steps.filter (·.shell.isNone)).map phaseConfigOf

lemma mem_toPhaseConfigs {wf : Workflow} {cfg : PhaseConfig} :
    cfg ∈ toPhaseConfigs wf ↔
      ∃ step ∈ wf.steps, step.shell = none ∧ phaseConfigOf step = cfg := by
  simp [toPhaseConfigs, and_assoc]

end Bridge

section Artefacts

variable {runDir : Path} {hook : Option String} {wf : Workflow} {step : Step}

/-- The path is neither the other one nor inside it nor above it. -/
def ApartFrom (p dir : Path) : Prop := ¬ p <+: dir ∧ ¬ dir <+: p

instance (p dir : Path) : Decidable (ApartFrom p dir) := inferInstanceAs (Decidable (_ ∧ _))

/-- The phase is dispatched, and its artefact is apart from the directory with its name. -/
structure Sound (runDir : Path) (hook : Option String) (cfg : PhaseConfig) : Prop where
  dispatch : Dispatchable cfg hook
  apart : ApartFrom (join runDir cfg.artefactName) (join runDir cfg.phase)

/-- The phase is dispatched, and its artefact is a file apart from all that its strategy writes. -/
structure Committable (runDir : Path) (hook : Option String) (cfg : PhaseConfig) : Prop where
  dispatch : Dispatchable cfg hook
  file : namesDirectory cfg.artefactName = false
  apart : ∀ strategy, resolveStrategy cfg hook = .ok strategy →
    ∀ name, OutputName cfg.phase strategy name →
      ApartFrom (join runDir cfg.artefactName) (join runDir name)

lemma one_or_none (h : ¬ (getBackends step).length > 1) :
    getBackends step = [] ∨ ∃ backend, getBackends step = [backend] := by
  cases hbackends : getBackends step with
  | nil => exact Or.inl rfl
  | cons backend rest =>
      rw [hbackends, List.length_cons] at h
      have hrest : rest = [] := List.length_eq_zero_iff.mp (by omega)
      exact Or.inr ⟨backend, by rw [hrest]⟩

/-- A step with retries has a producer that its strategy does not allow. -/
lemma dispatchable_phaseConfigOf :
    Dispatchable (phaseConfigOf step) hook ↔ step.retries = 0 ∧ getBackends step ≠ [] := by
  rw [dispatchable_iff]
  by_cases hretries : step.retries = 0
  · by_cases hmany : (getBackends step).length > 1
    · have hsome : getBackends step ≠ [] := by
        rintro h
        simp [h] at hmany
      simp [phaseConfigOf, strategyOf, expectedProducer, StrategyReady, hretries, hmany, hsome]
    · rcases one_or_none hmany with hnone | ⟨backend, hone⟩
      · simp [phaseConfigOf, strategyOf, StrategyReady, hretries, hnone]
      · simp [phaseConfigOf, strategyOf, expectedProducer, StrategyReady, hretries, hone]
  · have hpos : 0 < step.retries := Nat.pos_of_ne_zero hretries
    simp only [hretries, false_and, iff_false, not_and]
    intro hproducer
    simp only [phaseConfigOf, strategyOf, hpos, gt_iff_lt, if_true, expectedProducer] at hproducer
    split at hproducer <;> cases hproducer

lemma not_apart_self (p : Path) : ¬ ApartFrom p p := fun h => h.1 (List.prefix_refl p)

lemma ne_empty_of_file {name : String} (h : namesDirectory name = false) : name ≠ "" := by
  rintro rfl
  exact absurd h (by decide)

/-- The attempts of a step with several backends are below its artefact. -/
lemma artefact_above_branch (h : namesDirectory step.name = false) :
    join runDir step.name <+: join runDir (branchOutput step.name 0) := by
  have hsplit : branchOutput step.name 0 = step.name ++ "/" ++ "attempts/0-parallel.txt" := by
    simp [branchOutput, ← String.toList_inj]
  have hparts : components "attempts/0-parallel.txt" = ["attempts", "0-parallel.txt"] := by decide
  rw [hsplit, join_concat (ne_empty_of_file h), hparts]
  exact ⟨["attempts", "0-parallel.txt"], by simp [descend]⟩

lemma resolve_single {backend : String} (hretries : step.retries = 0)
    (hone : getBackends step = [backend]) :
    resolveStrategy (phaseConfigOf step) hook = .ok (.singleModel backend step.prompt) := by
  simp [resolveStrategy, phaseConfigOf, strategyOf, hretries, hone]

lemma committable_iff : Committable runDir hook (phaseConfigOf step) ↔
    step.retries = 0 ∧ (getBackends step).length = 1 ∧ namesDirectory step.name = false ∧
      ApartFrom (join runDir step.name) (join runDir singleOutput) := by
  constructor
  · rintro ⟨hdispatch, hfile, hapart⟩
    obtain ⟨hretries, hbackends⟩ := dispatchable_phaseConfigOf.mp hdispatch
    by_cases hmany : (getBackends step).length > 1
    · have hresolve : resolveStrategy (phaseConfigOf step) hook =
          .ok (.parallelFanOut ((getBackends step).map (⟨·, none⟩)) 1 step.prompt
            (aggregatorOf (getConsensusStrategy step))) := by
        simp [resolveStrategy, newParallelFanOut, phaseConfigOf, strategyOf, hretries, hmany]
      have hbranch := hapart _ hresolve (branchOutput step.name 0)
        (Or.inr ⟨0, by simpa using Nat.lt_of_succ_lt hmany, rfl⟩)
      exact absurd (artefact_above_branch hfile) hbranch.1
    · obtain ⟨backend, hone⟩ := (one_or_none hmany).resolve_left hbackends
      exact ⟨hretries, by simp [hone], hfile, hapart _ (resolve_single hretries hone) _ rfl⟩
  · rintro ⟨hretries, hone, hfile, hapart⟩
    obtain ⟨backend, hcons⟩ := List.length_eq_one_iff.mp hone
    refine ⟨dispatchable_phaseConfigOf.mpr ⟨hretries, by simp [hcons]⟩, hfile, ?_⟩
    intro strategy hresolve name hname
    rw [resolve_single hretries hcons] at hresolve
    cases hresolve
    obtain rfl : name = singleOutput := hname
    exact hapart

/-- The bridge keeps an artefact apart from the directory with its phase's name only where it
makes no phase; and what it can dispatch and commit is a step without retries, with one backend
and with a name apart from that backend's attempt. -/
theorem bridge_sound_iff :
    ((∀ cfg ∈ toPhaseConfigs wf, Sound runDir hook cfg) ↔
      ∀ step ∈ wf.steps, step.shell.isSome) ∧
    ∀ step ∈ wf.steps, Committable runDir hook (phaseConfigOf step) ↔
      step.retries = 0 ∧ (getBackends step).length = 1 ∧ namesDirectory step.name = false ∧
        ApartFrom (join runDir step.name) (join runDir singleOutput) := by
  refine ⟨⟨fun h step hstep => ?_, fun h cfg hcfg => ?_⟩, fun step _ => committable_iff⟩
  · rw [Option.isSome_iff_ne_none]
    intro hshell
    exact not_apart_self _ (h _ (mem_toPhaseConfigs.mpr ⟨step, hstep, hshell, rfl⟩)).apart
  · obtain ⟨step, hstep, hshell, _⟩ := mem_toPhaseConfigs.mp hcfg
    have hsome := h step hstep
    rw [hshell] at hsome
    cases hsome

/-- A step of each of three shapes: one backend, two backends, and retries. -/
def threeSteps : Workflow where
  name := "three"
  steps := [{ name := "ask", backend := "claude", prompt := "Go" },
    { name := "poll", backend := "claude, codex", prompt := "Go" },
    { name := "climb", backend := "claude", prompt := "Go", retries := 2 }]

/-- The first step's artefact is where a phase directory of its name would be, the second one's is
above its own attempts, and the third one does not get past the runner's check. -/
theorem bridge_unsound :
    validate threeSteps = .ok () ∧
      (∀ cfg ∈ toPhaseConfigs threeSteps, ¬ Sound ["run"] none cfg) ∧
      (∀ cfg ∈ toPhaseConfigs threeSteps, cfg.phase ≠ "ask" → ¬ Committable ["run"] none cfg) := by
  refine ⟨by decide, fun cfg hcfg h => ?_, fun cfg hcfg hname h => ?_⟩
  · obtain ⟨step, _, _, rfl⟩ := mem_toPhaseConfigs.mp hcfg
    exact not_apart_self _ h.apart
  · obtain ⟨step, hstep, _, rfl⟩ := mem_toPhaseConfigs.mp hcfg
    obtain ⟨hretries, hone, _⟩ := committable_iff.mp h
    have hnot : ∀ step ∈ threeSteps.steps, step.name ≠ "ask" →
        ¬ (step.retries = 0 ∧ (getBackends step).length = 1) := by decide
    exact hnot step hstep hname ⟨hretries, hone⟩

end Artefacts

section Resume

open ResumeDecision Resume

variable {B : Type} [RunFormat B] {t : Disk B} {runDir : Path} {now : ℤ} {ttlSeconds : ℕ}
  {specContent : Option String} {vars : String → Option String} {wf : Grammar.Workflow}
  {cfgs : List PhaseConfig}

/-- The configurations a run uses for its phases, each with its prompt rendered over the outputs
so far. -/
def RunConfigs (specContent : Option String) (vars : String → Option String)
    (phases : List Grammar.Phase) (cfgs : List PhaseConfig) : Prop :=
  List.Forall₂ (fun phase cfg => ∃ phaseOutputs,
    buildPhaseConfig phase phaseOutputs specContent vars = .ok cfg) phases cfgs

/-- The resume command reads the workflow as one of steps. -/
def resumeCommand (t : Disk B) (runDir : Path) (now : ℤ) (ttlSeconds : ℕ)
    (loadWorkflow : String → Option Workflow) : Decision :=
  resumeDecision t runDir now ttlSeconds fun name => (loadWorkflow name).map toPhaseConfigs

/-- The decision plans over these configurations, in this order. -/
def PlansOver (cfgs : List PhaseConfig) (decision : Decision) : Prop :=
  ∃ actions, decision = .execute actions ∧ actions.map Prod.fst = cfgs

/-- No step becomes what a phase of the grammar becomes: a single strategy has its backend as a
rung only there, a fan-out concatenates only there, and only there a ladder has its producer. -/
lemma phaseConfigOf_ne_configOf (step : Step) (phase : Grammar.Phase) (prompt : String) :
    phaseConfigOf step ≠ configOf phase prompt := by
  intro heq
  cases hstrategy : phase.strategy with
  | single =>
      have hsingle : strategyOf step = .single := by
        have h := congrArg PhaseConfig.strategy heq
        simpa [phaseConfigOf, configOf, strategyName, hstrategy] using h
      have hretries : ¬ step.retries > 0 := by
        intro hpos
        simp [strategyOf, hpos] at hsingle
      have hrungs := congrArg PhaseConfig.rungs heq
      simp [phaseConfigOf, configOf, rungsOf, hstrategy, hretries] at hrungs
  | parallelFanOut minResponses =>
      have haggregator := congrArg PhaseConfig.aggregator heq
      simp only [phaseConfigOf, configOf, aggregatorName, hstrategy] at haggregator
      cases hconsensus : getConsensusStrategy step <;>
        simp [hconsensus, aggregatorOf] at haggregator
  | escalatingRetry passFailureContext =>
      have hproducer := congrArg PhaseConfig.producer heq
      simp only [phaseConfigOf, configOf, producerOf, hstrategy] at hproducer
      split at hproducer <;> cases hproducer

lemma plansOver_steps {loadWorkflow : String → Option Workflow}
    (h : PlansOver cfgs (resumeCommand t runDir now ttlSeconds loadWorkflow)) :
    ∃ legacy, cfgs = toPhaseConfigs legacy := by
  obtain ⟨actions, hdecision, rfl⟩ := h
  unfold resumeCommand at hdecision
  cases hload : load t runDir now ttlSeconds with
  | error e => simp [resumeDecision, hload] at hdecision
  | ok state =>
      obtain ⟨configs, hready, hplan⟩ := ready_of_execute hload hdecision
      obtain ⟨_, name, _, _, hfound⟩ := hready.found
      obtain ⟨legacy, _, rfl⟩ := Option.map_eq_some_iff.mp hfound
      exact ⟨legacy, (plan_eq_ok hplan).1⟩

/-- Whatever steps the resume command finds under the workflow's name, it never plans over the
configurations that the run of a valid phase workflow uses. -/
theorem resume_plans_others (hvalid : Grammar.validate wf = [])
    (hrun : RunConfigs specContent vars wf.phases cfgs) (loadWorkflow : String → Option Workflow) :
    ¬ PlansOver cfgs (resumeCommand t runDir now ttlSeconds loadWorkflow) := by
  intro hplans
  obtain ⟨legacy, rfl⟩ := plansOver_steps hplans
  have hphases : wf.phases ≠ [] := by
    intro hnil
    simp [Grammar.validate, hnil] at hvalid
  obtain ⟨phase, phases, hcons⟩ := List.exists_cons_of_ne_nil hphases
  rw [hcons] at hrun
  obtain ⟨cfg, rest, ⟨phaseOutputs, hbuild⟩, _, hcfgs⟩ := List.forall₂_cons_left_iff.mp hrun
  obtain ⟨prompt, _, rfl⟩ := buildPhaseConfig_eq_ok hbuild
  have hmem : configOf phase prompt ∈ toPhaseConfigs legacy := by
    rw [hcfgs]
    exact List.mem_cons_self
  obtain ⟨step, _, _, heq⟩ := mem_toPhaseConfigs.mp hmem
  exact phaseConfigOf_ne_configOf step phase prompt heq

def designReview : Grammar.Workflow where
  name := "design"
  phases := [⟨"design", .single, ["claude/"], "Go", [], "design.md"⟩,
    ⟨"review", .single, ["claude/"], "Go", [], "review.md"⟩]

lemma designReview_configs : RunConfigs none (fun _ => none) designReview.phases
    (designReview.phases.map (configOf · "Go")) :=
  .cons ⟨fun _ => none, rfl⟩ (.cons ⟨fun _ => none, rfl⟩ .nil)

/-- What the loader of steps makes of a file with phases only: the name and no steps. -/
def stepsOf (wf : Grammar.Workflow) : Workflow := { name := wf.name }

/-- The run directory of a run killed after its first started marker. -/
def afterStart : RunOps.World Doc :=
  (Programs.evalFor (RunOps.handle ⟨fun _ => .ok "one", fun _ => .ok .pass⟩) 2
    (PhaseRunner.run CrashHistories.plainEngines CrashHistories.designPhase
      CrashHistories.designInputs 0) CrashHistories.newRun).2.2

theorem resume_plans_others_design :
    ¬ PlansOver (designReview.phases.map (configOf · "Go"))
      (resumeCommand afterStart.disk ["run"] 0 60 fun _ => some (stepsOf designReview)) :=
  resume_plans_others (by decide) designReview_configs _

/-- The resume of an interrupted phase workflow finds no phase at all. -/
theorem resume_finds_no_phases :
    Grammar.validate designReview = [] ∧
      RunConfigs none (fun _ => none) designReview.phases
        (designReview.phases.map (configOf · "Go")) ∧
      resumeCommand afterStart.disk ["run"] 0 60 (fun _ => some (stepsOf designReview)) =
        .noPhases ∧
      ¬ PlansOver (designReview.phases.map (configOf · "Go"))
        (resumeCommand afterStart.disk ["run"] 0 60 fun _ => some (stepsOf designReview)) := by
  have hdecision : resumeCommand afterStart.disk ["run"] 0 60
      (fun _ => some (stepsOf designReview)) = .noPhases := by decide
  refine ⟨by decide, designReview_configs, hdecision, fun h => ?_⟩
  obtain ⟨actions, hactions, _⟩ := h
  rw [hdecision] at hactions
  cases hactions

end Resume

end Loker.StepWorkflow
