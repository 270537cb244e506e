import Loker.Dispatch
import Loker.Grammar
import Loker.Template

/-! The bridge from a workflow's phases to phase configurations, and which of them can be
dispatched. -/

namespace Loker.PhaseBridge

open TextOps FileTree RunFiles Dispatch Template

section Backends

def trimEndSlashes (s : String) : String :=
  String.ofList (s.toList.reverse.dropWhile (· = '/')).reverse

def backendScheme (raw : String) : String := beforeFirst (trimEndSlashes raw) "/"

def backendModel (raw : String) : Option String :=
  ((splitOnce raw '/').map (·.2)).filter (· ≠ "")

end Backends

section Kinds

/-- The last component of a path, when it is a name. -/
def fileName (path : String) : Option String :=
  (normalComponents path).getLast?.filter (· ≠ "..")

def kindFromFilename (output : String) : Kind :=
  let name := toAsciiLowercase ((fileName output).getD "")
  if hdesign : name = "design.md" then .designMd
  else if hreview : name = "review.md" then .reviewMd
  else if hplan : name = "plan.md" then .planMd
  else if hother : isValidOtherMd name then
    .otherMd ⟨name, hother, by simp [hdesign, hreview, hplan]⟩
  else if endsWith name ".json" then .verifyJson
  else .phaseResultJson

lemma kindFromFilename_ne_changesDir (output : String) :
    kindFromFilename output ≠ .changesDir := by
  unfold kindFromFilename
  dsimp only
  repeat' split
  all_goals simp

end Kinds

section Build

/-- A rendering error with the phase it is about. -/
structure BuildError where
  context : String
  cause : TemplateError
  deriving DecidableEq, Repr

def mediumRung (raw : String) : PhaseRung := ⟨.medium, backendScheme raw⟩

def targetOf (raw : String) : TargetSpec := ⟨backendScheme raw, backendModel raw⟩

def strategyName : Grammar.Strategy → StrategyName
  | .single => .single
  | .parallelFanOut _ => .parallel
  | .escalatingRetry _ => .escalatingRetry

def aggregatorName : Grammar.Strategy → AggregatorName
  | .parallelFanOut _ => .concat
  | _ => .first

def rungsOf (phase : Grammar.Phase) : List PhaseRung :=
  match phase.strategy with
  | .single => [mediumRung (phase.backends.head?.getD "")]
  | _ => phase.backends.map mediumRung

def targetsOf (phase : Grammar.Phase) : List TargetSpec :=
  match phase.strategy with
  | .parallelFanOut _ => phase.backends.map targetOf
  | _ => []

def minResponsesOf : Grammar.Strategy → ℕ
  | .parallelFanOut minResponses => minResponses
  | _ => 1

def producerOf : Grammar.Strategy → Producer
  | .single => .single
  | .parallelFanOut _ => .parallel
  | .escalatingRetry _ => .escalating

def passFailureContextOf : Grammar.Strategy → Bool
  | .escalatingRetry passFailureContext => passFailureContext
  | _ => false

/-- The configuration of a phase with its prompt rendered over the inputs. -/
def configOf (phase : Grammar.Phase) (renderedPrompt : String) : PhaseConfig where
  phase := phase.name
  strategy := strategyName phase.strategy
  aggregator := aggregatorName phase.strategy
  verify := .none
  artefactName := phase.output
  artefactKind := kindFromFilename phase.output
  producer := producerOf phase.strategy
  promptTemplate := renderedPrompt
  backend := phase.backends.head?.map backendScheme
  targets := targetsOf phase
  minResponses := minResponsesOf phase.strategy
  rungs := rungsOf phase
  passFailureContext := passFailureContextOf phase.strategy

def buildPhaseConfig (phase : Grammar.Phase) (phaseOutputs : String → Option PhaseOutput)
    (specContent : Option String) (vars : String → Option String) :
    Except BuildError PhaseConfig :=
  match render phase.promptTemplate ⟨specContent, phaseOutputs, vars⟩ with
  | .ok renderedPrompt => .ok (configOf phase renderedPrompt)
  | .error e => .error ⟨"Template render failed for phase '" ++ phase.name ++ "'", e⟩

variable {phase : Grammar.Phase} {phaseOutputs : String → Option PhaseOutput}
  {specContent : Option String} {vars : String → Option String} {cfg : PhaseConfig}

lemma buildPhaseConfig_eq_ok (h : buildPhaseConfig phase phaseOutputs specContent vars = .ok cfg) :
    ∃ renderedPrompt, render phase.promptTemplate ⟨specContent, phaseOutputs, vars⟩ =
      .ok renderedPrompt ∧ cfg = configOf phase renderedPrompt := by
  unfold buildPhaseConfig at h
  cases hr : render phase.promptTemplate ⟨specContent, phaseOutputs, vars⟩ with
  | ok renderedPrompt =>
      rw [hr] at h
      exact ⟨renderedPrompt, rfl, (Except.ok.inj h).symm⟩
  | error e =>
      rw [hr] at h
      cases h

end Build

section Dispatch

/-- The strategy of the phase has all it needs although no verify hook is given. -/
def Served (phase : Grammar.Phase) : Prop :=
  match phase.strategy with
  | .single => phase.backends ≠ []
  | .parallelFanOut minResponses => 0 < minResponses
  | .escalatingRetry _ => False

instance (phase : Grammar.Phase) : Decidable (Served phase) := by
  unfold Served
  split <;> infer_instance

lemma expectedProducer_strategyName (s : Grammar.Strategy) :
    producerOf s = expectedProducer (strategyName s) := by
  cases s <;> rfl

variable {V : Type}

lemma strategyReady_configOf {phase : Grammar.Phase} {renderedPrompt : String} :
    StrategyReady (configOf phase renderedPrompt) (none : Option V) ↔ Served phase := by
  obtain ⟨name, strategy, backends, template, inputs, output⟩ := phase
  cases strategy with
  | single => cases backends <;> simp [StrategyReady, configOf, strategyName, Served]
  | parallelFanOut minResponses =>
      simp [StrategyReady, configOf, strategyName, Served, minResponsesOf]
  | escalatingRetry passFailureContext =>
      simp [StrategyReady, configOf, strategyName, Served]

/-- A phase, run without a verify hook as the bridge runs it, is dispatched without an error
exactly when it is served. -/
theorem dispatchable_iff_served {phase : Grammar.Phase}
    {phaseOutputs : String → Option PhaseOutput} {specContent : Option String}
    {vars : String → Option String} {cfg : PhaseConfig}
    (hcfg : buildPhaseConfig phase phaseOutputs specContent vars = .ok cfg) :
    Dispatchable cfg (none : Option V) ↔ Served phase := by
  obtain ⟨renderedPrompt, _, rfl⟩ := buildPhaseConfig_eq_ok hcfg
  rw [dispatchable_iff, strategyReady_configOf]
  have hproducer : (configOf phase renderedPrompt).producer =
      expectedProducer (configOf phase renderedPrompt).strategy :=
    expectedProducer_strategyName phase.strategy
  exact and_iff_right hproducer

/-- One phase for each way to pass validation and not be served. -/
def unserved : Grammar.Workflow where
  name := "unserved"
  phases := [⟨"ask", .single, [], "Go", [], "ask.md"⟩,
    ⟨"poll", .parallelFanOut 0, ["claude/"], "Go", [], "poll.md"⟩,
    ⟨"climb", .escalatingRetry true, ["claude/", "codex/"], "Go", [], "climb.md"⟩]

theorem dispatchable_iff_served_poll :
    Dispatchable (configOf ⟨"poll", .parallelFanOut 1, ["claude/"], "Go", [], "poll.md"⟩ "Go")
      (none : Option Unit) ↔
        Served ⟨"poll", .parallelFanOut 1, ["claude/"], "Go", [], "poll.md"⟩ :=
  dispatchable_iff_served (show buildPhaseConfig
    ⟨"poll", .parallelFanOut 1, ["claude/"], "Go", [], "poll.md"⟩ (fun _ => none) none
    (fun _ => none) = .ok _ from rfl)

lemma unserved_render {phase : Grammar.Phase} (h : phase ∈ unserved.phases) :
    render phase.promptTemplate ⟨none, fun _ => none, fun _ => none⟩ = .ok "Go" ∧
      ¬ Served phase := by
  simp only [unserved, List.mem_cons, List.not_mem_nil, or_false] at h
  rcases h with rfl | rfl | rfl
  · exact ⟨rfl, by decide⟩
  · exact ⟨rfl, by decide⟩
  · exact ⟨rfl, by decide⟩

theorem unserved_not_dispatchable :
    Grammar.validate unserved = [] ∧ ∀ phase ∈ unserved.phases, ∃ cfg,
      buildPhaseConfig phase (fun _ => none) none (fun _ => none) = .ok cfg ∧
        ¬ Dispatchable cfg (none : Option Unit) := by
  refine ⟨by decide, fun phase hphase => ?_⟩
  obtain ⟨hrender, hserved⟩ := unserved_render hphase
  refine ⟨configOf phase "Go", ?_, fun hdispatch => ?_⟩
  · simp only [buildPhaseConfig, hrender]
  · obtain ⟨_, hready⟩ := dispatchable_iff.mp hdispatch
    exact hserved (strategyReady_configOf.mp hready)

end Dispatch

end Loker.PhaseBridge
