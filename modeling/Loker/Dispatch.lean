import Loker.RunFiles

/-! Phase configurations and their dispatch to a strategy, an aggregator and a verify hook. -/

namespace Loker.Dispatch

open RunFiles

inductive StrategyName where
  | single
  | parallel
  | escalatingRetry
  deriving DecidableEq, Repr

inductive AggregatorName where
  | first
  | concat
  | vote
  | anyFail
  | allPass
  deriving DecidableEq, Repr

inductive VerifyHookName where
  | none
  | runCommand
  | llmVerifier
  | humanVerifier
  deriving DecidableEq, Repr

inductive Tier where
  | cheap
  | medium
  | strong
  deriving DecidableEq, Repr

def Tier.asStr : Tier → String
  | .cheap => "cheap"
  | .medium => "medium"
  | .strong => "strong"

structure TargetSpec where
  backend : String
  model : Option String
  deriving DecidableEq, Repr

structure PhaseRung where
  tier : Tier
  backend : String
  deriving DecidableEq, Repr

structure PhaseConfig where
  phase : String
  strategy : StrategyName
  aggregator : AggregatorName
  verify : VerifyHookName
  artefactName : String
  artefactKind : Kind
  producer : Producer
  promptTemplate : String
  backend : Option String
  targets : List TargetSpec
  minResponses : ℕ
  rungs : List PhaseRung
  passFailureContext : Bool
  deriving DecidableEq, Repr

def PhaseConfig.single (phase backend promptTemplate artefactName : String) : PhaseConfig where
  phase := phase
  strategy := .single
  aggregator := .first
  verify := .none
  artefactName := artefactName
  artefactKind := .designMd
  producer := .single
  promptTemplate := promptTemplate
  backend := some backend
  targets := []
  minResponses := 1
  rungs := []
  passFailureContext := false

/-- Why a phase cannot be dispatched: an error value, or a failed assertion that aborts. -/
inductive DispatchError where
  | invalidConfig (message : String)
  | assertionFailed (message : String)
  deriving DecidableEq, Repr

def StrategyName.debug : StrategyName → String
  | .single => "Single"
  | .parallel => "Parallel"
  | .escalatingRetry => "EscalatingRetry"

def producerDebug : Producer → String
  | .single => "Single"
  | .parallel => "Parallel"
  | .escalating => "Escalating"
  | .verify => "Verify"
  | .hitl => "Hitl"

def expectedProducer : StrategyName → Producer
  | .single => .single
  | .parallel => .parallel
  | .escalatingRetry => .escalating

def validateConfig (cfg : PhaseConfig) : Except DispatchError Unit :=
  let expected := expectedProducer cfg.strategy
  if cfg.producer ≠ expected then
    .error (.invalidConfig ("producer " ++ producerDebug cfg.producer ++
      " does not match strategy " ++ cfg.strategy.debug ++ "; expected " ++
      producerDebug expected))
  else .ok ()

/-- A strategy with the configuration it was built from; `V` is the verify hook. -/
inductive Strategy (V : Type) where
  | singleModel (backend promptTemplate : String)
  | parallelFanOut (targets : List TargetSpec) (minResponses : ℕ) (promptTemplate : String)
      (aggregator : AggregatorName)
  | escalatingRetry (rungs : List PhaseRung) (promptTemplate : String) (verify : V)
      (passFailureContext : Bool)

variable {V : Type}

/-- The constructor asserts a positive floor. -/
def newParallelFanOut (targets : List TargetSpec) (minResponses : ℕ) (promptTemplate : String)
    (aggregator : AggregatorName) : Except DispatchError (Strategy V) :=
  if minResponses > 0 then
    .ok (.parallelFanOut targets minResponses promptTemplate aggregator)
  else
    .error (.assertionFailed ("min_responses must be greater than 0, got " ++
      minResponses.repr))

def resolveStrategy (cfg : PhaseConfig) (verify : Option V) :
    Except DispatchError (Strategy V) :=
  match cfg.strategy with
  | .single =>
      match cfg.backend with
      | some backend => .ok (.singleModel backend cfg.promptTemplate)
      | none => .error (.invalidConfig "single strategy requires backend")
  | .parallel =>
      newParallelFanOut cfg.targets cfg.minResponses cfg.promptTemplate cfg.aggregator
  | .escalatingRetry =>
      match verify with
      | some verify => .ok (.escalatingRetry cfg.rungs cfg.promptTemplate verify
          cfg.passFailureContext)
      | none => .error (.invalidConfig "escalating_retry strategy requires verify hook")

/-- The phase passes the runner's check and gets a strategy. -/
def Dispatchable (cfg : PhaseConfig) (verify : Option V) : Prop :=
  validateConfig cfg = .ok () ∧ ∃ strategy, resolveStrategy cfg verify = .ok strategy

/-- What each strategy needs of the configuration. -/
def StrategyReady (cfg : PhaseConfig) (verify : Option V) : Prop :=
  match cfg.strategy with
  | .single => cfg.backend.isSome
  | .parallel => 0 < cfg.minResponses
  | .escalatingRetry => verify.isSome

lemma validateConfig_ok {cfg : PhaseConfig} :
    validateConfig cfg = .ok () ↔ cfg.producer = expectedProducer cfg.strategy := by
  unfold validateConfig
  by_cases h : cfg.producer = expectedProducer cfg.strategy <;> simp [h]

theorem dispatchable_iff {cfg : PhaseConfig} {verify : Option V} :
    Dispatchable cfg verify ↔
      cfg.producer = expectedProducer cfg.strategy ∧ StrategyReady cfg verify := by
  refine and_congr validateConfig_ok ?_
  unfold resolveStrategy StrategyReady newParallelFanOut
  cases cfg.strategy with
  | single => cases cfg.backend <;> simp
  | parallel => by_cases h : 0 < cfg.minResponses <;> simp [h]
  | escalatingRetry => cases verify <;> simp

end Loker.Dispatch
