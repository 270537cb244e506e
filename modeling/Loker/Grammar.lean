import Loker.TextOps

/-! The phase workflow grammar: backend and input references and the validation pass. -/

namespace Loker.Grammar

open TextOps

inductive Strategy where
  | single
  | parallelFanOut (minResponses : ℕ)
  | escalatingRetry (passFailureContext : Bool)
  deriving DecidableEq, Repr

structure Phase where
  name : String
  strategy : Strategy
  backends : List String
  promptTemplate : String
  inputs : List String
  output : String
  deriving DecidableEq, Repr

structure Workflow where
  name : String
  phases : List Phase
  deriving DecidableEq, Repr

inductive BackendRef where
  | tensorZero (function : String)
  | claude
  | codex
  | gemini
  | ollama (model : String)
  deriving DecidableEq, Repr

inductive InputRef where
  | phaseRef (name : String)
  | varRef (name : String)
  | spec
  deriving DecidableEq, Repr

inductive WorkflowError where
  | unknownBackendScheme (scheme : String)
  | forwardInputRef (source target : String)
  | unknownPhaseRef (source target : String)
  | minResponsesExceedsBackends (phase : String) (min count : ℕ)
  | tooFewBackendsForEscalating (phase : String) (count : ℕ)
  | noPhases
  | duplicatePhaseName (name : String)
  | invalidInputRef (raw : String)
  | malformedBackendRef (raw : String)
  deriving DecidableEq, Repr

def WorkflowError.toString : WorkflowError → String
  | .unknownBackendScheme scheme => "Unknown backend scheme: '" ++ scheme ++ "'"
  | .forwardInputRef source target =>
      "Phase '" ++ source ++ "' references phase '" ++ target ++ "' which is declared later"
  | .unknownPhaseRef source target =>
      "Phase '" ++ source ++ "' references unknown phase '" ++ target ++ "'"
  | .minResponsesExceedsBackends phase min count =>
      "ParallelFanOut.min_responses (" ++ min.repr ++ ") exceeds number of backends (" ++
        count.repr ++ ") in phase '" ++ phase ++ "'"
  | .tooFewBackendsForEscalating phase count =>
      "EscalatingRetry requires at least 2 backends, got " ++ count.repr ++ " in phase '" ++
        phase ++ "'"
  | .noPhases => "Workflow has no phases"
  | .duplicatePhaseName name => "Duplicate phase name: '" ++ name ++ "'"
  | .invalidInputRef raw => "Invalid input reference: '" ++ raw ++ "'"
  | .malformedBackendRef raw => "Malformed backend reference: '" ++ raw ++ "'"

section References

def resolveBackendScheme (s : String) : Except WorkflowError BackendRef :=
  match splitOnce s '/' with
  | none => .error (.malformedBackendRef s)
  | some ("tensorzero", rest) =>
      if rest = "" then .error (.malformedBackendRef s) else .ok (.tensorZero rest)
  | some ("claude", rest) =>
      if rest ≠ "" then .error (.malformedBackendRef s) else .ok .claude
  | some ("codex", rest) =>
      if rest ≠ "" then .error (.malformedBackendRef s) else .ok .codex
  | some ("gemini", rest) =>
      if rest ≠ "" then .error (.malformedBackendRef s) else .ok .gemini
  | some ("ollama", rest) =>
      if rest = "" then .error (.malformedBackendRef s) else .ok (.ollama rest)
  | some _ => .error (.unknownBackendScheme s)

def parseInputRef (s : String) : Except WorkflowError InputRef :=
  if s = "spec" then .ok .spec
  else
    match stripPrefix s "phase:", stripPrefix s "var:" with
    | some name, _ => if name = "" then .error (.invalidInputRef s) else .ok (.phaseRef name)
    | none, some name => if name = "" then .error (.invalidInputRef s) else .ok (.varRef name)
    | none, none => .error (.invalidInputRef s)

/-- Every reference resolved, or the errors of all that fail. -/
def resolveAll {α : Type} (parse : String → Except WorkflowError α) (raws : List String) :
    Except (List WorkflowError) (List α) :=
  let errors := raws.filterMap fun raw =>
    match parse raw with
    | .ok _ => none
    | .error e => some e
  if errors = [] then
    .ok (raws.filterMap fun raw => (parse raw).toOption)
  else .error errors

def resolveBackends (phase : Phase) : Except (List WorkflowError) (List BackendRef) :=
  resolveAll resolveBackendScheme phase.backends

def resolveInputs (phase : Phase) : Except (List WorkflowError) (List InputRef) :=
  resolveAll parseInputRef phase.inputs

end References

section Validate

/-- The phases whose name an earlier one has. -/
def duplicateErrors : List Phase → List String → List WorkflowError
  | [], _ => []
  | phase :: phases, seen =>
      let errors := duplicateErrors phases (phase.name :: seen)
      if phase.name ∈ seen then .duplicatePhaseName phase.name :: errors else errors

/-- The position a name maps to: the last one when it is repeated. -/
def phaseIndex (phases : List Phase) (name : String) : Option ℕ :=
  (phases.zipIdx.reverse.find? fun x => x.1.name = name).map (·.2)

def inputError (phases : List Phase) (phase : Phase) : InputRef → Option WorkflowError
  | .phaseRef target =>
      match phaseIndex phases target, phaseIndex phases phase.name with
      | some targetIdx, some phaseIdx =>
          if phaseIdx ≤ targetIdx then some (.forwardInputRef phase.name target) else none
      | some _, none => none
      | none, _ => some (.unknownPhaseRef phase.name target)
  | _ => none

def strategyErrors (phase : Phase) (resolvedBackends : ℕ) : List WorkflowError :=
  match phase.strategy with
  | .parallelFanOut minResponses =>
      if minResponses > resolvedBackends then
        [.minResponsesExceedsBackends phase.name minResponses resolvedBackends]
      else []
  | .escalatingRetry _ =>
      if resolvedBackends < 2 then [.tooFewBackendsForEscalating phase.name resolvedBackends]
      else []
  | .single => []

def phaseErrors (phases : List Phase) (phase : Phase) : List WorkflowError :=
  let (backends, backendErrors) :=
    match resolveBackends phase with
    | .ok refs => (refs, [])
    | .error errors => ([], errors)
  let (inputs, inputErrors) :=
    match resolveInputs phase with
    | .ok refs => (refs, [])
    | .error errors => ([], errors)
  backendErrors ++ inputErrors ++ inputs.filterMap (inputError phases phase) ++
    strategyErrors phase backends.length

def validate (wf : Workflow) : List WorkflowError :=
  if wf.phases = [] then [.noPhases]
  else duplicateErrors wf.phases [] ++ wf.phases.flatMap (phaseErrors wf.phases)

end Validate

section Valid

variable {wf : Workflow}

lemma phaseErrors_nil (h : validate wf = []) {phase : Phase} (hp : phase ∈ wf.phases) :
    phaseErrors wf.phases phase = [] := by
  unfold validate at h
  split at h
  · cases h
  · exact List.flatMap_eq_nil_iff.mp (List.append_eq_nil_iff.mp h).2 phase hp

lemma length_resolveAll {α : Type} {parse : String → Except WorkflowError α}
    {raws : List String} {refs : List α} (h : resolveAll parse raws = .ok refs) :
    refs.length = raws.length := by
  unfold resolveAll at h
  dsimp only at h
  split at h
  · next hnone =>
    obtain rfl := Except.ok.inj h
    rw [List.filterMap_eq_nil_iff] at hnone
    rw [List.length_filterMap_eq_countP, List.countP_eq_length]
    intro raw hraw
    have hok := hnone raw hraw
    cases hparse : parse raw with
    | ok ref => simp [Except.toOption]
    | error e => simp [hparse] at hok
  · cases h

lemma duplicateErrors_nil {phases : List Phase} {seen : List String}
    (h : duplicateErrors phases seen = []) :
    (phases.map Phase.name).Nodup ∧ ∀ p ∈ phases, p.name ∉ seen := by
  induction phases generalizing seen with
  | nil => simp
  | cons phase phases ih =>
      unfold duplicateErrors at h
      dsimp only at h
      split at h
      · cases h
      · next hnot =>
        obtain ⟨hnodup, hseen⟩ := ih h
        refine ⟨?_, ?_⟩
        · rw [List.map_cons, List.nodup_cons]
          refine ⟨fun hmem => ?_, hnodup⟩
          obtain ⟨p, hp, hname⟩ := List.mem_map.mp hmem
          exact hseen p hp (hname ▸ List.mem_cons_self)
        · intro p hp
          rcases List.mem_cons.mp hp with rfl | hp
          · exact hnot
          · exact fun hmem => hseen p hp (List.mem_cons_of_mem _ hmem)

lemma nodup_names (h : validate wf = []) : (wf.phases.map Phase.name).Nodup := by
  unfold validate at h
  split at h
  · cases h
  · exact (duplicateErrors_nil (List.append_eq_nil_iff.mp h).1).1

end Valid

end Loker.Grammar
