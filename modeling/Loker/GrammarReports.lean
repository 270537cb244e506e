import Loker.Grammar

/-! What the validation of a phase workflow reports, against the conditions that its phases
violate. -/

namespace Loker.GrammarReports

open TextOps Grammar

section Conditions

/-- A condition that a phase can violate, with what of the phase it is about. -/
inductive Condition where
  | distinctName
  | backend (raw : String)
  | input (raw : String)
  | earlier (target : String)
  | responses
  | escalation
  deriving DecidableEq, Repr

def DeclaredBefore (phases : List Phase) (i : ℕ) (target : String) : Prop :=
  target ∈ (phases.take i).map Phase.name

instance (phases : List Phase) (i : ℕ) (target : String) :
    Decidable (DeclaredBefore phases i target) :=
  inferInstanceAs (Decidable (target ∈ (phases.take i).map Phase.name))

def References (phase : Phase) (target : String) : Prop :=
  ∃ raw ∈ phase.inputs, parseInputRef raw = .ok (.phaseRef target)

/-- The phase at the position violates the condition. -/
def Violates (phases : List Phase) (i : ℕ) (phase : Phase) : Condition → Prop
  | .distinctName => DeclaredBefore phases i phase.name
  | .backend raw => raw ∈ phase.backends ∧ ∃ e, resolveBackendScheme raw = .error e
  | .input raw => raw ∈ phase.inputs ∧ ∃ e, parseInputRef raw = .error e
  | .earlier target => References phase target ∧ ¬ DeclaredBefore phases i target
  | .responses => ∃ min, phase.strategy = .parallelFanOut min ∧ phase.backends.length < min
  | .escalation =>
      (∃ context, phase.strategy = .escalatingRetry context) ∧ phase.backends.length < 2

/-- The condition that an error names, of a phase with this name. -/
def named (name : String) : WorkflowError → Option Condition
  | .duplicatePhaseName n => if n = name then some .distinctName else none
  | .unknownBackendScheme raw => some (.backend raw)
  | .malformedBackendRef raw => some (.backend raw)
  | .invalidInputRef raw => some (.input raw)
  | .forwardInputRef source target => if source = name then some (.earlier target) else none
  | .unknownPhaseRef source target => if source = name then some (.earlier target) else none
  | .minResponsesExceedsBackends phase _ _ => if phase = name then some .responses else none
  | .tooFewBackendsForEscalating phase _ => if phase = name then some .escalation else none
  | .noPhases => none

/-- The documented conditions. -/
structure Documented (wf : Workflow) : Prop where
  phases : wf.phases ≠ []
  names : (wf.phases.map Phase.name).Nodup
  earlier : ∀ i phase, wf.phases[i]? = some phase → ∀ target, References phase target →
    DeclaredBefore wf.phases i target
  backends : ∀ phase ∈ wf.phases, ∀ raw ∈ phase.backends, ∃ ref, resolveBackendScheme raw = .ok ref
  inputs : ∀ phase ∈ wf.phases, ∀ raw ∈ phase.inputs, ∃ ref, parseInputRef raw = .ok ref
  responses : ∀ phase ∈ wf.phases, ∀ min, phase.strategy = .parallelFanOut min →
    min ≤ phase.backends.length
  escalation : ∀ phase ∈ wf.phases, ∀ context, phase.strategy = .escalatingRetry context →
    2 ≤ phase.backends.length

end Conditions

section Errors

variable {wf : Workflow} {phases : List Phase} {phase : Phase} {e : WorkflowError} {i : ℕ}

lemma resolveBackendScheme_error {raw : String} (h : resolveBackendScheme raw = .error e) :
    e = .unknownBackendScheme raw ∨ e = .malformedBackendRef raw := by
  unfold resolveBackendScheme at h
  split at h
  · exact Or.inr (Except.error.inj h).symm
  all_goals first
    | exact Or.inl (Except.error.inj h).symm
    | (split at h
       · exact Or.inr (Except.error.inj h).symm
       · cases h)

lemma parseInputRef_error {raw : String} (h : parseInputRef raw = .error e) :
    e = .invalidInputRef raw := by
  unfold parseInputRef at h
  split at h
  · cases h
  split at h
  · split at h
    · exact (Except.error.inj h).symm
    · cases h
  · split at h
    · exact (Except.error.inj h).symm
    · cases h
  · exact (Except.error.inj h).symm

/-- Every reference resolves. -/
def AllResolve {α : Type} (parse : String → Except WorkflowError α) (raws : List String) : Prop :=
  ∀ raw ∈ raws, ∃ ref, parse raw = .ok ref

lemma resolveAll_cases {α : Type} (parse : String → Except WorkflowError α) (raws : List String) :
    (AllResolve parse raws ∧
      resolveAll parse raws = .ok (raws.filterMap fun raw => (parse raw).toOption)) ∨
    (¬ AllResolve parse raws ∧ ∃ errors, resolveAll parse raws = .error errors ∧
      ∀ e, e ∈ errors ↔ ∃ raw ∈ raws, parse raw = .error e) := by
  unfold resolveAll
  dsimp only
  generalize herrors : (raws.filterMap _ : List WorkflowError) = errors
  have hmem : ∀ e, e ∈ errors ↔ ∃ raw ∈ raws, parse raw = .error e := by
    intro e
    rw [← herrors, List.mem_filterMap]
    apply exists_congr
    intro raw
    apply and_congr_right
    intro _
    cases parse raw with
    | ok ref => simp
    | error e' => simp
  split
  · next hnil =>
    left
    refine ⟨fun raw hraw => ?_, rfl⟩
    cases hparse : parse raw with
    | ok ref => exact ⟨ref, rfl⟩
    | error e =>
        have hin : e ∈ ([] : List WorkflowError) := by
          rw [← hnil]
          exact (hmem e).mpr ⟨raw, hraw, hparse⟩
        cases hin
  · next hne =>
    right
    refine ⟨fun hall => hne ?_, _, rfl, hmem⟩
    rw [List.eq_nil_iff_forall_not_mem]
    intro e he
    obtain ⟨raw, hraw, hparse⟩ := (hmem e).mp he
    obtain ⟨ref, href⟩ := hall raw hraw
    rw [hparse] at href
    cases href

open Classical in
/-- How many backends the strategy is checked against. -/
noncomputable def countOf (phase : Phase) : ℕ :=
  if AllResolve resolveBackendScheme phase.backends then phase.backends.length else 0

lemma countOf_le (phase : Phase) : countOf phase ≤ phase.backends.length := by
  unfold countOf
  split
  · exact Nat.le_refl _
  · exact Nat.zero_le _

/-- All that the pass reports while it is at a phase, its name apart. -/
lemma mem_phaseErrors : e ∈ phaseErrors phases phase ↔
    (∃ raw ∈ phase.backends, resolveBackendScheme raw = .error e) ∨
    (∃ raw ∈ phase.inputs, parseInputRef raw = .error e) ∨
    (AllResolve parseInputRef phase.inputs ∧
      ∃ target, References phase target ∧ inputError phases phase (.phaseRef target) = some e) ∨
    e ∈ strategyErrors phase (countOf phase) := by
  have hinputs : ∀ ref, ref ∈ (phase.inputs.filterMap fun raw => (parseInputRef raw).toOption) ↔
      ∃ raw ∈ phase.inputs, parseInputRef raw = .ok ref := by
    intro ref
    rw [List.mem_filterMap]
    apply exists_congr
    intro raw
    apply and_congr_right
    intro _
    cases parseInputRef raw with
    | ok ref' => simp [Except.toOption]
    | error e' => simp [Except.toOption]
  have htargets : e ∈ (phase.inputs.filterMap fun raw => (parseInputRef raw).toOption).filterMap
      (inputError phases phase) ↔
        ∃ target, References phase target ∧ inputError phases phase (.phaseRef target) = some e := by
    rw [List.mem_filterMap]
    constructor
    · rintro ⟨ref, href, herror⟩
      cases ref with
      | phaseRef target => exact ⟨target, (hinputs _).mp href, herror⟩
      | varRef name => cases herror
      | spec => cases herror
    · rintro ⟨target, href, herror⟩
      exact ⟨_, (hinputs _).mpr href, herror⟩
  have hno : ∀ {α : Type} {parse : String → Except WorkflowError α} {raws : List String},
      AllResolve parse raws → ¬ ∃ raw ∈ raws, parse raw = .error e := by
    rintro α parse raws hall ⟨raw, hraw, herror⟩
    obtain ⟨ref, href⟩ := hall raw hraw
    rw [herror] at href
    cases href
  unfold phaseErrors resolveBackends resolveInputs countOf
  obtain ⟨hall, hbackends⟩ | ⟨hsome, errors, hbackends, herrors⟩ :=
    resolveAll_cases resolveBackendScheme phase.backends
  · have hlength := length_resolveAll hbackends
    obtain ⟨hall', hinputRefs⟩ | ⟨hsome', errors', hinputRefs, herrors'⟩ :=
      resolveAll_cases parseInputRef phase.inputs
    · simp only [hbackends, hinputRefs, hlength, List.nil_append, List.mem_append,
        htargets, hall, hall', if_true, hno hall, hno hall', false_or, true_and]
    · simp only [hbackends, hinputRefs, hlength, List.nil_append, List.mem_append, herrors',
        List.filterMap_nil, List.append_nil, hall, hsome', if_true, hno hall, false_or, false_and]
  · obtain ⟨hall', hinputRefs⟩ | ⟨hsome', errors', hinputRefs, herrors'⟩ :=
      resolveAll_cases parseInputRef phase.inputs
    · simp only [hbackends, hinputRefs, List.mem_append, htargets, herrors,
        hsome, hall', if_false, hno hall', List.append_nil, List.length_nil, false_or, true_and,
        or_assoc]
    · simp only [hbackends, hinputRefs, List.mem_append, herrors, herrors', hsome, hsome', if_false,
        List.filterMap_nil, List.append_nil, List.length_nil, false_or, false_and, or_assoc]

/-- The error for a repeated name, when the pass comes to the phase. -/
def duplicateAt (phases : List Phase) (i : ℕ) (phase : Phase) : List WorkflowError :=
  if phase.name ∈ (phases.take i).map Phase.name then [.duplicatePhaseName phase.name] else []

/-- What is reported for the phase at the position. -/
def errorsAt (phases : List Phase) (i : ℕ) (phase : Phase) : List WorkflowError :=
  duplicateAt phases i phase ++ phaseErrors phases phase

lemma duplicateErrors_eq (done waiting : List Phase) :
    duplicateErrors waiting (done.map Phase.name).reverse =
      (waiting.zipIdx done.length).flatMap fun x => duplicateAt (done ++ waiting) x.2 x.1 := by
  induction waiting generalizing done with
  | nil => rfl
  | cons phase waiting ih =>
      have hnext := ih (done ++ [phase])
      rw [List.map_append, List.reverse_append, List.length_append, List.append_assoc] at hnext
      have htake : ((done ++ phase :: waiting).take done.length).map Phase.name =
          done.map Phase.name := by
        rw [List.take_left]
      rw [List.zipIdx_cons, List.flatMap_cons, duplicateErrors, duplicateAt, htake]
      change (if phase.name ∈ (done.map Phase.name).reverse then
        _ :: duplicateErrors waiting (phase.name :: (done.map Phase.name).reverse)
        else duplicateErrors waiting (phase.name :: (done.map Phase.name).reverse)) = _
      rw [show phase.name :: (done.map Phase.name).reverse =
        ([phase].map Phase.name).reverse ++ (done.map Phase.name).reverse from rfl, hnext]
      simp only [List.mem_reverse]
      split
      · rfl
      · rfl

/-- Everything reported is reported for a phase, at its position. -/
lemma validate_perm (h : wf.phases ≠ []) :
    (validate wf).Perm (wf.phases.zipIdx.flatMap fun x => errorsAt wf.phases x.2 x.1) := by
  have hnames : duplicateErrors wf.phases [] =
      wf.phases.zipIdx.flatMap fun x => duplicateAt wf.phases x.2 x.1 :=
    duplicateErrors_eq [] wf.phases
  have hphases : wf.phases.flatMap (phaseErrors wf.phases) =
      wf.phases.zipIdx.flatMap fun x => phaseErrors wf.phases x.1 := by
    have hfst : (wf.phases.zipIdx.map Prod.fst).flatMap (phaseErrors wf.phases) =
        wf.phases.flatMap (phaseErrors wf.phases) := by rw [List.zipIdx_map_fst]
    rw [← hfst, List.flatMap_map]
  rw [validate, if_neg h, hnames, hphases]
  exact List.flatMap_append_perm _ _ _

lemma mem_validate (h : wf.phases ≠ []) : e ∈ validate wf ↔
    ∃ i phase, wf.phases[i]? = some phase ∧ e ∈ errorsAt wf.phases i phase := by
  rw [(validate_perm h).mem_iff, List.mem_flatMap]
  constructor
  · rintro ⟨⟨phase, i⟩, hmem, he⟩
    exact ⟨i, phase, List.mem_zipIdx_iff_getElem?.mp hmem, he⟩
  · rintro ⟨i, phase, hi, he⟩
    exact ⟨(phase, i), List.mem_zipIdx_iff_getElem?.mpr hi, he⟩

lemma mem_strategyErrors {count : ℕ} : e ∈ strategyErrors phase count ↔
    (∃ min, phase.strategy = .parallelFanOut min ∧ count < min ∧
      e = .minResponsesExceedsBackends phase.name min count) ∨
    ∃ context, phase.strategy = .escalatingRetry context ∧ count < 2 ∧
      e = .tooFewBackendsForEscalating phase.name count := by
  unfold strategyErrors
  cases phase.strategy with
  | single => simp
  | parallelFanOut min =>
      by_cases hmin : count < min
      · simp [hmin]
      · simp [hmin]
  | escalatingRetry context =>
      by_cases htwo : count < 2
      · simp [htwo]
      · simp [htwo]

lemma noPhases_not_mem (i : ℕ) : .noPhases ∉ errorsAt phases i phase := by
  intro h
  rcases List.mem_append.mp h with hduplicate | hphase
  · unfold duplicateAt at hduplicate
    split at hduplicate
    · simp at hduplicate
    · cases hduplicate
  · obtain ⟨raw, _, hraw⟩ | ⟨raw, _, hraw⟩ | ⟨_, target, _, herror⟩ | hstrategy :=
      mem_phaseErrors.mp hphase
    · rcases resolveBackendScheme_error hraw with heq | heq
      · cases heq
      · cases heq
    · cases parseInputRef_error hraw
    · unfold inputError at herror
      dsimp only at herror
      split at herror
      · split at herror
        · cases herror
        · cases herror
      · cases herror
      · cases herror
    · obtain ⟨min, _, _, heq⟩ | ⟨context, _, _, heq⟩ := mem_strategyErrors.mp hstrategy
      · cases heq
      · cases heq

end Errors

section Positions

variable {wf : Workflow} {phases : List Phase} {phase : Phase} {e : WorkflowError} {i : ℕ}
  {target : String}

/-- By the positions that the names map to, the target stands before the phase. -/
def Precedes (phases : List Phase) (target name : String) : Prop :=
  ∃ k l, phaseIndex phases target = some k ∧ phaseIndex phases name = some l ∧ k < l

lemma phaseIndex_isSome (h : phase ∈ phases) : ∃ l, phaseIndex phases phase.name = some l := by
  obtain ⟨l, hl⟩ := List.mem_iff_getElem?.mp h
  cases hfind : phases.zipIdx.reverse.find? fun x => x.1.name = phase.name with
  | none =>
      have hno := List.find?_eq_none.mp hfind (phase, l)
        (List.mem_reverse.mpr (List.mem_zipIdx_iff_getElem?.mpr hl))
      simp at hno
  | some x => exact ⟨x.2, by rw [phaseIndex, hfind]; rfl⟩

/-- An input that names a phase is reported unless the positions say that the phase is earlier. -/
lemma inputError_isSome (h : phase ∈ phases) (target : String) :
    (∃ e, inputError phases phase (.phaseRef target) = some e) ↔
      ¬ Precedes phases target phase.name := by
  obtain ⟨l, hl⟩ := phaseIndex_isSome h
  rw [inputError, hl]
  cases hk : phaseIndex phases target with
  | none => simp [Precedes, hk]
  | some k =>
      by_cases hle : l ≤ k
      · simp [Precedes, hk, hl, hle]
      · simp [Precedes, hk, hl, hle, Nat.lt_of_not_le hle]

lemma inputError_named (h : inputError phases phase (.phaseRef target) = some e) :
    named phase.name e = some (.earlier target) := by
  unfold inputError at h
  dsimp only at h
  split at h
  · split at h
    · obtain rfl := Option.some.inj h
      simp [named]
    · cases h
  · cases h
  · obtain rfl := Option.some.inj h
    simp [named]

end Positions

section Reports

variable {wf : Workflow} {phases : List Phase} {phase : Phase} {e : WorkflowError} {i : ℕ}

/-- Every condition that a phase violates is reported for it, and nothing else is. -/
structure ReportsAt (phases : List Phase) (i : ℕ) (phase : Phase) : Prop where
  complete : ∀ c, Violates phases i phase c →
    ∃ e ∈ errorsAt phases i phase, named phase.name e = some c
  sound : ∀ e ∈ errorsAt phases i phase,
    ∃ c, named phase.name e = some c ∧ Violates phases i phase c

/-- Of a phase with inputs that are all well-formed, what the positions of the names say must be
right; of another one no input is checked at all. -/
def InputsSettled (phases : List Phase) (i : ℕ) (phase : Phase) : Prop :=
  ∀ target, References phase target →
    (AllResolve parseInputRef phase.inputs →
      (Precedes phases target phase.name ↔ DeclaredBefore phases i target)) ∧
    (¬ AllResolve parseInputRef phase.inputs → DeclaredBefore phases i target)

/-- Backends that do not all parse count as none; that must not make a difference. -/
def CountsSettled (phase : Phase) : Prop :=
  AllResolve resolveBackendScheme phase.backends ∨
    match phase.strategy with
    | .single => True
    | .parallelFanOut min => min = 0 ∨ phase.backends.length < min
    | .escalatingRetry _ => phase.backends.length < 2

/-- Where an error reported for a phase comes from, and what it names. -/
lemma errorsAt_cases (he : e ∈ errorsAt phases i phase) :
    (DeclaredBefore phases i phase.name ∧ named phase.name e = some .distinctName) ∨
    (∃ raw ∈ phase.backends, resolveBackendScheme raw = .error e ∧
      named phase.name e = some (.backend raw)) ∨
    (∃ raw ∈ phase.inputs, parseInputRef raw = .error e ∧
      named phase.name e = some (.input raw)) ∨
    (AllResolve parseInputRef phase.inputs ∧ ∃ target, References phase target ∧
      inputError phases phase (.phaseRef target) = some e ∧
        named phase.name e = some (.earlier target)) ∨
    (∃ min, phase.strategy = .parallelFanOut min ∧ countOf phase < min ∧
      named phase.name e = some .responses) ∨
    ∃ context, phase.strategy = .escalatingRetry context ∧ countOf phase < 2 ∧
      named phase.name e = some .escalation := by
  rcases List.mem_append.mp he with hduplicate | hphase
  · unfold duplicateAt at hduplicate
    split at hduplicate
    · next hbefore =>
      obtain rfl := List.mem_singleton.mp hduplicate
      exact Or.inl ⟨hbefore, by simp [named]⟩
    · cases hduplicate
  right
  obtain ⟨raw, hraw, herror⟩ | ⟨raw, hraw, herror⟩ | ⟨hall, target, href, herror⟩ | hcount :=
    mem_phaseErrors.mp hphase
  · refine Or.inl ⟨raw, hraw, herror, ?_⟩
    rcases resolveBackendScheme_error herror with rfl | rfl
    · rfl
    · rfl
  · refine Or.inr (Or.inl ⟨raw, hraw, herror, ?_⟩)
    rw [parseInputRef_error herror]
    rfl
  · exact Or.inr (Or.inr (Or.inl ⟨hall, target, href, herror, inputError_named herror⟩))
  · obtain ⟨min, hstrategy, hlt, rfl⟩ | ⟨context, hstrategy, hlt, rfl⟩ :=
      mem_strategyErrors.mp hcount
    · exact Or.inr (Or.inr (Or.inr (Or.inl ⟨min, hstrategy, hlt, by simp [named]⟩)))
    · exact Or.inr (Or.inr (Or.inr (Or.inr ⟨context, hstrategy, hlt, by simp [named]⟩)))

lemma complete_iff (hi : phases[i]? = some phase) :
    (∀ c, Violates phases i phase c → ∃ e ∈ errorsAt phases i phase, named phase.name e = some c) ↔
      ∀ target, References phase target → ¬ DeclaredBefore phases i target →
        AllResolve parseInputRef phase.inputs ∧ ¬ Precedes phases target phase.name := by
  have hmem : phase ∈ phases := List.mem_of_getElem? hi
  constructor
  · intro h target href hnot
    obtain ⟨e, he, hnamed⟩ := h (.earlier target) ⟨href, hnot⟩
    obtain ⟨_, hc⟩ | ⟨raw, _, _, hc⟩ | ⟨raw, _, _, hc⟩ | ⟨hall, target', _, herror, hc⟩ |
      ⟨min, _, _, hc⟩ | ⟨context, _, _, hc⟩ := errorsAt_cases he
    · rw [hnamed] at hc
      cases hc
    · rw [hnamed] at hc
      cases hc
    · rw [hnamed] at hc
      cases hc
    · rw [hnamed] at hc
      cases hc
      exact ⟨hall, (inputError_isSome hmem target).mp ⟨e, herror⟩⟩
    · rw [hnamed] at hc
      cases hc
    · rw [hnamed] at hc
      cases hc
  · intro h c hc
    cases c with
    | distinctName =>
        refine ⟨.duplicatePhaseName phase.name, List.mem_append_left _ ?_, by simp [named]⟩
        rw [duplicateAt, if_pos (show phase.name ∈ (phases.take i).map Phase.name from hc),
          List.mem_singleton]
    | backend raw =>
        obtain ⟨hraw, e, herror⟩ := hc
        refine ⟨e, List.mem_append_right _ (mem_phaseErrors.mpr (Or.inl ⟨raw, hraw, herror⟩)), ?_⟩
        rcases resolveBackendScheme_error herror with rfl | rfl
        · rfl
        · rfl
    | input raw =>
        obtain ⟨hraw, e, herror⟩ := hc
        refine ⟨e, List.mem_append_right _
          (mem_phaseErrors.mpr (Or.inr (Or.inl ⟨raw, hraw, herror⟩))), ?_⟩
        rw [parseInputRef_error herror]
        rfl
    | earlier target =>
        obtain ⟨href, hnot⟩ := hc
        obtain ⟨hall, hprecedes⟩ := h target href hnot
        obtain ⟨e, herror⟩ := (inputError_isSome hmem target).mpr hprecedes
        exact ⟨e, List.mem_append_right _
          (mem_phaseErrors.mpr (Or.inr (Or.inr (Or.inl ⟨hall, target, href, herror⟩)))),
          inputError_named herror⟩
    | responses =>
        obtain ⟨min, hstrategy, hlt⟩ := hc
        refine ⟨_, List.mem_append_right _ (mem_phaseErrors.mpr (Or.inr (Or.inr (Or.inr
          (mem_strategyErrors.mpr (Or.inl ⟨min, hstrategy, ?_, rfl⟩)))))), by simp [named]⟩
        exact Nat.lt_of_le_of_lt (countOf_le phase) hlt
    | escalation =>
        obtain ⟨⟨context, hstrategy⟩, hlt⟩ := hc
        refine ⟨_, List.mem_append_right _ (mem_phaseErrors.mpr (Or.inr (Or.inr (Or.inr
          (mem_strategyErrors.mpr (Or.inr ⟨context, hstrategy, ?_, rfl⟩)))))), by simp [named]⟩
        exact Nat.lt_of_le_of_lt (countOf_le phase) hlt

lemma sound_iff (hi : phases[i]? = some phase) :
    (∀ e ∈ errorsAt phases i phase, ∃ c, named phase.name e = some c ∧ Violates phases i phase c) ↔
      (∀ target, References phase target → AllResolve parseInputRef phase.inputs →
        ¬ Precedes phases target phase.name → ¬ DeclaredBefore phases i target) ∧
      CountsSettled phase := by
  have hmem : phase ∈ phases := List.mem_of_getElem? hi
  constructor
  · intro h
    constructor
    · intro target href hall hnot
      obtain ⟨e, herror⟩ := (inputError_isSome hmem target).mpr hnot
      obtain ⟨c, hnamed, hviolates⟩ := h e (List.mem_append_right _
        (mem_phaseErrors.mpr (Or.inr (Or.inr (Or.inl ⟨hall, target, href, herror⟩)))))
      rw [inputError_named herror] at hnamed
      obtain rfl := Option.some.inj hnamed
      exact hviolates.2
    · by_cases hall : AllResolve resolveBackendScheme phase.backends
      · exact Or.inl hall
      have hzero : countOf phase = 0 := if_neg hall
      right
      cases hstrategy : phase.strategy with
      | single => trivial
      | parallelFanOut min =>
          rcases Nat.eq_zero_or_pos min with hmin | hmin
          · exact Or.inl hmin
          right
          obtain ⟨c, hnamed, hviolates⟩ := h _ (List.mem_append_right _ (mem_phaseErrors.mpr
            (Or.inr (Or.inr (Or.inr (mem_strategyErrors.mpr
              (Or.inl ⟨min, hstrategy, hzero.trans_lt hmin, rfl⟩)))))))
          rw [named, if_pos rfl] at hnamed
          obtain rfl := Option.some.inj hnamed
          obtain ⟨min', hsame, hlt⟩ := hviolates
          rw [hstrategy] at hsame
          cases hsame
          exact hlt
      | escalatingRetry context =>
          obtain ⟨c, hnamed, hviolates⟩ := h _ (List.mem_append_right _ (mem_phaseErrors.mpr
            (Or.inr (Or.inr (Or.inr (mem_strategyErrors.mpr
              (Or.inr ⟨context, hstrategy, hzero.trans_lt Nat.zero_lt_two, rfl⟩)))))))
          rw [named, if_pos rfl] at hnamed
          obtain rfl := Option.some.inj hnamed
          exact hviolates.2
  · rintro ⟨hinputs, hcounts⟩ e he
    obtain ⟨hbefore, hc⟩ | ⟨raw, hraw, herror, hc⟩ | ⟨raw, hraw, herror, hc⟩ |
      ⟨hall, target, href, herror, hc⟩ | ⟨min, hstrategy, hlt, hc⟩ | ⟨context, hstrategy, hlt, hc⟩ :=
        errorsAt_cases he
    · exact ⟨_, hc, hbefore⟩
    · exact ⟨_, hc, hraw, e, herror⟩
    · exact ⟨_, hc, hraw, e, herror⟩
    · exact ⟨_, hc, href, hinputs target href hall ((inputError_isSome hmem target).mp ⟨e, herror⟩)⟩
    · refine ⟨_, hc, min, hstrategy, ?_⟩
      rcases hcounts with hall | hsettled
      · rw [countOf, if_pos hall] at hlt
        exact hlt
      · rw [hstrategy] at hsettled
        rcases hsettled with hmin | hless
        · omega
        · exact hless
    · refine ⟨_, hc, ⟨context, hstrategy⟩, ?_⟩
      rcases hcounts with hall | hsettled
      · rw [countOf, if_pos hall] at hlt
        exact hlt
      · rw [hstrategy] at hsettled
        exact hsettled

lemma reportsAt_iff (hi : phases[i]? = some phase) :
    ReportsAt phases i phase ↔ InputsSettled phases i phase ∧ CountsSettled phase := by
  constructor
  · intro h
    have hcomplete := (complete_iff hi).mp h.complete
    obtain ⟨hsound, hcounts⟩ := (sound_iff hi).mp h.sound
    refine ⟨fun target href => ⟨fun hall => ⟨fun hprecedes => ?_, fun hbefore => ?_⟩,
      fun hnot => ?_⟩, hcounts⟩
    · by_contra hbefore
      exact (hcomplete target href hbefore).2 hprecedes
    · by_contra hprecedes
      exact hsound target href hall hprecedes hbefore
    · by_contra hbefore
      exact hnot (hcomplete target href hbefore).1
  · rintro ⟨hinputs, hcounts⟩
    refine ⟨(complete_iff hi).mpr fun target href hbefore => ?_,
      (sound_iff hi).mpr ⟨fun target href hall hprecedes hbefore => ?_, hcounts⟩⟩
    · obtain ⟨hsettled, hskipped⟩ := hinputs target href
      have hall : AllResolve parseInputRef phase.inputs := by
        by_contra hnot
        exact hbefore (hskipped hnot)
      exact ⟨hall, fun hprecedes => hbefore ((hsettled hall).mp hprecedes)⟩
    · exact hprecedes (((hinputs target href).1 hall).mpr hbefore)

end Reports

section Exact

variable {wf : Workflow} {phases : List Phase} {phase : Phase} {i : ℕ} {target : String}

lemma declaredBefore_iff : DeclaredBefore phases i target ↔
    ∃ j p, j < i ∧ phases[j]? = some p ∧ p.name = target := by
  rw [DeclaredBefore, List.mem_map]
  constructor
  · rintro ⟨p, hp, hname⟩
    obtain ⟨j, hj⟩ := List.mem_iff_getElem?.mp hp
    rw [List.getElem?_take] at hj
    split at hj
    · next hlt => exact ⟨j, p, hlt, hj, hname⟩
    · cases hj
  · rintro ⟨j, p, hlt, hj, hname⟩
    refine ⟨p, List.mem_iff_getElem?.mpr ⟨j, ?_⟩, hname⟩
    rw [List.getElem?_take, if_pos hlt]
    exact hj

lemma position_unique (hnodup : (phases.map Phase.name).Nodup) {j k : ℕ} {p q : Phase}
    (hj : phases[j]? = some p) (hk : phases[k]? = some q) (hname : p.name = q.name) : j = k := by
  obtain ⟨hlt, _⟩ := List.getElem?_eq_some_iff.mp hj
  have hsame : (phases.map Phase.name)[j]? = (phases.map Phase.name)[k]? := by
    rw [List.getElem?_map, List.getElem?_map, hj, hk, Option.map_some, Option.map_some, hname]
  exact (List.getElem?_inj (by rwa [List.length_map]) hnodup).mp hsame

lemma phaseIndex_some {k : ℕ} (h : phaseIndex phases target = some k) :
    ∃ p, phases[k]? = some p ∧ p.name = target := by
  obtain ⟨x, hx, rfl⟩ := Option.map_eq_some_iff.mp h
  have hmem := List.mem_reverse.mp (List.mem_of_find?_eq_some hx)
  have hname := List.find?_some hx
  exact ⟨x.1, List.mem_zipIdx_iff_getElem?.mp hmem, by simpa using hname⟩

/-- When no name is repeated the positions that the names map to are the phases' own. -/
lemma precedes_iff (hnodup : (phases.map Phase.name).Nodup) (hi : phases[i]? = some phase) :
    Precedes phases target phase.name ↔ DeclaredBefore phases i target := by
  rw [declaredBefore_iff]
  constructor
  · rintro ⟨k, l, hk, hl, hlt⟩
    obtain ⟨p, hp, hname⟩ := phaseIndex_some hk
    obtain ⟨q, hq, hsame⟩ := phaseIndex_some hl
    have hli : l = i := position_unique hnodup hq hi hsame
    exact ⟨k, p, hli ▸ hlt, hp, hname⟩
  · rintro ⟨j, p, hlt, hp, rfl⟩
    obtain ⟨k, hk⟩ := phaseIndex_isSome (List.mem_of_getElem? hp)
    obtain ⟨l, hl⟩ := phaseIndex_isSome (List.mem_of_getElem? hi)
    obtain ⟨p', hp', hname⟩ := phaseIndex_some hk
    obtain ⟨q, hq, hsame⟩ := phaseIndex_some hl
    have hkj : k = j := position_unique hnodup hp' hp hname
    have hli : l = i := position_unique hnodup hq hi hsame
    exact ⟨k, l, hk, hl, by omega⟩

lemma nodup_iff : (phases.map Phase.name).Nodup ↔
    ∀ i phase, phases[i]? = some phase → ¬ DeclaredBefore phases i phase.name := by
  constructor
  · intro hnodup i phase hi hbefore
    obtain ⟨j, p, hlt, hp, hname⟩ := declaredBefore_iff.mp hbefore
    have heq := position_unique hnodup hp hi hname
    omega
  · intro h
    rw [List.nodup_iff_getElem?_ne_getElem?]
    intro j k hlt hk hsame
    rw [List.length_map] at hk
    have hget : phases[k]? = some phases[k] := List.getElem?_eq_getElem hk
    rw [List.getElem?_map, List.getElem?_map, hget, Option.map_some] at hsame
    obtain ⟨p, hp, hname⟩ := Option.map_eq_some_iff.mp hsame
    exact h k _ hget (declaredBefore_iff.mpr ⟨j, p, hlt, hp, hname⟩)

/-- The documented conditions are that no phase violates any. -/
lemma documented_iff : Documented wf ↔ wf.phases ≠ [] ∧
    ∀ i phase, wf.phases[i]? = some phase → ∀ c, ¬ Violates wf.phases i phase c := by
  constructor
  · intro h
    refine ⟨h.phases, fun i phase hi c hc => ?_⟩
    have hmem : phase ∈ wf.phases := List.mem_of_getElem? hi
    cases c with
    | distinctName => exact nodup_iff.mp h.names i phase hi hc
    | backend raw =>
        obtain ⟨hraw, e, herror⟩ := hc
        obtain ⟨ref, href⟩ := h.backends phase hmem raw hraw
        rw [herror] at href
        cases href
    | input raw =>
        obtain ⟨hraw, e, herror⟩ := hc
        obtain ⟨ref, href⟩ := h.inputs phase hmem raw hraw
        rw [herror] at href
        cases href
    | earlier target => exact hc.2 (h.earlier i phase hi target hc.1)
    | responses =>
        obtain ⟨min, hstrategy, hlt⟩ := hc
        have hle := h.responses phase hmem min hstrategy
        omega
    | escalation =>
        obtain ⟨⟨context, hstrategy⟩, hlt⟩ := hc
        have hle := h.escalation phase hmem context hstrategy
        omega
  · rintro ⟨hne, h⟩
    have hpresent : ∀ {phase}, phase ∈ wf.phases → ∃ i, wf.phases[i]? = some phase :=
      fun hphase => List.mem_iff_getElem?.mp hphase
    refine ⟨hne, ?_, ?_, ?_, ?_, ?_, ?_⟩
    · rw [nodup_iff]
      exact fun i phase hi => h i phase hi .distinctName
    · intro i phase hi target href
      by_contra hnot
      exact h i phase hi (.earlier target) ⟨href, hnot⟩
    · intro phase hphase raw hraw
      obtain ⟨i, hi⟩ := hpresent hphase
      cases hparse : resolveBackendScheme raw with
      | ok ref => exact ⟨ref, rfl⟩
      | error e => exact (h i phase hi (.backend raw) ⟨hraw, e, hparse⟩).elim
    · intro phase hphase raw hraw
      obtain ⟨i, hi⟩ := hpresent hphase
      cases hparse : parseInputRef raw with
      | ok ref => exact ⟨ref, rfl⟩
      | error e => exact (h i phase hi (.input raw) ⟨hraw, e, hparse⟩).elim
    · intro phase hphase min hstrategy
      obtain ⟨i, hi⟩ := hpresent hphase
      by_contra hlt
      exact h i phase hi .responses ⟨min, hstrategy, Nat.lt_of_not_le hlt⟩
    · intro phase hphase context hstrategy
      obtain ⟨i, hi⟩ := hpresent hphase
      by_contra hlt
      exact h i phase hi .escalation ⟨⟨context, hstrategy⟩, Nat.lt_of_not_le hlt⟩

/-- With distinct names and references that all parse, a phase's report is right. -/
lemma reportsAt_of_distinct (hnodup : (phases.map Phase.name).Nodup)
    (hi : phases[i]? = some phase) (hinputs : AllResolve parseInputRef phase.inputs)
    (hbackends : AllResolve resolveBackendScheme phase.backends) : ReportsAt phases i phase := by
  refine (reportsAt_iff hi).mpr ⟨fun target _ => ⟨fun _ => precedes_iff hnodup hi, fun hnot => ?_⟩,
    Or.inl hbackends⟩
  exact (hnot hinputs).elim

/-- Nothing is reported exactly when every documented condition holds. -/
lemma validate_eq_nil_iff (wf : Workflow) : validate wf = [] ↔ Documented wf := by
  constructor
  · intro h
    have hne : wf.phases ≠ [] := by
      intro hnil
      rw [validate, if_pos hnil] at h
      cases h
    have hnone : ∀ i phase, wf.phases[i]? = some phase → ∀ e, e ∉ errorsAt wf.phases i phase := by
      intro i phase hi e he
      have hmem := (mem_validate hne).mpr ⟨i, phase, hi, he⟩
      rw [h] at hmem
      cases hmem
    refine documented_iff.mpr ⟨hne, fun i phase hi c hc => ?_⟩
    have hinputs : AllResolve parseInputRef phase.inputs := by
      intro raw hraw
      cases hparse : parseInputRef raw with
      | ok ref => exact ⟨ref, rfl⟩
      | error e => exact (hnone i phase hi e (List.mem_append_right _
          (mem_phaseErrors.mpr (Or.inr (Or.inl ⟨raw, hraw, hparse⟩))))).elim
    have hbackends : AllResolve resolveBackendScheme phase.backends := by
      intro raw hraw
      cases hparse : resolveBackendScheme raw with
      | ok ref => exact ⟨ref, rfl⟩
      | error e => exact (hnone i phase hi e (List.mem_append_right _
          (mem_phaseErrors.mpr (Or.inl ⟨raw, hraw, hparse⟩)))).elim
    have hreports := reportsAt_of_distinct (nodup_names h) hi hinputs hbackends
    obtain ⟨e, he, _⟩ := hreports.complete c hc
    exact hnone i phase hi e he
  · intro h
    obtain ⟨hne, hnone⟩ := documented_iff.mp h
    rw [List.eq_nil_iff_forall_not_mem]
    intro e he
    obtain ⟨i, phase, hi, hat⟩ := (mem_validate hne).mp he
    have hmem : phase ∈ wf.phases := List.mem_of_getElem? hi
    have hreports := reportsAt_of_distinct h.names hi (h.inputs phase hmem) (h.backends phase hmem)
    obtain ⟨c, _, hc⟩ := hreports.sound e hat
    exact hnone i phase hi c hc

/-- The validation is exact: no errors for the documented workflows alone, the empty workflow
reported as such, and for every phase just the conditions that it violates. -/
structure Exact (wf : Workflow) : Prop where
  accepts : validate wf = [] ↔ Documented wf
  empty : .noPhases ∈ validate wf ↔ wf.phases = []
  reports : ∀ i phase, wf.phases[i]? = some phase → ReportsAt wf.phases i phase

/-- Whatever is reported is reported for some phase, and the report of every phase is right exactly
when its inputs and its backends leave the checks that follow on them what they are. -/
theorem validate_exact_iff (wf : Workflow) :
    (wf.phases ≠ [] →
      (validate wf).Perm (wf.phases.zipIdx.flatMap fun x => errorsAt wf.phases x.2 x.1)) ∧
    (Exact wf ↔ ∀ i phase, wf.phases[i]? = some phase →
      InputsSettled wf.phases i phase ∧ CountsSettled phase) := by
  refine ⟨validate_perm, ?_⟩
  constructor
  · intro h i phase hi
    exact (reportsAt_iff hi).mp (h.reports i phase hi)
  · intro h
    refine ⟨validate_eq_nil_iff wf, ?_, fun i phase hi => (reportsAt_iff hi).mpr (h i phase hi)⟩
    constructor
    · intro hmem
      by_contra hne
      obtain ⟨i, phase, _, hat⟩ := (mem_validate hne).mp hmem
      exact noPhases_not_mem i hat
    · intro hnil
      rw [validate, if_pos hnil]
      exact List.mem_singleton_self _

def miscounted : Phase :=
  ⟨"draft", .parallelFanOut 1, ["claude/", "claud/"], "p", [], "draft.md"⟩

def unchecked : Phase := ⟨"draft", .single, ["claude/"], "p", ["phase:review", "specs"], "draft.md"⟩

def review : Phase := ⟨"review", .single, ["claude/"], "p", ["phase:draft"], "review.md"⟩

def plainDraft : Phase := ⟨"draft", .single, ["claude/"], "p", [], "draft.md"⟩

/-- A backend that does not parse brings a complaint about the number of backends; an input that
does not parse hides another one; a repeated name makes an earlier phase a later one. -/
theorem reports_not_exact :
    validate ⟨"w", [miscounted]⟩ =
        [.unknownBackendScheme "claud/", .minResponsesExceedsBackends "draft" 1 0] ∧
      ¬ Exact ⟨"w", [miscounted]⟩ ∧
      validate ⟨"w", [unchecked]⟩ = [.invalidInputRef "specs"] ∧
      ¬ Exact ⟨"w", [unchecked]⟩ ∧
      validate ⟨"w", [plainDraft, review, plainDraft]⟩ =
        [.duplicatePhaseName "draft", .forwardInputRef "review" "draft"] ∧
      ¬ Exact ⟨"w", [plainDraft, review, plainDraft]⟩ := by
  refine ⟨by decide, fun h => ?_, by decide, fun h => ?_, by decide, fun h => ?_⟩
  · obtain ⟨c, hnamed, hc⟩ := (h.reports 0 miscounted rfl).sound
      (.minResponsesExceedsBackends "draft" 1 0) (by decide)
    obtain rfl := Option.some.inj hnamed
    obtain ⟨min, hstrategy, hlt⟩ := hc
    cases hstrategy
    exact absurd hlt (by decide)
  · obtain ⟨e, he, hnamed⟩ := (h.reports 0 unchecked rfl).complete (.earlier "review")
      ⟨⟨"phase:review", by decide, by decide⟩, by decide⟩
    have hall : (errorsAt [unchecked] 0 unchecked).all
        (fun e => named "draft" e ≠ some (.earlier "review")) = true := by decide
    have hother := List.all_eq_true.mp hall e he
    simp only [decide_eq_true_eq] at hother
    exact hother hnamed
  · obtain ⟨c, hnamed, hc⟩ := (h.reports 1 review rfl).sound (.forwardInputRef "review" "draft")
      (by decide)
    obtain rfl := Option.some.inj hnamed
    exact hc.2 (by decide)

end Exact

end Loker.GrammarReports
