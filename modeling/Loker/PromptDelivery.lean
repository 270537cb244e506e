import Loker.PhaseBridge
import Loker.Strategies

/-! What becomes of a phase's inputs on their way into the prompt that is sent: the bridge puts
them into the template, and the strategy renders the result once more. -/

namespace Loker.PromptDelivery

open TextOps FileTree Programs RunFiles RunOps Dispatch Template PhaseBridge Strategies

section Pieces

variable {template prompt : String} {ctx : TemplateContext}

lemma mem_pieces {segs : List Segment} {texts : List String}
    (h : segs.mapM (segmentText ctx) = .ok texts) {inner value : String}
    (hseg : .placeholder inner ∈ segs) (hvalue : resolvePlaceholder inner ctx = .ok value) :
    value ∈ texts := by
  induction segs generalizing texts with
  | nil => cases hseg
  | cons seg segs ih =>
      obtain ⟨text, rest, hfirst, hrest, rfl⟩ := mapM_cons_eq_ok.mp h
      rcases List.mem_cons.mp hseg with rfl | hseg
      · obtain rfl := Except.ok.inj (hvalue.symm.trans hfirst)
        exact List.mem_cons_self
      · exact List.mem_cons_of_mem _ (ih hrest hseg)

lemma toList_join (texts : List String) :
    (String.join texts).toList = (texts.map String.toList).flatten := by
  simp [List.flatMap_def]

lemma render_eq_ok (h : render template ctx = .ok prompt) :
    ∃ texts, pieces template ctx = .ok texts ∧ prompt = String.join texts := by
  unfold render at h
  cases hp : pieces template ctx with
  | error e =>
      rw [hp] at h
      cases h
  | ok texts =>
      rw [hp] at h
      cases h
      exact ⟨texts, rfl, rfl⟩

/-- Every value put in for a placeholder stands in the rendered text as it is. -/
lemma substituted_infix (h : render template ctx = .ok prompt) {value : String}
    (hvalue : Substituted template ctx value) : value.toList <:+: prompt.toList := by
  obtain ⟨texts, hpieces, rfl⟩ := render_eq_ok h
  obtain ⟨inner, hseg, hresolve⟩ := hvalue
  have hmem := mem_pieces hpieces hseg hresolve
  obtain ⟨before, after, rfl⟩ := List.append_of_mem hmem
  exact ⟨before.flatMap String.toList, after.flatMap String.toList, by simp⟩

end Pieces

/-- What is assumed of the strategies' template engine: without a delimiter in it, a text stays
as it is. -/
def PlainIdentity (engine : String → Except String String) : Prop :=
  ∀ text, hasDelimiter text.toList = false → engine text = .ok text

/-- The operation sends the prompt to a backend. -/
def Sent {B : Type} (prompt : String) : Op B → Prop
  | .query q => q.prompt = prompt
  | .race pending => ∃ q ∈ pending, q.prompt = prompt
  | _ => False

/-- With every such engine the built prompt passes the second rendering unchanged, and every
prompt the phase's strategy sends has the inputs' texts in it. -/
def InputsKept (B : Type) [RunFormat B] (phase : Grammar.Phase) (ctx : TemplateContext)
    (cfg : PhaseConfig) : Prop :=
  ∀ eng : Engines, PlainIdentity eng.template →
    eng.template cfg.promptTemplate = .ok cfg.promptTemplate ∧
    ∀ strategy, resolveStrategy cfg none = .ok strategy →
      ∀ (inp : PhaseInputs) (w : World B) tr rest w',
        Steps perform (execute eng inp strategy) w tr rest w' →
        ∀ e ∈ tr, ∀ prompt, Sent prompt e.op → ∀ value,
          Substituted phase.promptTemplate ctx value → value.toList <:+: prompt.toList

section Delivery

variable {B : Type} [RunFormat B] {phase : Grammar.Phase} {ctx : TemplateContext}
  {cfg : PhaseConfig} {eng : Engines}

/-- Without a verify hook only strategies are resolved that send what the engine makes of the
configured prompt. -/
lemma sends_of_resolveStrategy {strategy : Strategy String}
    (h : resolveStrategy cfg none = .ok strategy) {prompt : String}
    (hsends : Sends eng prompt strategy) : eng.template cfg.promptTemplate = .ok prompt := by
  unfold resolveStrategy at h
  split at h
  · split at h
    · cases h
      exact hsends
    · cases h
  · unfold newParallelFanOut at h
    split at h
    · cases h
      exact hsends
    · cases h
  · cases h

omit [RunFormat B] in
lemma sent_prompt {strategy : Strategy String} {inp : PhaseInputs} {outputs : String → Prop}
    {o : Op B} {prompt : String}
    (ho : StrategyOp inp outputs (fun prompt => Sends eng prompt strategy) o) (hsent : Sent prompt o) :
    Sends eng prompt strategy := by
  cases o with
  | query q =>
      obtain rfl := hsent
      exact ho
  | race pending =>
      obtain ⟨q, hq, rfl⟩ := hsent
      exact ho q hq
  | _ => cases hsent

/-- An engine that refuses every text with a delimiter. -/
def refusing (text : String) : Except String String :=
  if hasDelimiter text.toList then .error "delimiter" else .ok text

lemma refusing_plainIdentity : PlainIdentity refusing := by
  intro text h
  simp [refusing, h]

def refusingEngines : Engines where
  template := refusing
  anyFailEvaluate _ := .ok ()
  aggregateVote _ := .error "no candidates"
  aggregate _ _ := .error "no successful branches"
  redactSecrets := id
  truncateExcerpt text _ := text
  buildFailureEnvelope _ body := body

lemma inputsKept_iff_plain {prompt : String}
    (hrender : render phase.promptTemplate ctx = .ok prompt) (hcfg : cfg.promptTemplate = prompt) :
    InputsKept B phase ctx cfg ↔ hasDelimiter prompt.toList = false := by
  subst hcfg
  constructor
  · intro h
    have hsame := (h refusingEngines refusing_plainIdentity).1
    by_contra hdelimiter
    simp [refusingEngines, refusing, hdelimiter] at hsame
  · intro hplain eng heng
    have hsame := heng _ hplain
    refine ⟨hsame, fun strategy hstrategy inp w tr rest w' hrun e he sent hsent value hvalue => ?_⟩
    have hop := (hrun.emits (execute_emits strategy)).2 e he
    have hprompt := sends_of_resolveStrategy hstrategy (sent_prompt hop hsent)
    obtain rfl := Except.ok.inj (hsame.symm.trans hprompt)
    exact substituted_infix hrender hvalue

/-- The inputs reach the backend verbatim exactly when neither the template nor an input nor two
neighbouring texts together hold a delimiter of the second engine. -/
theorem inputsKept_iff {phaseOutputs : String → Option PhaseOutput} {specContent : Option String}
    {vars : String → Option String}
    (hcfg : buildPhaseConfig phase phaseOutputs specContent vars = .ok cfg) :
    InputsKept B phase ⟨specContent, phaseOutputs, vars⟩ cfg ↔
      ∃ texts, pieces phase.promptTemplate ⟨specContent, phaseOutputs, vars⟩ = .ok texts ∧
        PlainPieces (texts.map String.toList) := by
  obtain ⟨prompt, hrender, rfl⟩ := buildPhaseConfig_eq_ok hcfg
  obtain ⟨texts, hpieces, rfl⟩ := render_eq_ok hrender
  rw [inputsKept_iff_plain hrender rfl, toList_join, hasDelimiter_flatten]
  constructor
  · exact fun h => ⟨texts, hpieces, h⟩
  · rintro ⟨texts', hpieces', h⟩
    obtain rfl := Except.ok.inj (hpieces.symm.trans hpieces')
    exact h

def reviewPhase : Grammar.Phase where
  name := "review"
  strategy := .single
  backends := ["claude/"]
  promptTemplate := "Review \x7b\x7b spec \x7d\x7d"
  inputs := ["spec"]
  output := "review.md"

theorem inputsKept_iff_review :
    InputsKept Doc reviewPhase ⟨some "a plain spec", fun _ => none, fun _ => none⟩
        (configOf reviewPhase "Review a plain spec") ↔
      ∃ texts, pieces reviewPhase.promptTemplate
          ⟨some "a plain spec", fun _ => none, fun _ => none⟩ = .ok texts ∧
        PlainPieces (texts.map String.toList) :=
  inputsKept_iff (show buildPhaseConfig reviewPhase (fun _ => none) (some "a plain spec")
    (fun _ => none) = .ok (configOf reviewPhase "Review a plain spec") from rfl)

/-- A spec that shows a template reaches the second engine as template source. -/
theorem templateSpec_not_kept :
    Grammar.validate ⟨"review", [reviewPhase]⟩ = [] ∧
      buildPhaseConfig reviewPhase (fun _ => none) (some "write \x7b\x7b name \x7d\x7d here")
        (fun _ => none) =
          .ok (configOf reviewPhase "Review write \x7b\x7b name \x7d\x7d here") ∧
      ¬ InputsKept Doc reviewPhase
        ⟨some "write \x7b\x7b name \x7d\x7d here", fun _ => none, fun _ => none⟩
        (configOf reviewPhase "Review write \x7b\x7b name \x7d\x7d here") := by
  refine ⟨by decide, rfl, fun hkept => ?_⟩
  have hrender : render reviewPhase.promptTemplate
      ⟨some "write \x7b\x7b name \x7d\x7d here", fun _ => none, fun _ => none⟩ =
        .ok "Review write \x7b\x7b name \x7d\x7d here" := rfl
  have hplain := (inputsKept_iff_plain hrender rfl).mp hkept
  exact absurd hplain (by decide)

end Delivery

end Loker.PromptDelivery
