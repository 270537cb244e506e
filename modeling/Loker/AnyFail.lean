import Loker.FanOut
import Loker.LlmJudge

/-! The any-fail aggregator: how it reads a verdict and how a fan-out decides with it. -/

namespace Loker.AnyFail

open FileTree TextOps Programs RunFiles RunLoad RunOps Dispatch Strategies FanOut LlmJudge

section Verdicts

inductive AnyFailReason where
  | verdictRejected (payload : String)
  | verdictContract (message : String)
  | backendError (detail : String)
  deriving DecidableEq, Repr

def AnyFailReason.text : AnyFailReason → String
  | .verdictRejected _ => "verdict rejected"
  | .verdictContract message => "verdict contract violation: " ++ message
  | .backendError detail => "backend error: " ++ detail

/-- What the verdicts need of the library besides the ballots. -/
structure VerdictLibrary extends JsonLibrary where
  asBool : Value → Option Bool
  toText : Value → String

def anyFailEvaluate (json : VerdictLibrary) (text : String) : Except AnyFailReason Unit :=
  let stripped := stripMarkdownFences (trim text)
  match json.fromStr stripped with
  | .error e => .error (.verdictContract ("JSON parse error: " ++ e))
  | .ok value =>
      match json.get value "pass" with
      | none => .error (.verdictContract "missing required field 'pass'")
      | some pass =>
          match json.asBool pass with
          | some true => .ok ()
          | some false => .error (.verdictRejected stripped)
          | none => .error (.verdictContract ("expected bool, got " ++ json.toText pass))

/-- The strategies' text functions with these verdicts. -/
def withVerdicts (json : VerdictLibrary) (eng : Engines) : Engines :=
  { eng with anyFailEvaluate := fun text => (anyFailEvaluate json text).mapError AnyFailReason.text }

/-- The output is a document whose field `pass` is true. -/
def SaysPass (json : VerdictLibrary) (text : String) : Prop :=
  ∃ value pass, json.fromStr (stripMarkdownFences (trim text)) = .ok value ∧
    json.get value "pass" = some pass ∧ json.asBool pass = some true

lemma anyFailEvaluate_ok_iff {json : VerdictLibrary} {text : String} :
    anyFailEvaluate json text = .ok () ↔ SaysPass json text := by
  unfold anyFailEvaluate SaysPass
  cases hvalue : json.fromStr (stripMarkdownFences (trim text)) with
  | error e => simp [hvalue]
  | ok value =>
      cases hpass : json.get value "pass" with
      | none => simp [hvalue, hpass]
      | some pass =>
          cases hbool : json.asBool pass with
          | none => simp [hvalue, hpass, hbool]
          | some verdict => cases verdict <;> simp [hvalue, hpass, hbool]

lemma withVerdicts_ok_iff {json : VerdictLibrary} {eng : Engines} {text : String} :
    (withVerdicts json eng).anyFailEvaluate text = .ok () ↔ SaysPass json text := by
  rw [← anyFailEvaluate_ok_iff]
  change (anyFailEvaluate json text).mapError AnyFailReason.text = .ok () ↔ _
  cases anyFailEvaluate json text with
  | ok _ => exact ⟨fun _ => rfl, fun _ => rfl⟩
  | error reason => exact ⟨nofun, nofun⟩

end Verdicts

section Runs

variable {B : Type} [RunFormat B] (result : ℕ → Except BackendError String) (stored : Prop)

/-- Every target's backend answers as it is assigned; output writes may fail unless the outputs
can be stored. -/
def Answering : (o : Op B) → Answer B o → Prop
  | .createDirAll _, a => stored → a = .ok ()
  | .writeFile _ _, a => stored → a = .ok ()
  | .race _, a => a.2 = result a.1
  | _, _ => True

/-- The targets finish in any order. -/
def answering : Semantics (RunSig B) (World B) :=
  fun o w a w' => perform o w a w' ∧ Answering result stored o a

/-- The target succeeds and its verdict is accepted. -/
def Accepts (eng : Engines) (idx : ℕ) : Prop :=
  ∃ stdout, result idx = .ok stdout ∧ eng.anyFailEvaluate stdout = .ok ()

variable {result stored} {eng : Engines} {inp : PhaseInputs} {targets : List TargetSpec}
  {done waiting : List (TargetSpec × ℕ)} {st : FanState} {w : World B}

lemma writeOutput_stores {name text parentFailure failure : String} :
    Finishes (answering (B := B) result stored) (fun _ _ => True) (fun _ _ => ¬ stored)
      (writeOutput inp name text parentFailure failure) w := by
  apply Finishes.bind
  refine Finishes.op fun a w₁ h₁ => ?_
  obtain ⟨_, hcreated⟩ := h₁
  cases a with
  | error e => exact Finishes.throw fun hstored => nomatch hcreated hstored
  | ok _ =>
      apply Finishes.bind
      refine Finishes.op fun a w₂ h₂ => ?_
      obtain ⟨_, hwritten⟩ := h₂
      cases a with
      | error e => exact Finishes.throw fun hstored => nomatch hwritten hstored
      | ok _ => exact Finishes.pure trivial

/-- Every target is accepted. -/
def AllAccepted (result : ℕ → Except BackendError String) (eng : Engines)
    (targets : List TargetSpec) : Prop :=
  ∀ x ∈ targets.zipIdx, Accepts result eng x.2

/-- While targets are waited for, all completed ones are accepted; the first one that is not ends
the fan-out. Induction on the number of targets that are waited for. -/
lemma collect_decides {minResponses : ℕ} (left : ℕ) (pending : List Query)
    (hleft : left = waiting.length) (hpending : pending.map Query.index = waiting.map Prod.snd)
    (hparts : (done ++ waiting).Perm targets.zipIdx) (hdone : ∀ x ∈ done, Accepts result eng x.2) :
    Finishes (answering (B := B) result stored) (fun _ _ => AllAccepted result eng targets)
      (fun _ _ => stored → ¬ AllAccepted result eng targets)
      (collect eng inp .anyFail targets minResponses left pending st) w := by
  induction left generalizing done waiting pending st w with
  | zero =>
      have hnone : waiting = [] := List.length_eq_zero_iff.mp hleft.symm
      subst hnone
      rw [List.append_nil] at hparts
      exact Finishes.pure fun x hx => hdone x (hparts.mem_iff.mpr hx)
  | succ left ih =>
      have hkeys := waiting_nodup hparts
      apply Finishes.bind
      refine Finishes.op fun answer w₁ h₁ => ?_
      obtain ⟨idx, answered⟩ := answer
      obtain ⟨⟨rfl, hidx⟩, hanswered⟩ := h₁
      have hanswer : answered = result idx := hanswered
      obtain ⟨x, hx, rfl, hrest, hlength⟩ :=
        waiting_step hpending hkeys (hidx (pending_ne_nil hpending hleft))
      have hxmem : x ∈ targets.zipIdx := hparts.mem_iff.mp (List.mem_append_right done hx)
      simp only [mem_targets hxmem]
      cases hres : answered with
      | error err =>
          rw [hanswer] at hres
          refine Finishes.throw fun _ hall => ?_
          obtain ⟨stdout, hok, _⟩ := hall x hxmem
          rw [hres] at hok
          cases hok
      | ok stdout =>
          rw [hanswer] at hres
          apply Finishes.bind
          apply Finishes.bind
          refine Finishes.mono writeOutput_stores (fun _ w₂ _ => ?_) fun _ _ hno hstored => absurd hstored hno
          cases hverdict : eng.anyFailEvaluate stdout with
          | error reason =>
              simp only [afterBranchWritten, hverdict]
              refine Finishes.throw fun _ hall => ?_
              obtain ⟨stdout', hok, haccepted⟩ := hall x hxmem
              rw [hres] at hok
              cases hok
              rw [hverdict] at haccepted
              cases haccepted
          | ok _ =>
              simp only [afterBranchWritten, hverdict]
              refine Finishes.pure ?_
              rw [if_neg (by simp [needsAll])]
              refine ih _ (Nat.succ.inj (hleft.trans hlength)) hrest (parts_step hparts hx hkeys) ?_
              intro y hy
              rcases List.mem_append.mp hy with hold | hnew
              · exact hdone y hold
              · obtain rfl := List.mem_singleton.mp hnew
                exact ⟨stdout, hres, hverdict⟩

/-- The targets are called at all: there are some, their prompt is rendered and every one names a
backend of the phase. -/
structure Asks (eng : Engines) (inp : PhaseInputs) (targets : List TargetSpec)
    (template : String) : Prop where
  some_target : targets ≠ []
  rendered : ∃ rendered, eng.template template = .ok rendered
  present : ∀ t ∈ targets, t.backend ∈ inp.backends

def Passing (r : Except StrategyError StrategyOutput) : Prop :=
  ∃ output, r = .ok output ∧ output.verify = some (.passed "Aggregator::AnyFail")

lemma parallelFanOut_decides {minResponses : ℕ} {template : String} :
    Finishes (answering (B := B) result stored)
      (fun output _ => output.verify = some (.passed "Aggregator::AnyFail") ∧
        Asks eng inp targets template ∧ AllAccepted result eng targets)
      (fun _ _ => stored → ¬ (Asks eng inp targets template ∧ AllAccepted result eng targets))
      (parallelFanOut eng inp .anyFail targets minResponses template) w := by
  by_cases hasks : Asks eng inp targets template
  · obtain ⟨rendered, hrender⟩ := hasks.rendered
    obtain ⟨queries, hqueries, hindex⟩ := branchQueries_ok rendered hasks.present
    have hlength : queries.length = targets.zipIdx.length := by
      rw [← List.length_map (f := Query.index), hindex, List.length_map]
    have hrendered : (renderPrompt eng template : Run B StrategyError String) = pure rendered := by
      rw [renderPrompt, hrender]
    unfold parallelFanOut
    rw [if_neg (backends_present hasks.some_target hasks.present), hrendered]
    apply Finishes.bind
    refine Finishes.pure ?_
    simp only [hqueries]
    apply Finishes.bind
    have hstart : ∀ x ∈ ([] : List (TargetSpec × ℕ)), Accepts result eng x.2 :=
      fun _ hx => absurd hx List.not_mem_nil
    refine Finishes.mono (collect_decides _ _ hlength hindex (List.Perm.refl _) hstart)
      (fun st' w' hall => ?_) fun e w' hnot hstored hboth => hnot hstored hboth.2
    rw [fanFinished, if_pos rfl]
    exact Finishes.pure ⟨rfl, hasks, hall⟩
  · unfold parallelFanOut
    split
    · exact Finishes.throw fun _ hboth => hasks hboth.1
    · next hboth =>
      rw [not_or] at hboth
      unfold renderPrompt
      cases hrender : eng.template template with
      | error e => exact Finishes.throw fun _ hboth => hasks hboth.1
      | ok rendered =>
          apply Finishes.bind
          refine Finishes.pure ?_
          cases hqueries : branchQueries inp rendered targets with
          | error e => exact Finishes.throw fun _ hboth => hasks hboth.1
          | ok queries =>
              exact absurd ⟨hboth.1, ⟨rendered, hrender⟩, present_of_branchQueries hqueries⟩ hasks

lemma allAccepted_iff {json : VerdictLibrary} :
    AllAccepted result (withVerdicts json eng) targets ↔
      ∀ idx < targets.length, ∃ stdout, result idx = .ok stdout ∧ SaysPass json stdout := by
  have hverdict : ∀ idx, Accepts result (withVerdicts json eng) idx ↔
      ∃ stdout, result idx = .ok stdout ∧ SaysPass json stdout := by
    intro idx
    exact exists_congr fun stdout => and_congr_right fun _ => withVerdicts_ok_iff
  constructor
  · intro h idx hidx
    have hx : (targets[idx], idx) ∈ targets.zipIdx :=
      List.mem_zipIdx_iff_getElem?.mpr (List.getElem?_eq_getElem hidx)
    exact (hverdict idx).mp (h _ hx)
  · intro h x hx
    have hidx := (List.getElem?_eq_some_iff.mp (mem_targets hx)).1
    exact (hverdict x.2).mpr (h x.2 hidx)

end Runs

section Decision

variable {B : Type} [RunFormat B]

/-- In every order of completion the fan-out passes exactly when its targets are called and each
of them succeeds with a verdict that says pass; a write that fails can only keep it from passing. -/
theorem anyFail_conjunction (json : VerdictLibrary) (eng : Engines) (inp : PhaseInputs)
    (targets : List TargetSpec) (minResponses : ℕ) (template : String)
    (result : ℕ → Except BackendError String) (w : World B) :
    (∀ tr r w', Runs (answering result True)
        (parallelFanOut (withVerdicts json eng) inp .anyFail targets minResponses template) w tr r w' →
      (Passing r ↔ Asks eng inp targets template ∧
        ∀ idx < targets.length, ∃ stdout, result idx = .ok stdout ∧ SaysPass json stdout)) ∧
    (∀ tr₁ r₁ w₁ tr₂ r₂ w₂,
      Runs (answering result True)
        (parallelFanOut (withVerdicts json eng) inp .anyFail targets minResponses template) w tr₁ r₁ w₁ →
      Runs (answering result True)
        (parallelFanOut (withVerdicts json eng) inp .anyFail targets minResponses template) w tr₂ r₂ w₂ →
      (Passing r₁ ↔ Passing r₂)) ∧
    ∀ tr r w', Runs (answering result False)
        (parallelFanOut (withVerdicts json eng) inp .anyFail targets minResponses template) w tr r w' →
      Passing r →
        ∀ idx < targets.length, ∃ stdout, result idx = .ok stdout ∧ SaysPass json stdout := by
  have hasks : Asks (withVerdicts json eng) inp targets template ↔ Asks eng inp targets template :=
    ⟨fun h => ⟨h.some_target, h.rendered, h.present⟩, fun h => ⟨h.some_target, h.rendered, h.present⟩⟩
  have hdecides : ∀ tr r w', Runs (answering result True)
      (parallelFanOut (withVerdicts json eng) inp .anyFail targets minResponses template) w tr r w' →
      (Passing r ↔ Asks eng inp targets template ∧
        ∀ idx < targets.length, ∃ stdout, result idx = .ok stdout ∧ SaysPass json stdout) := by
    intro tr r w' hrun
    obtain ⟨hok, herror⟩ := parallelFanOut_decides tr r w' hrun
    rw [← hasks, ← allAccepted_iff]
    constructor
    · rintro ⟨output, rfl, _⟩
      exact (hok output rfl).2
    · intro hall
      cases r with
      | ok output => exact ⟨output, rfl, (hok output rfl).1⟩
      | error e => exact absurd hall (herror e rfl trivial)
  refine ⟨hdecides, ?_, ?_⟩
  · intro tr₁ r₁ w₁ tr₂ r₂ w₂ hrun₁ hrun₂
    rw [hdecides _ _ _ hrun₁, hdecides _ _ _ hrun₂]
  · rintro tr r w' hrun ⟨output, rfl, _⟩
    exact allAccepted_iff.mp ((parallelFanOut_decides tr _ w' hrun).1 output rfl).2.2

end Decision

section TwoVerdicts

open CrashHistories

def passText : String := "\x7b\"pass\": true\x7d"

/-- A library that reads this one text. -/
def passLibrary : VerdictLibrary where
  Value := Bool
  fromStr text := if text = passText then .ok true else .error "expected value"
  get value key := if key = "pass" then some value else none
  asU64 _ := none
  asStr _ := none
  asBool value := some value
  toText value := if value then "true" else "false"

def passAnswers (_ : ℕ) : Except BackendError String := .ok ("```json\n" ++ passText ++ "\n```")

def passScript : Script := ⟨fun q => passAnswers q.index, fun _ => .ok .pass⟩

def passFanOut (targets : List TargetSpec) : Run Doc StrategyError StrategyOutput :=
  parallelFanOut (withVerdicts passLibrary plainEngines) reviewInputs .anyFail targets 1 "Go"

def passed : List (Event (RunSig Doc)) × Prog (RunSig Doc) (Except StrategyError StrategyOutput) ×
    World Doc :=
  evalFor (handle passScript) 6 (passFanOut reviewTargets) newRun

def passOutput : StrategyOutput :=
  fanOutput reviewInputs .anyFail
    (reviewTargets.zipIdx.map (attemptOf passAnswers reviewInputs)) (.passed "Aggregator::AnyFail")

lemma passed_runs : Runs (answering passAnswers True) (passFanOut reviewTargets) newRun passed.1
    (.ok passOutput) passed.2.2 := by
  have hadmits : Admits (fun o s => answering passAnswers True o s (handle passScript o s).1
      (handle passScript o s).2) (handle passScript) 6 (passFanOut reviewTargets) newRun :=
    ⟨⟨handle_performs _ _ _, rfl⟩, ⟨handle_performs _ _ _, fun _ => rfl⟩,
      ⟨handle_performs _ _ _, fun _ => rfl⟩, ⟨handle_performs _ _ _, rfl⟩,
      ⟨handle_performs _ _ _, fun _ => rfl⟩, ⟨handle_performs _ _ _, fun _ => rfl⟩, trivial⟩
  exact evalFor_steps_of_admits hadmits

theorem anyFail_conjunction_twoVerdicts :
    Passing (.ok passOutput) ∧ Asks plainEngines reviewInputs reviewTargets "Go" ∧
      ∀ idx < reviewTargets.length,
        ∃ stdout, passAnswers idx = .ok stdout ∧ SaysPass passLibrary stdout := by
  have hpassing : Passing (.ok passOutput) := ⟨passOutput, rfl, rfl⟩
  exact ⟨hpassing, ((anyFail_conjunction passLibrary plainEngines reviewInputs reviewTargets 1 "Go"
    passAnswers newRun).1 _ _ _ passed_runs).mp hpassing⟩

/-- Without a target every target has passed, but the fan-out does not. -/
theorem no_targets_refused :
    (∀ idx < ([] : List TargetSpec).length,
      ∃ stdout, passAnswers idx = .ok stdout ∧ SaysPass passLibrary stdout) ∧
    Runs (answering passAnswers True) (passFanOut []) newRun [] (.error .noBackends) newRun ∧
    ¬ Passing (.error .noBackends) :=
  ⟨nofun, .stop, nofun⟩

end TwoVerdicts

end Loker.AnyFail
