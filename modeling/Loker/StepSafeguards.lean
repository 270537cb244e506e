import Loker.StepExecution

/-! The safeguards a step declares, and which kinds of steps honour them. -/

namespace Loker.StepSafeguards

open Programs TextOps FileTree SymbolicLinks EditFiles StepWorkflow ParallelEdits EditRetry
  DiffApplier StepOps Consensus
  StepExecution

section Honoured

variable {Results Item : Type} (runner : WorkflowRunner Results Item)

/-- Every failing attempt is followed by the next one of the same work, until one succeeds or all
retries are spent. -/
inductive Retried (retries : ℕ) : List (Work × Bool) → Prop
  | nil : Retried retries []
  | done {k : ℕ} {work : Work} {rest : List (Work × Bool)} (within : k ≤ retries)
      (others : Retried retries rest) :
      Retried retries (List.replicate k (work, false) ++ (work, true) :: rest)
  | spent {work : Work} {rest : List (Work × Bool)} (others : Retried retries rest) :
      Retried retries (List.replicate (retries + 1) (work, false) ++ rest)

/-- The text of a step before a validator's own replaces it. -/
def textOf (r : StepResult) : String := r.rawOutput.getD r.output

/-- A verify field that is neither empty nor switched off. -/
def DeclaresVerify (step : Step) (results : Results) : Prop :=
  ∃ field value, step.verify = some field ∧ runner.interpolate field results = .ok value ∧
    keyword value ≠ "false" ∧ keyword value ≠ ""

/-- The step's verify command passed, with the formatter before it where there is one. -/
def VerifiedEdits (p : PreparedStep Item) (after : List (Event EditOps)) : Prop :=
  ∃ command verification result, composeVerify p.format p.verify = some command ∧
    verification.command = applyCommandWrapper command runner.commandWrapper ∧
    (⟨.verify verification runner.cwd, result⟩ : Event EditOps) ∈ after ∧ result.success = true

/-- The edits of the text were parsed and applied, and nothing changed or took them back but the
commands that the step runs after them. -/
structure Applied (text : String) (events after : List (Event EditOps)) : Prop where
  applies : ∃ parsed applied before during, runner.parse text = .ok parsed ∧
    events = before ++ during ++ after ∧
    Runs anyhow (apply parsed runner.cwd) () during (.ok applied) ()
  commands : ∀ e ∈ after, (∃ v cwd, e.op = .verify v cwd) ∨ ∃ command, e.op = .format command

def Verified (p : PreparedStep Item) (tr : List (Event RunnerOps)) : Prop :=
  ∃ cmd out, p.verify = some cmd ∧
    (⟨.assist (shellWork runner cmd), Except.ok out⟩ : Event RunnerOps) ∈ tr

/-- The validation of the step's text ran, and it did not fail. There is no verdict where the
settings of the validation let it go without one. -/
def Validated (config : ValidateConfig) (r : StepResult) (tr : List (Event RunnerOps)) : Prop :=
  ∃ stderr cleaned,
    (⟨.validate config (textOf r) stderr, (r.validation, cleaned)⟩ : Event RunnerOps) ∈ tr ∧
      ∀ v, r.validation = some v → v.passed = true

/-- Every safeguard that the step declares has done its work. -/
structure Honoured (results : Results) (p : PreparedStep Item) (tr : List (Event RunnerOps))
    (r : StepResult) : Prop where
  edits : p.step.applyEdits = true → ∃ after, Applied runner (textOf r) (edits tr) after ∧
    (DeclaresVerify runner p.step results → VerifiedEdits runner p after)
  verify : p.step.applyEdits = false → DeclaresVerify runner p.step results → Verified runner p tr
  validate : ∀ config, p.step.validate = some config → Validated config r tr
  retries : Retried p.step.retries (attempts tr)

/-- Verification is asked for by the code base's language, and that has no verify command. -/
def Unresolved (step : Step) (results : Results) : Prop :=
  ∃ field value, step.verify = some field ∧ runner.interpolate field results = .ok value ∧
    keyword value = "true" ∧ runner.context.verifyCommand = none

/-- The safeguards that the step's kind drops are not declared. -/
def Supported (results : Results) (p : PreparedStep Item) : Prop :=
  if p.step.forEach.isSome then
    p.step.applyEdits = false ∧ ¬ DeclaresVerify runner p.step results ∧ p.step.validate = none
  else if p.step.shell.isSome then
    p.step.applyEdits = false ∧ ¬ DeclaresVerify runner p.step results
  else if 1 < (getBackends p.step).length then
    ¬ DeclaresVerify runner p.step results ∧ p.step.retries = 0
  else ¬ Unresolved runner p.step results

/-- The step's kind retries, or there is nothing to retry. -/
def RetriesSupported (p : PreparedStep Item) : Prop :=
  p.step.retries = 0 ∨
    if p.step.forEach.isSome then p.forEachItems = some []
    else p.step.shell.isSome ∨ (getBackends p.step).length ≤ 1

end Honoured

section Prepare

variable {Results Item : Type} {runner : WorkflowRunner Results Item} {step : Step}
  {results : Results} {p : PreparedStep Item}

lemma mapField_ok {β : Type} {f : String → Except String β} {field : Option String}
    {value : Option β} (h : mapField f field = .ok value) :
    value.isSome = field.isSome ∧ ∀ text, field = some text → ∃ v, f text = .ok v ∧ value = some v := by
  cases field with
  | none =>
      cases h
      exact ⟨rfl, nofun⟩
  | some text =>
      have h : (f text).map some = .ok value := h
      cases hv : f text with
      | error e =>
          rw [hv] at h
          cases h
      | ok v =>
          rw [hv] at h
          cases h
          refine ⟨rfl, fun text' htext => ?_⟩
          cases htext
          exact ⟨v, hv, rfl⟩

/-- What a prepared step has of the step it was made from. -/
structure PreparedFrom (runner : WorkflowRunner Results Item) (step : Step) (results : Results)
    (p : PreparedStep Item) : Prop where
  step_eq : p.step = step
  shell : p.shell.isSome = step.shell.isSome
  items : p.forEachItems.isSome = step.forEach.isSome
  verify_none : step.verify = none → p.verify = none
  verify_some : ∀ field, step.verify = some field → ∃ value,
    runner.interpolate field results = .ok value ∧
      p.verify = resolveVerifyCommand value runner.context

lemma prepare_ok (h : prepare runner step results = .ok p) :
    PreparedFrom runner step results p := by
  unfold prepare at h
  obtain ⟨prompt, _, h⟩ := bind_eq_ok h
  obtain ⟨shell, hshell, h⟩ := bind_eq_ok h
  obtain ⟨value, hvalue, h⟩ := bind_eq_ok h
  obtain ⟨items, hitems, h⟩ := bind_eq_ok h
  obtain ⟨hstep, hshellEq, hitemsEq, hverify⟩ : p.step = step ∧ p.shell = shell ∧
      p.forEachItems = items ∧
      p.verify = value.bind fun v => resolveVerifyCommand v runner.context := by
    rw [← Except.ok.inj h]
    exact ⟨rfl, rfl, rfl, rfl⟩
  obtain ⟨hisSome, hfields⟩ := mapField_ok hvalue
  refine ⟨hstep, ?_, ?_, fun hnone => ?_, fun field hfield => ?_⟩
  · rw [hshellEq]
    exact (mapField_ok hshell).1
  · rw [hitemsEq]
    exact (mapField_ok hitems).1
  · rw [hnone, Option.isSome_none] at hisSome
    rw [hverify, show value = none by simpa using hisSome, Option.bind_none]
  · obtain ⟨v, hv, rfl⟩ := hfields field hfield
    rw [Option.bind_some] at hverify
    exact ⟨v, hv, hverify⟩

/-- A value that is no switch has a command, unless it leaves the choice to the code base. -/
lemma resolve_eq_none_iff {value : String} {ctx : CodebaseContext}
    (hfalse : keyword value ≠ "false") (hempty : keyword value ≠ "") :
    resolveVerifyCommand value ctx = none ↔ keyword value = "true" ∧ ctx.verifyCommand = none := by
  unfold resolveVerifyCommand
  split <;> simp_all

/-- A step that declares verification has no command exactly if it is left unresolved. -/
lemma verify_isNone_iff (h : PreparedFrom runner step results p)
    (hdeclares : DeclaresVerify runner p.step results) :
    p.verify = none ↔ Unresolved runner p.step results := by
  obtain ⟨field, value, hfield, hvalue, hfalse, hempty⟩ := hdeclares
  rw [h.step_eq] at hfield ⊢
  obtain ⟨value', hvalue', hresolve⟩ := h.verify_some field hfield
  obtain rfl : value' = value := Except.ok.inj (hvalue'.symm.trans hvalue)
  rw [hresolve, resolve_eq_none_iff hfalse hempty]
  constructor
  · rintro ⟨htrue, hnone⟩
    exact ⟨field, value', hfield, hvalue, htrue, hnone⟩
  · rintro ⟨field', value, hfield', hvalue', htrue, hnone⟩
    obtain rfl : field = field' := Option.some.inj (hfield.symm.trans hfield')
    obtain rfl : value' = value := Except.ok.inj (hvalue.symm.trans hvalue')
    exact ⟨htrue, hnone⟩

lemma Unresolved.declares (h : Unresolved runner step results) :
    DeclaresVerify runner step results := by
  obtain ⟨field, value, hfield, hvalue, htrue, _⟩ := h
  refine ⟨field, value, hfield, hvalue, ?_, ?_⟩
  · rw [htrue]
    decide
  · rw [htrue]
    decide

end Prepare

section Tail

variable {Item : Type} {sem : Semantics RunnerOps Unit} {p : PreparedStep Item}
  {tr : List (Event RunnerOps)} {r : StepResult}

/-- The validation adds no edit and no attempt, and the result keeps its text. -/
lemma finish_runs {text : String} {stderr : Option String}
    (run : Runs sem (finish p text stderr) () tr r ()) :
    textOf r = text ∧ edits tr = [] ∧ attempts tr = [] ∧ (r.success = true →
      ∀ config, p.step.validate = some config → Validated config r tr) := by
  unfold finish at run
  split at run
  · next hnone =>
    obtain ⟨rfl, rfl, _⟩ := runs_ret.mp run
    refine ⟨rfl, rfl, rfl, fun _ config hconfig => ?_⟩
    rw [hnone] at hconfig
    cases hconfig
  · next config hconfig =>
    obtain ⟨⟨validation, cleaned⟩, _, tr', _, hrest, rfl⟩ := runs_call run
    have hpassed : (validation.map ValidationResult.passed).getD true = true →
        ∀ v, validation = some v → v.passed = true := by
      rintro h v rfl
      exact h
    dsimp only at hrest
    split at hrest
    · obtain ⟨rfl, rfl, _⟩ := runs_ret.mp hrest
      refine ⟨rfl, rfl, rfl, fun hsuccess config' hconfig' => ?_⟩
      obtain rfl : config = config' := Option.some.inj (hconfig.symm.trans hconfig')
      exact ⟨stderr, cleaned, List.mem_singleton_self _, hpassed hsuccess⟩
    · obtain ⟨rfl, rfl, _⟩ := runs_ret.mp hrest
      refine ⟨rfl, rfl, rfl, fun hsuccess config' hconfig' => ?_⟩
      obtain rfl : config = config' := Option.some.inj (hconfig.symm.trans hconfig')
      exact ⟨stderr, cleaned, List.mem_singleton_self _, hpassed hsuccess⟩

/-- Some failing attempts and then a successful one, or as many failing ones as are allowed. -/
lemma attemptWork_runs {work : Work} {retries : ℕ} {answer : Except Failure Output}
    (run : Runs sem (attemptWork work retries) () tr answer ()) :
    edits tr = [] ∧
      ((∃ out k, answer = .ok out ∧ k ≤ retries ∧
        attempts tr = List.replicate k (work, false) ++ [(work, true)]) ∨
      ∃ failure, answer = .error failure ∧
        attempts tr = List.replicate (retries + 1) (work, false)) := by
  induction retries generalizing tr with
  | zero =>
      obtain ⟨a, _, tr', _, hrest, rfl⟩ := runs_act run
      obtain ⟨rfl, rfl, _⟩ := runs_ret.mp hrest
      cases a with
      | ok out => exact ⟨rfl, Or.inl ⟨out, 0, rfl, le_rfl, rfl⟩⟩
      | error failure => exact ⟨rfl, Or.inr ⟨failure, rfl, rfl⟩⟩
  | succ left ih =>
      obtain ⟨a, _, tr', _, hrest, rfl⟩ := runs_call run
      cases a with
      | ok out =>
          obtain ⟨rfl, rfl, _⟩ := runs_ret.mp hrest
          exact ⟨rfl, Or.inl ⟨out, 0, rfl, Nat.zero_le _, rfl⟩⟩
      | error failure =>
          obtain ⟨hedits, hdone⟩ := ih hrest
          have hcons : attempts (⟨.attempt work, Except.error failure⟩ :: tr') =
              (work, false) :: attempts tr' := rfl
          refine ⟨hedits, ?_⟩
          rcases hdone with ⟨out, k, rfl, hk, hattempts⟩ | ⟨failure', rfl, hattempts⟩
          · refine Or.inl ⟨out, k + 1, rfl, by omega, ?_⟩
            rw [hcons, hattempts]
            rfl
          · refine Or.inr ⟨failure', rfl, ?_⟩
            rw [hcons, hattempts]
            rfl

lemma retried_attemptWork {work : Work} {retries : ℕ} {answer : Except Failure Output}
    (run : Runs sem (attemptWork work retries) () tr answer ()) :
    Retried retries (attempts tr) := by
  obtain ⟨_, ⟨out, k, _, hk, hattempts⟩ | ⟨failure, _, hattempts⟩⟩ := attemptWork_runs run
  · rw [hattempts]
    exact .done hk .nil
  · rw [hattempts, ← List.append_nil (List.replicate _ _)]
    exact .spent .nil

end Tail

section EditLoop

variable {parse : String → Except String ParsedEdits} {cwd raw : String} {loop : RetryLoop}
  {attempts : List AttemptRecord} {tr : List (Event EditOps)}

/-- The edits of the last attempt were applied, and after them the verification passed. -/
def LastVerified (parse : String → Except String ParsedEdits) (cwd : String) (loop : RetryLoop)
    (outcome : RetryLoopOutcome) (tr : List (Event EditOps)) : Prop :=
  ∃ last parsed applied before during result, outcome.attempts.getLast? = some last ∧
    parse last.rawOutput = .ok parsed ∧
    tr = before ++ during ++ [⟨.verify loop.verify cwd, result⟩] ∧
    Runs anyhow (apply parsed cwd) () during (.ok applied) () ∧ result.success = true

lemma requery_fails {record : AttemptRecord} {reason : RetryReason}
    {finalVerify : Option VerifyResult} {outcome : RetryLoopOutcome}
    (run : Runs anyhow (requery attempts record reason finalVerify) () tr (.finish outcome) ()) :
    outcome.success = false := by
  obtain ⟨a, _, tr', _, hrest, _⟩ := runs_call run
  cases a with
  | ok raw => cases (runs_ret.mp hrest).2.1
  | error e =>
      cases (runs_ret.mp hrest).2.1
      rfl

lemma afterParseError_fails {record : AttemptRecord} {message : String}
    {outcome : RetryLoopOutcome}
    (run : Runs anyhow (afterParseError loop attempts record message) () tr (.finish outcome) ()) :
    outcome.success = false := by
  unfold afterParseError at run
  dsimp only at run
  split at run
  · cases (runs_ret.mp run).2.1
    rfl
  · exact requery_fails run

lemma afterApplyError_fails {record : AttemptRecord} {e : ApplyError} {outcome : RetryLoopOutcome}
    (run : Runs anyhow (afterApplyError loop attempts record e) () tr (.finish outcome) ()) :
    outcome.success = false := by
  obtain ⟨record', tr₁, tr₂, _, _, hrest, _⟩ := runs_bind run
  dsimp only at hrest
  split at hrest
  · cases (runs_ret.mp hrest).2.1
    rfl
  · exact requery_fails hrest

/-- A successful end after a verification is one in which the verification passed. -/
lemma verifyApplied_passes {record : AttemptRecord} {applied : ApplyResult}
    {outcome : RetryLoopOutcome}
    (run : Runs anyhow (verifyApplied loop cwd attempts record applied) () tr (.finish outcome) ())
    (hsuccess : outcome.success = true) :
    ∃ last result, outcome.attempts.getLast? = some last ∧ last.rawOutput = record.rawOutput ∧
      tr = [⟨.verify loop.verify cwd, result⟩] ∧ result.success = true := by
  obtain ⟨result, _, tr', _, hrest, rfl⟩ := runs_call run
  unfold afterVerify at hrest
  dsimp only at hrest
  split at hrest
  · next hpassed =>
    obtain ⟨rfl, hflow, _⟩ := runs_ret.mp hrest
    cases hflow
    exact ⟨_, result, List.getLast?_concat, rfl, rfl, hpassed⟩
  · obtain ⟨_, tr₁, tr₂, _, _, hafter, _⟩ := runs_bind hrest
    split at hafter
    · cases (runs_ret.mp hafter).2.1
      cases hsuccess
    · rw [requery_fails hafter] at hsuccess
      cases hsuccess

/-- One pass that ends the loop with success applied its edits and verified them. -/
lemma attempt_verified {num : ℕ} {outcome : RetryLoopOutcome}
    (run : Runs anyhow (attempt parse loop cwd num raw attempts) () tr (.finish outcome) ())
    (hsuccess : outcome.success = true) : LastVerified parse cwd loop outcome tr := by
  unfold attempt at run
  dsimp only at run
  split at run
  · rw [afterParseError_fails run] at hsuccess
    cases hsuccess
  · next parsed hparse =>
    obtain ⟨r, tr₁, tr₂, _, happly, hrest, rfl⟩ := runs_bind run
    cases r with
    | error e =>
        rw [afterApplyError_fails hrest] at hsuccess
        cases hsuccess
    | ok applied =>
        obtain ⟨last, result, hlast, hraw, rfl, hpassed⟩ := verifyApplied_passes hrest hsuccess
        refine ⟨last, parsed, applied, [], tr₁, result, hlast, ?_, rfl, happly, hpassed⟩
        rw [hraw]
        exact hparse

/-- A loop that succeeds has verified its last edits, by induction on the attempts left. -/
lemma attemptsFrom_verified {left num : ℕ} {outcome : RetryLoopOutcome}
    (run : Runs anyhow (attemptsFrom parse loop cwd left num raw attempts) () tr outcome ())
    (hsuccess : outcome.success = true) : LastVerified parse cwd loop outcome tr := by
  induction left generalizing num raw attempts tr with
  | zero =>
      cases (runs_ret.mp run).2.1
      cases hsuccess
  | succ left ih =>
      obtain ⟨flow, tr₁, tr₂, _, hfirst, hrest, rfl⟩ := runs_bind run
      cases flow with
      | finish outcome' =>
          obtain ⟨rfl, rfl, _⟩ := runs_ret.mp hrest
          rw [List.append_nil]
          exact attempt_verified hfirst hsuccess
      | again record raw' =>
          obtain ⟨last, parsed, applied, before, during, result, hlast, hparse, rfl, happly,
            hpassed⟩ := ih hrest
          exact ⟨last, parsed, applied, tr₁ ++ before, during, result, hlast, hparse,
            by simp only [List.append_assoc], happly, hpassed⟩

/-- One application that succeeds is followed by the formatter at most. -/
lemma applyOnce_applied {format wrapper : Option String}
    (run : Runs anyhow (applyOnce parse raw cwd format wrapper) () tr (.ok ()) ()) :
    ∃ parsed applied during after, parse raw = .ok parsed ∧ tr = during ++ after ∧
      Runs anyhow (apply parsed cwd) () during (.ok applied) () ∧
      ∀ e ∈ after, ∃ command, e.op = .format command := by
  unfold applyOnce at run
  dsimp only at run
  split at run
  · cases (runs_ret.mp run).2.1
  · next parsed hparse =>
    obtain ⟨r, tr₁, tr₂, _, happly, hrest, rfl⟩ := runs_bind run
    cases r with
    | error e =>
        obtain ⟨_, tr₃, tr₄, _, _, hret, _⟩ := runs_bind hrest
        cases (runs_ret.mp hret).2.1
    | ok applied =>
        refine ⟨parsed, applied, tr₁, tr₂, hparse, rfl, happly, ?_⟩
        cases format with
        | none =>
            obtain ⟨rfl, _, _⟩ := runs_ret.mp hrest
            exact List.forall_mem_nil _
        | some cmd =>
            obtain ⟨a, _, tr₃, _, hret, rfl⟩ := runs_call hrest
            obtain ⟨rfl, _, _⟩ := runs_ret.mp hret
            intro e he
            rw [List.mem_singleton.mp he]
            exact ⟨_, rfl⟩

end EditLoop

section Single

variable {Results Item : Type} {runner : WorkflowRunner Results Item} {wf : Workflow}
  {sem : Semantics RunnerOps Unit} {p : PreparedStep Item} {tr : List (Event RunnerOps)}
  {r : StepResult} {out : Output} {results : Results}

lemma Validated.append {config : ValidateConfig} (h : Validated config r tr)
    (earlier : List (Event RunnerOps)) : Validated config r (earlier ++ tr) := by
  obtain ⟨stderr, cleaned, hmem, hpassed⟩ := h
  exact ⟨stderr, cleaned, List.mem_append_right _ hmem, hpassed⟩

lemma composeVerify_isSome (format : Option String) {verify : Option String} (h : verify ≠ none) :
    ∃ command, composeVerify format verify = some command := by
  obtain ⟨v, rfl⟩ := Option.ne_none_iff_exists'.mp h
  cases format with
  | none => exact ⟨v, rfl⟩
  | some f => exact ⟨_, rfl⟩

/-- What a check of the output has done when it lets the output through. -/
structure Checked (runner : WorkflowRunner Results Item) (p : PreparedStep Item)
    (tr : List (Event RunnerOps)) (text : String) : Prop where
  edits : p.step.applyEdits = true → ∃ after, Applied runner text (edits tr) after ∧
    (p.verify ≠ none → VerifiedEdits runner p after)
  verify : p.step.applyEdits = false → p.verify ≠ none → Verified runner p tr

lemma applyStep_checked {answer : Except StepResult Output} (hedits : p.step.applyEdits = true)
    (run : Runs sem (applyStep runner wf p out) () tr answer ()) :
    attempts tr = [] ∧ (∀ result, answer = .error result → result.success = false) ∧
      ∀ out', answer = .ok out' → Checked runner p tr out'.stdout := by
  unfold applyStep at run
  dsimp only at run
  split at run
  · next command hcommand =>
    obtain ⟨⟨outcome, caps⟩, tr₁, tr₂, _, hloop, hrest, rfl⟩ := runs_bind run
    obtain ⟨hruns, hnone⟩ := embed_runs hloop
    dsimp only at hrest
    split at hrest
    · next hsuccess =>
      obtain ⟨rfl, rfl, _⟩ := runs_ret.mp hrest
      rw [List.append_nil]
      refine ⟨hnone, nofun, fun out' hout => ⟨fun _ => ?_, fun h => ?_⟩⟩
      · obtain ⟨last, parsed, applied, before, during, result, hlast, hparse, htr, happly,
          hpassed⟩ := attemptsFrom_verified hruns hsuccess
        cases hout
        refine ⟨[⟨.verify _ runner.cwd, result⟩], ⟨⟨parsed, applied, before, during, ?_, htr, happly⟩,
          ?_⟩, fun _ => ?_⟩
        · rw [hlast]
          exact hparse
        · intro e he
          rw [List.mem_singleton.mp he]
          exact Or.inl ⟨_, _, rfl⟩
        · exact ⟨command, _, result, hcommand, rfl, List.mem_singleton_self _, hpassed⟩
      · rw [hedits] at h
        cases h
    · obtain ⟨rfl, rfl, _⟩ := runs_ret.mp hrest
      rw [List.append_nil]
      refine ⟨hnone, fun result hresult => ?_, nofun⟩
      cases hresult
      rfl
  · next hcommand =>
    obtain ⟨⟨answer', caps⟩, tr₁, tr₂, _, honce, hrest, rfl⟩ := runs_bind run
    obtain ⟨hruns, hnone⟩ := embed_runs honce
    cases answer' with
    | error message =>
        obtain ⟨rfl, rfl, _⟩ := runs_ret.mp hrest
        rw [List.append_nil]
        refine ⟨hnone, fun result hresult => ?_, nofun⟩
        cases hresult
        rfl
    | ok u =>
        obtain ⟨rfl, rfl, _⟩ := runs_ret.mp hrest
        rw [List.append_nil]
        refine ⟨hnone, nofun, fun out' hout => ⟨fun _ => ?_, fun h => ?_⟩⟩
        · cases hout
          obtain ⟨parsed, applied, during, after, hparse, htr, happly, hafter⟩ :=
            applyOnce_applied hruns
          refine ⟨after, ⟨⟨parsed, applied, [], during, hparse, htr, happly⟩, fun e he => ?_⟩,
            fun hverify => ?_⟩
          · exact Or.inr (hafter e he)
          · obtain ⟨command, hsome⟩ := composeVerify_isSome p.format hverify
            rw [hsome] at hcommand
            cases hcommand
        · rw [hedits] at h
          cases h

lemma verify_checked {answer : Except StepResult Output} (hedits : p.step.applyEdits = false)
    (run : Runs sem (verifyStep.verify runner wf p out) () tr answer ()) :
    attempts tr = [] ∧ (∀ result, answer = .error result → result.success = false) ∧
      ∀ out', answer = .ok out' → Checked runner p tr out'.stdout := by
  have hno : p.step.applyEdits ≠ true := by simp [hedits]
  unfold verifyStep.verify at run
  split at run
  · next hnone =>
    obtain ⟨rfl, rfl, _⟩ := runs_ret.mp run
    exact ⟨rfl, by simp, fun _ _ => ⟨fun h => absurd h hno, fun _ h => absurd hnone h⟩⟩
  · next cmd hcmd =>
    obtain ⟨a, _, tr', _, hrest, rfl⟩ := runs_call run
    cases a with
    | ok out₁ =>
        obtain ⟨rfl, rfl, _⟩ := runs_ret.mp hrest
        refine ⟨rfl, by simp, fun _ _ => ⟨fun h => absurd h hno, fun _ _ => ?_⟩⟩
        exact ⟨cmd, out₁, hcmd, List.mem_singleton_self _⟩
    | error failure =>
        obtain ⟨rfl, rfl, _⟩ := runs_ret.mp hrest
        refine ⟨rfl, fun result hresult => ?_, by simp⟩
        cases hresult
        rfl

lemma verifyStep_checked {answer : Except StepResult Output} (hedits : p.step.applyEdits = false)
    (run : Runs sem (verifyStep runner wf p out) () tr answer ()) :
    attempts tr = [] ∧ (∀ result, answer = .error result → result.success = false) ∧
      ∀ out', answer = .ok out' → Checked runner p tr out'.stdout := by
  unfold verifyStep at run
  split at run
  · obtain ⟨a, _, tr', _, hrest, rfl⟩ := runs_call run
    obtain ⟨hnone, herror, hok⟩ := verify_checked hedits hrest
    refine ⟨hnone, herror, fun out' hout => ⟨fun h => ?_, fun h hverify => ?_⟩⟩
    · rw [hedits] at h
      cases h
    · obtain ⟨cmd, out₁, hcmd, hmem⟩ := (hok out' hout).verify h hverify
      exact ⟨cmd, out₁, hcmd, List.mem_cons_of_mem _ hmem⟩
  · exact verify_checked hedits run

lemma checkOutput_checked {answer : Except StepResult Output}
    (run : Runs sem (checkOutput runner wf p out) () tr answer ()) :
    attempts tr = [] ∧ (∀ result, answer = .error result → result.success = false) ∧
      ∀ out', answer = .ok out' → Checked runner p tr out'.stdout := by
  unfold checkOutput at run
  split at run
  · next hedits => exact applyStep_checked hedits run
  · next hedits => exact verifyStep_checked (by simpa using hedits) run

/-- The only backend's output is checked and then validated. -/
lemma useOutput_checked (run : Runs sem (useOutput runner wf p out) () tr r ()) :
    attempts tr = [] ∧ (r.success = true → Checked runner p tr (textOf r) ∧
      ∀ config, p.step.validate = some config → Validated config r tr) := by
  obtain ⟨answer, tr₁, tr₂, _, hcheck, hrest, rfl⟩ := runs_bind run
  obtain ⟨hnone, herror, hok⟩ := checkOutput_checked hcheck
  cases answer with
  | error result =>
      obtain ⟨rfl, rfl, _⟩ := runs_ret.mp hrest
      rw [List.append_nil]
      refine ⟨hnone, fun hsuccess => ?_⟩
      rw [herror result rfl] at hsuccess
      cases hsuccess
  | ok out' =>
      obtain ⟨htext, hedits, hattempts, hvalidated⟩ := finish_runs hrest
      obtain ⟨happlied, hverified⟩ := hok out' rfl
      refine ⟨by rw [attempts_append, hnone, hattempts]; rfl, fun hsuccess => ⟨⟨?_, ?_⟩, ?_⟩⟩
      · rw [htext, edits_append, hedits, List.append_nil]
        exact happlied
      · intro h hverify
        obtain ⟨cmd, out₁, hcmd, hmem⟩ := hverified h hverify
        exact ⟨cmd, out₁, hcmd, List.mem_append_left _ hmem⟩
      · exact fun config hconfig => (hvalidated hsuccess config hconfig).append _

/-- A single backend's step retries in every run, and where it succeeds it has done its checks. -/
lemma singleStep_checked (run : Runs sem (singleStep runner wf p) () tr r ()) :
    Retried p.step.retries (attempts tr) ∧ (r.success = true → Checked runner p tr (textOf r) ∧
      ∀ config, p.step.validate = some config → Validated config r tr) := by
  obtain ⟨connected, _, tr₁, _, hconnected, rfl⟩ := runs_call run
  cases connected with
  | error e =>
      obtain ⟨rfl, rfl, _⟩ := runs_ret.mp hconnected
      exact ⟨.nil, nofun⟩
  | ok u =>
      obtain ⟨available, _, tr₂, _, havailable, rfl⟩ := runs_call hconnected
      cases available with
      | false =>
          obtain ⟨rfl, rfl, _⟩ := runs_ret.mp havailable
          exact ⟨.nil, nofun⟩
      | true =>
          obtain ⟨answer, tr₃, tr₄, _, hattempt, hrest, rfl⟩ := runs_bind havailable
          have hretried := retried_attemptWork hattempt
          cases answer with
          | error failure =>
              obtain ⟨rfl, rfl, _⟩ := runs_ret.mp hrest
              rw [List.append_nil]
              exact ⟨hretried, nofun⟩
          | ok out =>
              obtain ⟨hnone, hdone⟩ := useOutput_checked hrest
              refine ⟨?_, fun hsuccess => ?_⟩
              · show Retried _ (attempts (tr₃ ++ tr₄))
                rw [attempts_append, hnone, List.append_nil]
                exact hretried
              · obtain ⟨⟨happlied, hverified⟩, hvalidated⟩ := hdone hsuccess
                refine ⟨⟨fun h => ?_, fun h hverify => ?_⟩, fun config hconfig => ?_⟩
                · show ∃ after, Applied runner (textOf r) (edits (tr₃ ++ tr₄)) after ∧ _
                  rw [edits_append, (attemptWork_runs hattempt).1, List.nil_append]
                  exact happlied h
                · obtain ⟨cmd, out₁, hcmd, hmem⟩ := hverified h hverify
                  refine ⟨cmd, out₁, hcmd, ?_⟩
                  exact List.mem_cons_of_mem _ (List.mem_cons_of_mem _ (List.mem_append_right _ hmem))
                · exact (hvalidated config hconfig).append (⟨.connect p.step.backend,
                    Except.ok u⟩ :: ⟨.isAvailable p.step.backend, true⟩ :: tr₃)

end Single

section Bare

variable {Results Item : Type} {runner : WorkflowRunner Results Item} {wf : Workflow}
  {sem : Semantics RunnerOps Unit} {p : PreparedStep Item} {tr : List (Event RunnerOps)}
  {r : StepResult} {results : Results}

/-- An operation that neither edits files nor runs a command beside the step's own work. -/
def Bare (o : StepOps.Op) : Prop :=
  (∀ e, o ≠ .edit e) ∧ ∀ cmd, o ≠ .assist (.command cmd)

lemma edits_eq_nil (h : ∀ e ∈ tr, Bare e.op) : edits tr = [] := by
  refine List.filterMap_eq_nil_iff.mpr fun e he => ?_
  obtain ⟨o, a⟩ := e
  cases o with
  | edit o => exact absurd rfl ((h _ he).1 o)
  | _ => rfl

lemma not_verified (h : ∀ e ∈ tr, Bare e.op) : ¬ Verified runner p tr := by
  rintro ⟨cmd, out, _, hmem⟩
  exact (h _ hmem).2 _ rfl

lemma finish_emits (text : String) (stderr : Option String) : Emits Bare (finish p text stderr) := by
  unfold finish
  split
  · trivial
  · refine ⟨⟨nofun, nofun⟩, fun a => ?_⟩
    obtain ⟨validation, cleaned⟩ := a
    dsimp only [Prog.bind]
    split <;> trivial

lemma attemptWork_emits (work : Work) (retries : ℕ) : Emits Bare (attemptWork work retries) := by
  induction retries with
  | zero => exact ⟨⟨nofun, nofun⟩, fun a => trivial⟩
  | succ left ih =>
      refine ⟨⟨nofun, nofun⟩, fun a => ?_⟩
      cases a with
      | ok out => trivial
      | error failure => exact ih

lemma shellStep_emits (cmd : String) : Emits Bare (shellStep runner wf p cmd) := by
  refine (attemptWork_emits _ _).bind fun answer => ?_
  cases answer with
  | ok out => exact finish_emits _ _
  | error failure => trivial

lemma queryBackend_emits (backend : String) : Emits Bare (queryBackend wf p backend) := by
  refine ⟨⟨nofun, nofun⟩, fun connected => ?_⟩
  cases connected with
  | error e => trivial
  | ok u =>
      refine ⟨⟨nofun, nofun⟩, fun available => ?_⟩
      cases available with
      | false => trivial
      | true =>
          refine ⟨⟨nofun, nofun⟩, fun answer => ?_⟩
          cases answer <;> trivial

lemma queryAll_emits (backends : List String) : Emits Bare (queryAll wf p backends) := by
  induction backends with
  | nil => trivial
  | cons backend backends ih =>
      exact (queryBackend_emits backend).bind fun _ => ih.bind fun _ => trivial

lemma combine_emits (first : BackendResponse) (responses : List BackendResponse) :
    Emits Bare (combine runner p first responses) := by
  unfold combine
  split
  · trivial
  · trivial
  · trivial
  · refine ⟨⟨nofun, nofun⟩, fun known => ⟨⟨nofun, nofun⟩, fun connected => ?_⟩⟩
    cases connected with
    | error e => trivial
    | ok u =>
        refine ⟨⟨nofun, nofun⟩, fun answer => ?_⟩
        cases answer <;> trivial

lemma multiStep_emits : Emits Bare (multiStep runner wf p) := by
  refine (queryAll_emits _).bind fun answers => ?_
  split
  · trivial
  · exact (combine_emits _ _).bind fun text => finish_emits _ _

/-- What an iteration over items asks for: connections and attempts. -/
def Plain (o : StepOps.Op) : Prop := Bare o ∧ ∀ config output stderr, o ≠ .validate config output stderr

lemma plain_attempt (work : Work) : Plain (.attempt work) := by
  refine ⟨⟨nofun, nofun⟩, ?_⟩
  intro config output stderr h
  cases h

lemma plain_connect (backend : String) : Plain (.connect backend) := by
  refine ⟨⟨nofun, nofun⟩, ?_⟩
  intro config output stderr h
  cases h

lemma iterate_emits (item : Item) (index : ℕ) : Emits Plain (iterate runner wf p item index) := by
  unfold iterate
  split
  · exact ⟨plain_attempt _, fun answer => trivial⟩
  · refine ⟨plain_connect _, fun connected => ?_⟩
    cases connected with
    | error e => trivial
    | ok u => exact ⟨plain_attempt _, fun answer => trivial⟩

lemma forEachStep_emits (items : List Item) : Emits Plain (forEachStep runner wf p items) := by
  have hall : ∀ index, Emits Plain (iterateFrom runner wf p index items) := by
    induction items with
    | nil => exact fun _ => trivial
    | cons item items ih =>
        intro index
        exact (iterate_emits item index).bind fun _ => (ih (index + 1)).bind fun _ => trivial
  exact (hall 0).bind fun iterations => trivial

/-- The parser does not give an empty list of edits. -/
lemma parse_ne_nil {raw : String} {parsed : ParsedEdits} (h : runner.parse raw = .ok parsed) :
    parsed.edits ≠ [] := by
  have hparse : EditParser.parse runner.readWrapper runner.readEdits raw = .ok parsed := by
    unfold WorkflowRunner.parse at h
    cases hparse : EditParser.parse runner.readWrapper runner.readEdits raw with
    | error e =>
        rw [hparse] at h
        cases h
    | ok parsed' =>
        rw [hparse] at h
        cases h
        rfl
  have htry : ∀ text result,
      EditParser.tryParse runner.readWrapper runner.readEdits text = some result →
        result.edits ≠ [] := by
    intro text result htry
    unfold EditParser.tryParse at htry
    split at htry
    · next edits hedits =>
      obtain rfl := Option.some.inj htry
      simpa [EditParser.normalizeEdits] using (Option.filter_eq_some_iff.mp hedits).2
    · obtain ⟨edits, hedits, rfl⟩ := Option.map_eq_some_iff.mp htry
      simpa [EditParser.normalizeEdits] using (Option.filter_eq_some_iff.mp hedits).2
  unfold EditParser.parse at hparse
  split at hparse
  · cases hparse
  · dsimp only at hparse
    split at hparse
    · cases hparse
    · split at hparse
      · cases hparse
      · split at hparse
        · unfold EditParser.parseUnifiedDiff at hparse
          dsimp only at hparse
          split at hparse
          · cases hparse
          · split at hparse
            · cases hparse
            · next hne =>
              cases hparse
              exact hne
        · unfold EditParser.parseJsonEdits at hparse
          split at hparse
          · next result hresult =>
            cases hparse
            exact htry _ _ hresult
          · split at hparse
            · next result hresult =>
              cases hparse
              exact htry _ _ hresult
            · cases hparse
        · unfold EditParser.parseFullFile at hparse
          split at hparse
          · cases hparse
          · split at hparse
            · cases hparse
            · split at hparse
              · cases hparse
              · cases hparse
                exact List.cons_ne_nil _ _

/-- Applying edits is an operation at least. -/
lemma apply_ne_nil {parsed : ParsedEdits} {cwd : String} {applied : ApplyResult}
    {during : List (Event EditOps)} (hedits : parsed.edits ≠ [])
    (run : Runs anyhow (apply parsed cwd) () during (.ok applied) ()) : during ≠ [] := by
  obtain ⟨edit, rest, hcons⟩ := List.exists_cons_of_ne_nil hedits
  unfold apply at run
  rw [hcons] at run
  obtain ⟨answer, tr₁, tr₂, _, hfirst, hrest, rfl⟩ := runs_bind run
  cases answer with
  | error e => cases (runs_ret.mp hrest).2.1
  | ok backup =>
      have hne : tr₁ ≠ [] := by
        unfold applyEdit at hfirst
        split at hfirst
        · cases (runs_ret.mp hfirst).2.1
        · split at hfirst
          · cases (runs_ret.mp hfirst).2.1
          · split at hfirst
            · obtain ⟨a, _, tr', _, _, rfl⟩ := runs_call hfirst
              exact List.cons_ne_nil _ _
            · obtain ⟨a, _, tr', _, _, rfl⟩ := runs_call hfirst
              exact List.cons_ne_nil _ _
            · obtain ⟨a, _, tr', _, _, rfl⟩ := runs_call hfirst
              exact List.cons_ne_nil _ _
      exact List.append_ne_nil_of_left_ne_nil hne _

/-- Nothing is applied in a run without edits. -/
lemma not_applied {text : String} {after : List (Event EditOps)}
    (h : ∀ e ∈ tr, Bare e.op) : ¬ Applied runner text (edits tr) after := by
  rintro ⟨⟨parsed, applied, before, during, hparse, hevents, hruns⟩, _⟩
  rw [edits_eq_nil h] at hevents
  have hduring := (List.append_eq_nil_iff.mp (List.append_eq_nil_iff.mp hevents.symm).1).2
  exact apply_ne_nil (parse_ne_nil hparse) hruns hduring

/-- A run without edits and commands honours its step where that declares neither. -/
lemma honoured_bare_iff (h : ∀ e ∈ tr, Bare e.op) :
    Honoured runner results p tr r ↔ p.step.applyEdits = false ∧
      ¬ DeclaresVerify runner p.step results ∧
      (∀ config, p.step.validate = some config → Validated config r tr) ∧
      Retried p.step.retries (attempts tr) := by
  constructor
  · rintro ⟨hedits, hverify, hvalidate, hretries⟩
    have hno : p.step.applyEdits = false := by
      by_contra hyes
      obtain ⟨after, happlied, _⟩ := hedits (by simpa using hyes)
      exact not_applied h happlied
    exact ⟨hno, fun hdeclares => not_verified h (hverify hno hdeclares), hvalidate, hretries⟩
  · rintro ⟨hno, hverify, hvalidate, hretries⟩
    refine ⟨fun hyes => ?_, fun _ hdeclares => absurd hdeclares hverify, hvalidate, hretries⟩
    rw [hno] at hyes
    cases hyes

end Bare

section Retries

variable {Results Item : Type} {runner : WorkflowRunner Results Item} {wf : Workflow}
  {sem : Semantics RunnerOps Unit} {p : PreparedStep Item} {tr : List (Event RunnerOps)}
  {r : StepResult}

lemma retried_zero (all : List (Work × Bool)) : Retried 0 all := by
  induction all with
  | nil => exact .nil
  | cons x rest ih =>
      obtain ⟨work, ok⟩ := x
      cases ok with
      | true => exact .done (k := 0) le_rfl ih
      | false => exact .spent ih

lemma retried_of_success {retries : ℕ} {all : List (Work × Bool)} (h : ∀ x ∈ all, x.2 = true) :
    Retried retries all := by
  induction all with
  | nil => exact .nil
  | cons x rest ih =>
      obtain ⟨work, ok⟩ := x
      obtain rfl : ok = true := h _ List.mem_cons_self
      exact .done (k := 0) (Nat.zero_le _) (ih fun y hy => h y (List.mem_cons_of_mem _ hy))

/-- A last attempt that alone fails is not retried. -/
lemma not_retried {retries k : ℕ} {all : List (Work × Bool)} (hretries : 0 < retries)
    (hall : all.map Prod.snd = List.replicate k true ++ [false]) : ¬ Retried retries all := by
  intro h
  induction h generalizing k with
  | nil => simp at hall
  | @done j work rest _ _ ih =>
      cases j with
      | zero =>
          cases k with
          | zero => simp at hall
          | succ k => exact ih (by simpa [List.replicate_succ] using hall)
      | succ j =>
          cases k with
          | zero => simp [List.replicate_succ] at hall
          | succ k => simp [List.replicate_succ] at hall
  | @spent work rest _ _ =>
      obtain ⟨n, rfl⟩ := Nat.exists_eq_succ_of_ne_zero hretries.ne'
      cases k with
      | zero => simp [List.replicate_succ] at hall
      | succ k => simp [List.replicate_succ] at hall

lemma shellStep_checked {cmd : String} (run : Runs sem (shellStep runner wf p cmd) () tr r ()) :
    Retried p.step.retries (attempts tr) ∧ (r.success = true →
      ∀ config, p.step.validate = some config → Validated config r tr) := by
  obtain ⟨answer, tr₁, tr₂, _, hattempt, hrest, rfl⟩ := runs_bind run
  have hretried := retried_attemptWork hattempt
  cases answer with
  | error failure =>
      obtain ⟨rfl, rfl, _⟩ := runs_ret.mp hrest
      rw [List.append_nil]
      exact ⟨hretried, nofun⟩
  | ok out =>
      obtain ⟨_, _, hattempts, hvalidated⟩ := finish_runs hrest
      rw [attempts_append, hattempts, List.append_nil]
      exact ⟨hretried, fun hsuccess config hconfig => (hvalidated hsuccess config hconfig).append _⟩

lemma multiStep_validated (run : Runs sem (multiStep runner wf p) () tr r ())
    (hsuccess : r.success = true) :
    ∀ config, p.step.validate = some config → Validated config r tr := by
  obtain ⟨answers, tr₁, tr₂, _, _, hrest, rfl⟩ := runs_bind run
  split at hrest
  · obtain ⟨_, rfl, _⟩ := runs_ret.mp hrest
    cases hsuccess
  · obtain ⟨text, tr₃, tr₄, _, _, hfinish, rfl⟩ := runs_bind hrest
    obtain ⟨_, _, _, hvalidated⟩ := finish_runs hfinish
    intro config hconfig
    rw [← List.append_assoc]
    exact (hvalidated hsuccess config hconfig).append _

lemma iterate_runs {item : Item} {index : ℕ} {outcome : String × Bool}
    (run : Runs sem (iterate runner wf p item index) () tr outcome ()) (hok : outcome.2 = true) :
    ∀ x ∈ attempts tr, x.2 = true := by
  have hone : ∀ (work : Work) (answer : Except Failure Output),
      (iterationOutcome wf p answer).2 = true →
        ∀ x ∈ attempts [⟨.attempt work, answer⟩], x.2 = true := by
    intro work answer hanswer x hx
    cases answer with
    | ok out =>
        rw [List.mem_singleton.mp hx]
    | error failure => cases hanswer
  unfold iterate at run
  split at run
  · obtain ⟨answer, _, tr', _, hrest, rfl⟩ := runs_call run
    obtain ⟨rfl, rfl, _⟩ := runs_ret.mp hrest
    exact hone _ answer hok
  · obtain ⟨connected, _, tr', _, hrest, rfl⟩ := runs_call run
    cases connected with
    | error e =>
        obtain ⟨_, rfl, _⟩ := runs_ret.mp hrest
        cases hok
    | ok u =>
        obtain ⟨answer, _, tr'', _, hret, rfl⟩ := runs_call hrest
        obtain ⟨rfl, rfl, _⟩ := runs_ret.mp hret
        exact hone _ answer hok

lemma iterateFrom_runs {items : List Item} {index : ℕ} {iterations : List (Iteration Item)}
    (run : Runs sem (iterateFrom runner wf p index items) () tr iterations ())
    (hok : iterations.all Iteration.success = true) : ∀ x ∈ attempts tr, x.2 = true := by
  induction items generalizing index tr iterations with
  | nil =>
      obtain ⟨rfl, _, _⟩ := runs_ret.mp run
      exact List.forall_mem_nil _
  | cons item items ih =>
      obtain ⟨⟨output, ok⟩, tr₁, tr₂, _, hfirst, hrest, rfl⟩ := runs_bind run
      obtain ⟨rest, tr₃, tr₄, _, hothers, hret, rfl⟩ := runs_bind hrest
      obtain ⟨rfl, rfl, _⟩ := runs_ret.mp hret
      obtain ⟨hok₁, hok₂⟩ := Bool.and_eq_true_iff.mp hok
      rw [attempts_append, attempts_append]
      intro x hx
      rcases List.mem_append.mp hx with hx | hx
      · exact iterate_runs hfirst hok₁ x hx
      · exact ih hothers hok₂ x (by simpa using hx)

lemma forEachStep_runs {items : List Item}
    (run : Runs sem (forEachStep runner wf p items) () tr r ()) :
    (items = [] → attempts tr = []) ∧ (r.success = true → ∀ x ∈ attempts tr, x.2 = true) := by
  obtain ⟨iterations, tr₁, tr₂, _, hiterations, hret, rfl⟩ := runs_bind run
  obtain ⟨rfl, rfl, _⟩ := runs_ret.mp hret
  rw [List.append_nil]
  refine ⟨fun hnil => ?_, fun hsuccess => iterateFrom_runs hiterations hsuccess⟩
  rw [hnil] at hiterations
  obtain ⟨rfl, _, _⟩ := runs_ret.mp hiterations
  rfl

end Retries

section Reached

variable {Results Item : Type} (runner : WorkflowRunner Results Item) (wf : Workflow)
  (p : PreparedStep Item)

/-- Every backend is there. -/
def allThere : Backends := fun _ => .ok ()

lemma finish_run (text : String) (stderr : Option String) :
    ∃ tr r, Runs (answering allThere) (finish p text stderr) () tr r () ∧ r.success = true ∧
      attempts tr = [] := by
  unfold finish
  split
  · exact ⟨[], _, .stop, rfl, rfl⟩
  · next config _ =>
    have hanswer : answering allThere (.validate config text stderr) () (none, none) () := trivial
    exact ⟨_, _, .act hanswer .stop, rfl, rfl⟩

lemma attemptWork_run (work : Work) (retries : ℕ) (out : Output) :
    Runs (answering allThere) (attemptWork work retries) () [⟨.attempt work, Except.ok out⟩]
      (.ok out) () := by
  have hanswer : answering allThere (.attempt work) () (Except.ok out : Except Failure Output) () :=
    trivial
  cases retries with
  | zero => exact .act hanswer .stop
  | succ left => exact .act hanswer .stop

lemma shellStep_run (cmd : String) :
    ∃ tr r, Runs (answering allThere) (shellStep runner wf p cmd) () tr r () ∧
      r.success = true := by
  obtain ⟨tr, r, hrun, hsuccess, _⟩ := finish_run p "" none
  exact ⟨_, r, (attemptWork_run _ _ ⟨"", none⟩).bind hrun, hsuccess⟩

/-- An answer to an attempt with the wanted outcome. -/
def answerOf (ok : Bool) : Except Failure Output :=
  if ok then .ok ⟨"", none⟩ else .error (.error "" false)

lemma attempt_answers (work : Work) (ok : Bool) :
    answering allThere (.attempt work) () (answerOf ok) () ∧
      ∀ tr, attempts (⟨.attempt work, answerOf ok⟩ :: tr) = (work, ok) :: attempts tr := by
  cases ok with
  | true => exact ⟨trivial, fun _ => rfl⟩
  | false => exact ⟨trivial, fun _ => rfl⟩

lemma iterate_run (item : Item) (index : ℕ) (ok : Bool) :
    ∃ tr outcome, Runs (answering allThere) (iterate runner wf p item index) () tr outcome () ∧
      outcome.2 = ok ∧ (attempts tr).map Prod.snd = [ok] := by
  have houtcome : (iterationOutcome wf p (answerOf ok)).2 = ok := by cases ok <;> rfl
  unfold iterate
  split
  · next cmd _ =>
    have hfirst := attempt_answers (shellWork runner (runner.interpolateLoopVars cmd item index)) ok
    refine ⟨_, _, .act hfirst.1 .stop, houtcome, ?_⟩
    rw [hfirst.2]
    rfl
  · have hfirst := attempt_answers
      (queryWork p p.step.backend (runner.interpolateLoopVars p.prompt item index)) ok
    have hconnects : answering allThere (.connect p.step.backend) ()
        (Except.ok () : Except ConnectError Unit) () := rfl
    refine ⟨_, _, .act hconnects (.act hfirst.1 .stop), houtcome, ?_⟩
    show (attempts (⟨.attempt _, answerOf ok⟩ :: [])).map Prod.snd = [ok]
    rw [hfirst.2]
    rfl

/-- The iterations may end as they like. -/
lemma iterateFrom_run (items : List Item) (index : ℕ) (oks : List Bool)
    (hlength : oks.length = items.length) :
    ∃ tr iterations, Runs (answering allThere) (iterateFrom runner wf p index items) () tr
      iterations () ∧ iterations.map Iteration.success = oks ∧
        (attempts tr).map Prod.snd = oks := by
  induction items generalizing index oks with
  | nil =>
      obtain rfl := List.length_eq_zero_iff.mp hlength
      exact ⟨[], [], .stop, rfl, rfl⟩
  | cons item items ih =>
      obtain ⟨ok, rest, rfl⟩ := List.exists_cons_of_length_eq_add_one hlength
      obtain ⟨tr₁, outcome, hfirst, hok, hattempts⟩ := iterate_run runner wf p item index ok
      obtain ⟨tr₂, iterations, hothers, hoks, hrest⟩ := ih (index + 1) rest (by simpa using hlength)
      refine ⟨_, _, hfirst.bind (hothers.bind .stop), ?_, ?_⟩
      · rw [List.map_cons, hoks, hok]
      · rw [attempts_append, List.map_append, hattempts, attempts_append, List.map_append, hrest,
          attempts_nil, List.map_nil, List.append_nil, List.singleton_append]

lemma forEachStep_run (items : List Item) (oks : List Bool) (hlength : oks.length = items.length) :
    ∃ tr r, Runs (answering allThere) (forEachStep runner wf p items) () tr r () ∧
      r.success = oks.all id ∧ (attempts tr).map Prod.snd = oks := by
  obtain ⟨tr, iterations, hrun, hoks, hattempts⟩ := iterateFrom_run runner wf p items 0 oks hlength
  refine ⟨_, _, hrun.bind .stop, ?_, by rwa [List.append_nil]⟩
  rw [← hoks, List.all_map]
  rfl

lemma queryBackend_run (backend : String) (ok : Bool) :
    ∃ tr answer, Runs (answering allThere) (queryBackend wf p backend) () tr answer () ∧
      ((∃ response, answer = .ok response) ↔ ok = true) ∧ (attempts tr).map Prod.snd = [ok] := by
  have hfirst := attempt_answers (queryWork p backend p.prompt) ok
  have hconnects : answering allThere (.connect backend) ()
      (Except.ok () : Except ConnectError Unit) () := rfl
  have havailable : answering allThere (.isAvailable backend) () true () := trivial
  have hattempts : (attempts (⟨.connect backend, Except.ok ()⟩ :: ⟨.isAvailable backend, true⟩ ::
      ⟨.attempt (queryWork p backend p.prompt), answerOf ok⟩ :: [])).map Prod.snd = [ok] := by
    show (attempts (⟨.attempt _, answerOf ok⟩ :: [])).map Prod.snd = [ok]
    rw [hfirst.2]
    rfl
  cases ok with
  | true =>
      exact ⟨_, .ok ⟨backend, ""⟩, .act hconnects (.act havailable (.act hfirst.1 .stop)),
        by simp, hattempts⟩
  | false =>
      exact ⟨_, .error _, .act hconnects (.act havailable (.act hfirst.1 .stop)), by simp,
        hattempts⟩

lemma queryAll_run (backends : List String) (oks : List Bool)
    (hlength : oks.length = backends.length) :
    ∃ tr answers, Runs (answering allThere) (queryAll wf p backends) () tr answers () ∧
      (true ∈ oks → responsesOf answers ≠ []) ∧ (attempts tr).map Prod.snd = oks := by
  induction backends generalizing oks with
  | nil =>
      obtain rfl := List.length_eq_zero_iff.mp hlength
      exact ⟨[], [], .stop, nofun, rfl⟩
  | cons backend backends ih =>
      obtain ⟨ok, rest, rfl⟩ := List.exists_cons_of_length_eq_add_one hlength
      obtain ⟨tr₁, answer, hfirst, hok, hattempts⟩ := queryBackend_run wf p backend ok
      obtain ⟨tr₂, answers, hothers, hsome, hrest⟩ := ih rest (by simpa using hlength)
      refine ⟨_, _, hfirst.bind (hothers.bind .stop), fun htrue => ?_, ?_⟩
      · rcases List.mem_cons.mp htrue with heq | htrue
        · obtain ⟨response, rfl⟩ := hok.mpr heq.symm
          exact List.cons_ne_nil _ _
        · have hne := hsome htrue
          cases answer with
          | ok response => exact List.cons_ne_nil _ _
          | error message => exact hne
      · rw [attempts_append, List.map_append, hattempts, attempts_append, List.map_append, hrest,
          attempts_nil, List.map_nil, List.append_nil, List.singleton_append]

lemma combine_run (first : BackendResponse) (responses : List BackendResponse) :
    ∃ tr text, Runs (answering allThere) (combine runner p first responses) () tr text () ∧
      attempts tr = [] := by
  unfold combine
  split
  · exact ⟨[], _, .stop, rfl⟩
  · exact ⟨[], _, .stop, rfl⟩
  · exact ⟨[], _, .stop, rfl⟩
  · have hknown : answering allThere (.containsBackend "claude") () true () := rfl
    have hconnects : answering allThere (.connect "claude") ()
        (Except.ok () : Except ConnectError Unit) () := rfl
    have hanswer : answering allThere
        (.assist (.query "claude" (synthPrompt p.prompt responses) none)) ()
        (Except.ok ⟨"", none⟩ : Except Failure Output) () := trivial
    exact ⟨_, _, .act hknown (.act hconnects (.act hanswer .stop)), rfl⟩

/-- With one response at least the step succeeds, whatever the other branches do. -/
lemma multiStep_run (oks : List Bool) (hlength : oks.length = (getBackends p.step).length)
    (htrue : true ∈ oks) :
    ∃ tr r, Runs (answering allThere) (multiStep runner wf p) () tr r () ∧ r.success = true ∧
      (attempts tr).map Prod.snd = oks := by
  obtain ⟨tr₁, answers, hqueries, hsome, hattempts⟩ :=
    queryAll_run wf p (getBackends p.step) oks hlength
  obtain ⟨first, rest, hresponses⟩ := List.exists_cons_of_ne_nil (hsome htrue)
  obtain ⟨tr₂, text, hcombine, hnone⟩ := combine_run runner p first (first :: rest)
  obtain ⟨tr₃, r, hfinish, hsuccess, hnone'⟩ := finish_run p text none
  refine ⟨tr₁ ++ (tr₂ ++ tr₃), r, hqueries.bind ?_, hsuccess, ?_⟩
  · rw [hresponses]
    exact hcombine.bind hfinish
  · rw [attempts_append, attempts_append, hnone, hnone', List.append_nil, List.append_nil]
    exact hattempts

end Reached

section ReachedSingle

variable {Results Item : Type} (runner : WorkflowRunner Results Item) (wf : Workflow)
  (p : PreparedStep Item)

/-- A file of the working directory, by the components of its path. -/
lemma components_joinPath (cwd : String) {file : String} (hfile : IsName file) :
    ∃ above, components (joinPath cwd file) = above ++ [file] ∧
      (above.filter fun s => s ≠ "" ∧ s ≠ ".") = normalComponents cwd := by
  have hone : components file = [file] := components_of_no_slash hfile.no_slash
  have hstarts : startsWith file "/" = false := by
    rw [Bool.eq_false_iff]
    intro h
    obtain ⟨rest, rfl⟩ := startsWith_iff.mp h
    exact hfile.no_slash (by simp)
  unfold joinPath
  rw [hstarts, if_neg (by simp)]
  by_cases hempty : cwd = ""
  · refine ⟨[], ?_, ?_⟩
    · rw [if_pos (Or.inl hempty), hempty, String.empty_append, hone, List.nil_append]
    · rw [hempty]
      decide
  · by_cases hslash : endsWith cwd "/" = true
    · rw [if_pos (Or.inr hslash)]
      obtain ⟨pre, rfl⟩ := endsWith_iff.mp hslash
      refine ⟨components pre, by rw [components_concat, hone], ?_⟩
      have hend : components (pre ++ "/" ++ "") = components pre ++ components "" :=
        components_concat pre ""
      rw [String.append_empty] at hend
      rw [normalComponents, hend, List.filter_append]
      simp [components, List.splitOn]
    · rw [if_neg (by simp [hempty, hslash]), components_concat, hone]
      exact ⟨components cwd, rfl, rfl⟩

def newFile : FileEdit := ⟨"a.txt", "", "x"⟩

def newFileText : String := "File: a.txt\nx"

lemma parse_newFile : runner.parse newFileText = .ok ⟨[newFile], .fullFile⟩ := by
  have htrim : trim (replaceAll newFileText "\r\n" "\n") = newFileText := by decide
  have hblock : EditParser.extractCodeBlock newFileText = (newFileText, none) := by decide
  have hcontent : trim newFileText = newFileText := by decide
  have hformat : EditParser.detectFormat newFileText none = .fullFile := by decide
  have hparse : EditParser.parseFullFile newFileText = .ok ⟨[newFile], .fullFile⟩ := by decide
  have hne : newFileText ≠ "" := by decide
  unfold WorkflowRunner.parse EditParser.parse
  rw [if_neg (by decide)]
  simp only [htrim, hblock, hcontent, hformat, hparse, if_neg hne]
  rfl

lemma newFile_inside (cwd : String) :
    escapes cwd newFile.file = false ∧
      filePlace (fun _ => none) (joinPath cwd newFile.file) =
        some (resolve (joinPath cwd newFile.file)) ∧
      resolve (joinPath cwd newFile.file) ≠ [] := by
  have hname : IsName newFile.file := by decide
  obtain ⟨above, habove, hnormal⟩ := components_joinPath cwd hname
  refine ⟨?_, ?_, ?_⟩
  · have hpre : (normalComponents cwd).isPrefixOf
        (normalComponents (joinPath cwd newFile.file)) = true := by
      rw [normalComponents, normalComponents, habove, List.filter_append, hnormal]
      exact List.isPrefixOf_iff_prefix.mpr (List.prefix_append _ _)
    unfold escapes
    rw [hpre]
    decide
  · have hlast : (components (joinPath cwd newFile.file)).getLast? = some newFile.file := by
      rw [habove]
      exact List.getLast?_concat
    apply filePlace_noLinks
    · unfold namesDirectory
      rw [hlast]
      decide
    · rw [hlast]
      decide
  · have hresolve : resolve (joinPath cwd newFile.file) =
        descend (above.foldl descend []) newFile.file := by
      unfold resolve join
      rw [habove, List.foldl_append, ite_self]
      rfl
    rw [hresolve]
    simp [descend, newFile]

/-- The new file's text can be applied on some tree of files. -/
lemma applyOnce_run (format wrapper : Option String) :
    ∃ t t' tr, Runs (perform ⟨fun _ _ => True, fun _ => True⟩)
      (applyOnce runner.parse newFileText runner.cwd format wrapper) t tr (.ok ()) t' ∧
        ∀ e ∈ tr, ∀ context, e.op ≠ .requestEdits context := by
  obtain ⟨hinside, hplace, hroot⟩ := newFile_inside runner.cwd
  obtain ⟨disk, hdisk⟩ := exists_fileAt hroot (Content.text "y")
  obtain ⟨t, hlink, ht⟩ : ∃ t : Files, t.link = (fun _ => none) ∧
      contentAt t (resolve (joinPath runner.cwd newFile.file)) = some (.text "y") :=
    ⟨⟨disk, fun _ => none⟩, rfl, hdisk⟩
  rw [← hlink] at hplace
  obtain ⟨t', ht'⟩ := putFile_of_file (.text newFile.new) hplace ht
  have hread : perform ⟨fun _ _ => True, fun _ => True⟩
      (.readToString (joinPath runner.cwd newFile.file)) t
      (Except.ok "y" : Except IoError String) t := by
    refine ⟨rfl, ?_⟩
    rw [readOutcome_of_file hplace ht]
  have hwrite : perform ⟨fun _ _ => True, fun _ => True⟩
      (.write (joinPath runner.cwd newFile.file) newFile.new) t
      (Except.ok () : Except IoError Unit) t' := by
    simp [perform, Attempted, writeOutcome, ht']
  have hedit : ∃ tr, Runs (perform ⟨fun _ _ => True, fun _ => True⟩)
      (applyEdit runner.cwd .fullFile newFile ⟨[], .fullFile⟩) t tr
      (.ok ⟨joinPath runner.cwd newFile.file, some "y", newFile.new⟩) t' ∧
        ∀ e ∈ tr, ∀ context, e.op ≠ .requestEdits context := by
    unfold applyEdit
    rw [if_neg (by decide), if_neg (by simp [hinside])]
    refine ⟨_, .act hread (.act hwrite .stop), ?_⟩
    simp
  obtain ⟨tr, hruns, hasks⟩ := hedit
  have happly : Runs (perform ⟨fun _ _ => True, fun _ => True⟩)
      (apply ⟨[newFile], .fullFile⟩ runner.cwd) t (tr ++ [])
      (.ok ⟨[⟨joinPath runner.cwd newFile.file, some "y", newFile.new⟩], .fullFile⟩) t' :=
    hruns.bind .stop
  rw [List.append_nil] at happly
  unfold applyOnce
  rw [parse_newFile]
  cases format with
  | none =>
      refine ⟨t, t', _, happly.bind .stop, ?_⟩
      simpa using hasks
  | some cmd =>
      have hformat : perform ⟨fun _ _ => True, fun _ => True⟩
          (.format (applyCommandWrapper cmd wrapper)) t' () t' := trivial
      refine ⟨t, t', _, happly.bind (.act hformat .stop), ?_⟩
      intro e he
      rcases List.mem_append.mp he with he | he
      · exact hasks e he
      · rw [List.mem_singleton.mp he]
        simp

lemma composeVerify_none (format : Option String) : composeVerify format none = none := by
  cases format <;> rfl

/-- Without a verify command some output passes the checks. -/
lemma checkOutput_run (hverify : p.verify = none) :
    ∃ tr, Runs (answering allThere) (checkOutput runner wf p ⟨newFileText, none⟩) () tr
      (.ok ⟨newFileText, none⟩) () := by
  unfold checkOutput
  split
  · unfold applyStep
    rw [hverify, composeVerify_none]
    obtain ⟨t, t', tr, hruns, hasks⟩ := applyOnce_run runner p.format runner.commandWrapper
    obtain ⟨tr', hembed⟩ := exists_embed_runs allThere hruns hasks {}
    exact ⟨_, hembed.bind .stop⟩
  · unfold verifyStep verifyStep.verify
    rw [hverify]
    split
    · next cmd _ =>
      have hanswer : answering allThere (.assist (shellWork runner cmd)) ()
          (Except.ok ⟨"", none⟩ : Except Failure Output) () := trivial
      exact ⟨_, .act hanswer .stop⟩
    · exact ⟨[], .stop⟩

lemma singleStep_run (hverify : p.verify = none) :
    ∃ tr r, Runs (answering allThere) (singleStep runner wf p) () tr r () ∧ r.success = true := by
  have hconnects : answering allThere (.connect p.step.backend) ()
      (Except.ok () : Except ConnectError Unit) () := rfl
  have havailable : answering allThere (.isAvailable p.step.backend) () true () := trivial
  have hattempt := attemptWork_run (queryWork p p.step.backend p.prompt) p.step.retries
    ⟨newFileText, none⟩
  obtain ⟨tr, hcheck⟩ := checkOutput_run runner wf p hverify
  obtain ⟨tr', r, hfinish, hsuccess, _⟩ := finish_run p newFileText none
  exact ⟨_, r, .act hconnects (.act havailable (hattempt.bind (hcheck.bind hfinish))), hsuccess⟩

end ReachedSingle

section Safeguards

variable {Results Item : Type} {runner : WorkflowRunner Results Item} {wf : Workflow}
  {p : PreparedStep Item} {step : Step} {results : Results}

/-- The loader lets no step edit files with several backends. -/
lemma single_of_applyEdits {lookup : String → Option BackendCapabilities}
    (haccepted : validateWithCapabilities lookup wf = .ok ()) (hstep : step ∈ wf.steps)
    (hedits : step.applyEdits = true) : ¬ 1 < (getBackends step).length := by
  obtain ⟨u, _, hchecks⟩ := bind_eq_ok haccepted
  have hcheck := forM_ok_iff.mp hchecks step hstep
  intro hmany
  simp [checkCapabilities, requiredCapabilities, hedits, hmany] at hcheck

lemma checked_honoured {tr : List (Event RunnerOps)} {r : StepResult}
    (hfrom : PreparedFrom runner step results p) (hresolved : ¬ Unresolved runner p.step results)
    (hchecked : Checked runner p tr (textOf r))
    (hvalidated : ∀ config, p.step.validate = some config → Validated config r tr)
    (hretried : Retried p.step.retries (attempts tr)) : Honoured runner results p tr r := by
  have hverify : DeclaresVerify runner p.step results → p.verify ≠ none := by
    intro hdeclares hnone
    exact hresolved ((verify_isNone_iff hfrom hdeclares).mp hnone)
  refine ⟨fun hedits => ?_, fun hedits hdeclares => ?_, hvalidated, hretried⟩
  · obtain ⟨after, happlied, hafter⟩ := hchecked.edits hedits
    exact ⟨after, happlied, fun hdeclares => hafter (hverify hdeclares)⟩
  · exact hchecked.verify hedits (hverify hdeclares)

/-- Every run of the step that succeeds has honoured its safeguards. -/
def SucceedsHonoured (runner : WorkflowRunner Results Item) (wf : Workflow) (results : Results)
    (p : PreparedStep Item) : Prop :=
  ∀ backends tr r, Runs (answering backends) (executeStep runner wf p) () tr r () →
    r.success = true → Honoured runner results p tr r

/-- Every run of the step retries what fails. -/
def AlwaysRetries (runner : WorkflowRunner Results Item) (wf : Workflow) (p : PreparedStep Item) :
    Prop :=
  ∀ backends tr r, Runs (answering backends) (executeStep runner wf p) () tr r () →
    Retried p.step.retries (attempts tr)

lemma executeStep_forEach {items : List Item} (hitems : p.forEachItems = some items) :
    executeStep runner wf p = forEachStep runner wf p items := by
  unfold executeStep
  rw [hitems]

lemma forEach_honoured_iff {items : List Item} (hitems : p.forEachItems = some items) :
    SucceedsHonoured runner wf results p ↔ p.step.applyEdits = false ∧
      ¬ DeclaresVerify runner p.step results ∧ p.step.validate = none := by
  unfold SucceedsHonoured
  rw [executeStep_forEach hitems]
  constructor
  · intro h
    obtain ⟨tr, r, hrun, hsuccess, _⟩ := forEachStep_run runner wf p items
      (List.replicate items.length true) (List.length_replicate)
    have hplain := (hrun.emits (forEachStep_emits items)).2
    have hhonoured := h allThere tr r hrun (by rw [hsuccess]; simp)
    obtain ⟨hno, hverify, hvalidate, _⟩ :=
      (honoured_bare_iff fun e he => (hplain e he).1).mp hhonoured
    refine ⟨hno, hverify, ?_⟩
    by_contra hsome
    obtain ⟨config, hconfig⟩ := Option.ne_none_iff_exists'.mp hsome
    obtain ⟨stderr, cleaned, hmem, _⟩ := hvalidate config hconfig
    exact (hplain _ hmem).2 _ _ _ rfl
  · rintro ⟨hno, hverify, hnone⟩ backends tr r hrun hsuccess
    have hplain := (hrun.emits (forEachStep_emits items)).2
    refine (honoured_bare_iff fun e he => (hplain e he).1).mpr ⟨hno, hverify, ?_, ?_⟩
    · rw [hnone]
      intro config hconfig
      cases hconfig
    · exact retried_of_success ((forEachStep_runs hrun).2 hsuccess)

lemma forEach_retries_iff {items : List Item} (hitems : p.forEachItems = some items) :
    AlwaysRetries runner wf p ↔ p.step.retries = 0 ∨ items = [] := by
  unfold AlwaysRetries
  rw [executeStep_forEach hitems]
  constructor
  · intro h
    by_contra hnot
    push Not at hnot
    obtain ⟨hretries, hne⟩ := hnot
    have hlength : (List.replicate (items.length - 1) true ++ [false]).length = items.length := by
      have hpos := List.length_pos_of_ne_nil hne
      simp
      omega
    obtain ⟨tr, r, hrun, _, hattempts⟩ := forEachStep_run runner wf p items _ hlength
    exact not_retried (Nat.pos_of_ne_zero hretries) hattempts (h allThere tr r hrun)
  · rintro (hzero | hnil) backends tr r hrun
    · rw [hzero]
      exact retried_zero _
    · rw [(forEachStep_runs hrun).1 hnil]
      exact .nil

lemma executeStep_shell {cmd : String} (hitems : p.forEachItems = none)
    (hshell : p.shell = some cmd) : executeStep runner wf p = shellStep runner wf p cmd := by
  unfold executeStep
  rw [hitems, hshell]

lemma shell_retries {cmd : String} (hitems : p.forEachItems = none) (hshell : p.shell = some cmd) :
    AlwaysRetries runner wf p := by
  unfold AlwaysRetries
  rw [executeStep_shell hitems hshell]
  exact fun backends tr r hrun => (shellStep_checked hrun).1

lemma shell_honoured_iff {cmd : String} (hitems : p.forEachItems = none)
    (hshell : p.shell = some cmd) :
    SucceedsHonoured runner wf results p ↔ p.step.applyEdits = false ∧
      ¬ DeclaresVerify runner p.step results := by
  unfold SucceedsHonoured
  rw [executeStep_shell hitems hshell]
  constructor
  · intro h
    obtain ⟨tr, r, hrun, hsuccess⟩ := shellStep_run runner wf p cmd
    have hbare := (hrun.emits (shellStep_emits cmd)).2
    obtain ⟨hno, hverify, _⟩ := (honoured_bare_iff hbare).mp (h allThere tr r hrun hsuccess)
    exact ⟨hno, hverify⟩
  · rintro ⟨hno, hverify⟩ backends tr r hrun hsuccess
    have hbare := (hrun.emits (shellStep_emits cmd)).2
    obtain ⟨hretried, hvalidated⟩ := shellStep_checked hrun
    exact (honoured_bare_iff hbare).mpr ⟨hno, hverify, hvalidated hsuccess, hretried⟩

/-- A step with several backends has a run in which the last of them alone fails. -/
lemma multi_last_fails (runner : WorkflowRunner Results Item) (wf : Workflow)
    (hmany : 1 < (getBackends p.step).length) :
    ∃ k tr r, Runs (answering allThere) (multiStep runner wf p) () tr r () ∧ r.success = true ∧
      (attempts tr).map Prod.snd = List.replicate k true ++ [false] := by
  have hlength : (List.replicate ((getBackends p.step).length - 1) true ++ [false]).length =
      (getBackends p.step).length := by
    simp
    omega
  have htrue : true ∈ List.replicate ((getBackends p.step).length - 1) true ++ [false] := by
    refine List.mem_append_left _ (List.mem_replicate.mpr ⟨?_, rfl⟩)
    omega
  obtain ⟨tr, r, hrun, hsuccess, hattempts⟩ := multiStep_run runner wf p _ hlength htrue
  exact ⟨_, tr, r, hrun, hsuccess, hattempts⟩

lemma executeStep_multi (hitems : p.forEachItems = none) (hshell : p.shell = none)
    (hmany : 1 < (getBackends p.step).length) :
    executeStep runner wf p = multiStep runner wf p := by
  unfold executeStep
  rw [hitems, hshell]
  exact if_pos hmany

lemma multi_retries_iff (hitems : p.forEachItems = none) (hshell : p.shell = none)
    (hmany : 1 < (getBackends p.step).length) :
    AlwaysRetries runner wf p ↔ p.step.retries = 0 := by
  unfold AlwaysRetries
  rw [executeStep_multi hitems hshell hmany]
  constructor
  · intro h
    by_contra hretries
    obtain ⟨k, tr, r, hrun, _, hattempts⟩ := multi_last_fails runner wf hmany
    exact not_retried (Nat.pos_of_ne_zero hretries) hattempts (h allThere tr r hrun)
  · intro h backends tr r _
    rw [h]
    exact retried_zero _

lemma multi_honoured_iff (hitems : p.forEachItems = none) (hshell : p.shell = none)
    (hmany : 1 < (getBackends p.step).length) (hedits : p.step.applyEdits = false) :
    SucceedsHonoured runner wf results p ↔
      ¬ DeclaresVerify runner p.step results ∧ p.step.retries = 0 := by
  unfold SucceedsHonoured
  rw [executeStep_multi hitems hshell hmany]
  constructor
  · intro h
    obtain ⟨k, tr, r, hrun, hsuccess, hattempts⟩ := multi_last_fails runner wf hmany
    have hbare := (hrun.emits multiStep_emits).2
    obtain ⟨_, hverify, _, hretried⟩ :=
      (honoured_bare_iff hbare).mp (h allThere tr r hrun hsuccess)
    refine ⟨hverify, ?_⟩
    by_contra hretries
    exact not_retried (Nat.pos_of_ne_zero hretries) hattempts hretried
  · rintro ⟨hverify, hretries⟩ backends tr r hrun hsuccess
    have hbare := (hrun.emits multiStep_emits).2
    refine (honoured_bare_iff hbare).mpr
      ⟨hedits, hverify, multiStep_validated hrun hsuccess, ?_⟩
    rw [hretries]
    exact retried_zero _

lemma executeStep_single (hitems : p.forEachItems = none) (hshell : p.shell = none)
    (hone : ¬ 1 < (getBackends p.step).length) :
    executeStep runner wf p = singleStep runner wf p := by
  unfold executeStep
  rw [hitems, hshell]
  exact if_neg hone

lemma single_retries (hitems : p.forEachItems = none) (hshell : p.shell = none)
    (hone : ¬ 1 < (getBackends p.step).length) : AlwaysRetries runner wf p := by
  unfold AlwaysRetries
  rw [executeStep_single hitems hshell hone]
  exact fun backends tr r hrun => (singleStep_checked hrun).1

lemma single_honoured_iff (hfrom : PreparedFrom runner step results p)
    (hitems : p.forEachItems = none) (hshell : p.shell = none)
    (hone : ¬ 1 < (getBackends p.step).length) :
    SucceedsHonoured runner wf results p ↔ ¬ Unresolved runner p.step results := by
  unfold SucceedsHonoured
  rw [executeStep_single hitems hshell hone]
  constructor
  · intro h hunresolved
    have hdeclares : DeclaresVerify runner p.step results := Unresolved.declares hunresolved
    have hnone := (verify_isNone_iff hfrom hdeclares).mpr hunresolved
    obtain ⟨tr, r, hrun, hsuccess⟩ := singleStep_run runner wf p hnone
    obtain ⟨hedits, hverify, _, _⟩ := h allThere tr r hrun hsuccess
    by_cases hyes : p.step.applyEdits = true
    · obtain ⟨after, _, hafter⟩ := hedits hyes
      obtain ⟨command, _, _, hcommand, _⟩ := hafter hdeclares
      rw [hnone, composeVerify_none] at hcommand
      cases hcommand
    · obtain ⟨cmd, _, hcmd, _⟩ := hverify (by simpa using hyes) hdeclares
      rw [hnone] at hcmd
      cases hcmd
  · intro hresolved backends tr r hrun hsuccess
    obtain ⟨hretried, hdone⟩ := singleStep_checked hrun
    obtain ⟨hchecked, hvalidated⟩ := hdone hsuccess
    exact checked_honoured hfrom hresolved hchecked hvalidated hretried

/-- A step that succeeds has honoured its safeguards in every run exactly if it declares none that
its kind drops; and its failing attempts are retried in every run exactly if its kind retries. -/
theorem safeguards_honoured_iff {lookup : String → Option BackendCapabilities}
    (haccepted : validateWithCapabilities lookup wf = .ok ()) (hstep : step ∈ wf.steps)
    (hprepare : prepare runner step results = .ok p) :
    (SucceedsHonoured runner wf results p ↔ Supported runner results p) ∧
      (AlwaysRetries runner wf p ↔ RetriesSupported p) := by
  have hfrom := prepare_ok hprepare
  unfold Supported RetriesSupported
  cases hitems : p.forEachItems with
  | some items =>
      have heach : p.step.forEach.isSome = true := by rw [hfrom.step_eq, ← hfrom.items, hitems]; rfl
      rw [if_pos heach, if_pos heach]
      refine ⟨forEach_honoured_iff hitems, (forEach_retries_iff hitems).trans ?_⟩
      rw [Option.some_inj]
  | none =>
      have heach : ¬ p.step.forEach.isSome = true := by
        rw [hfrom.step_eq, ← hfrom.items, hitems]
        exact Bool.false_ne_true
      rw [if_neg heach, if_neg heach]
      cases hshell : p.shell with
      | some cmd =>
          have hsome : p.step.shell.isSome = true := by
            rw [hfrom.step_eq, ← hfrom.shell, hshell]
            rfl
          rw [if_pos hsome]
          exact ⟨shell_honoured_iff hitems hshell,
            iff_of_true (shell_retries hitems hshell) (Or.inr (Or.inl hsome))⟩
      | none =>
          have hnone : ¬ p.step.shell.isSome = true := by
            rw [hfrom.step_eq, ← hfrom.shell, hshell]
            exact Bool.false_ne_true
          rw [if_neg hnone]
          by_cases hmany : 1 < (getBackends p.step).length
          · have hedits : p.step.applyEdits = false := by
              rw [hfrom.step_eq] at hmany ⊢
              by_contra hyes
              exact single_of_applyEdits haccepted hstep (by simpa using hyes) hmany
            rw [if_pos hmany]
            refine ⟨multi_honoured_iff hitems hshell hmany hedits,
              (multi_retries_iff hitems hshell hmany).trans ?_⟩
            simp [hnone, hmany]
          · rw [if_neg hmany]
            exact ⟨single_honoured_iff hfrom hitems hshell hmany,
              iff_of_true (single_retries hitems hshell hmany) (Or.inr (Or.inr (by omega)))⟩

/-- A runner whose texts have nothing to fill in. -/
def plainRunner : WorkflowRunner Unit Unit where
  cwd := "/w"
  commandWrapper := none
  context := {}
  interpolate text _ := .ok text
  parseForEachArray _ _ := .ok []
  interpolateLoopVars text _ _ := text
  toStringPretty _ := "[]"
  readWrapper _ := none
  readEdits _ := none
  iteration scores := scores

/-- One backend edits, and its edits are verified. -/
def fixStep : Step where
  name := "fix"
  backend := "claude"
  prompt := "Fix it"
  applyEdits := true
  verify := some "cargo test"
  retries := 2

/-- The same safeguards on a command. -/
def buildStep : Step := { fixStep with name := "build", shell := some "make" }

def fixAndBuild : Workflow where
  name := "fix-and-build"
  steps := [fixStep, buildStep]

def editors (_ : String) : Option BackendCapabilities := some ⟨true, true, true⟩

def preparedOf (step : Step) : PreparedStep Unit where
  step := step
  prompt := step.prompt
  shell := step.shell
  format := some "cargo test"
  verify := some "cargo test"
  forEachItems := none

lemma accepted_fixAndBuild : validateWithCapabilities editors fixAndBuild = .ok () := by
  decide

theorem safeguards_honoured_iff_fix :
    SucceedsHonoured plainRunner fixAndBuild () (preparedOf fixStep) ∧
      AlwaysRetries plainRunner fixAndBuild (preparedOf fixStep) := by
  have hstep : fixStep ∈ fixAndBuild.steps := by decide
  have hprepare : prepare plainRunner fixStep () = .ok (preparedOf fixStep) := rfl
  have hiff := safeguards_honoured_iff accepted_fixAndBuild hstep hprepare
  refine ⟨hiff.1.mpr ?_, hiff.2.mpr ?_⟩
  · rintro ⟨field, value, hfield, hvalue, htrue, _⟩
    cases hfield
    cases hvalue
    exact absurd htrue (by decide)
  · exact Or.inr (Or.inr (by decide))

/-- The loader accepts a command with edits to apply and to verify, and the runner records it as
successful with neither done. -/
theorem shell_drops_safeguards :
    validateWithCapabilities editors fixAndBuild = .ok () ∧ buildStep ∈ fixAndBuild.steps ∧
      prepare plainRunner buildStep () = .ok (preparedOf buildStep) ∧
      ∃ tr r, Runs (answering allThere) (executeStep plainRunner fixAndBuild (preparedOf buildStep))
        () tr r () ∧ r.success = true ∧ edits tr = [] ∧
          ¬ Verified plainRunner (preparedOf buildStep) tr ∧
          ¬ Honoured plainRunner () (preparedOf buildStep) tr r := by
  refine ⟨accepted_fixAndBuild, by decide, rfl, ?_⟩
  obtain ⟨tr, r, hrun, hsuccess⟩ :=
    shellStep_run plainRunner fixAndBuild (preparedOf buildStep) "make"
  have hbare := (hrun.emits (shellStep_emits "make")).2
  refine ⟨tr, r, hrun, hsuccess, edits_eq_nil hbare, not_verified hbare, fun h => ?_⟩
  obtain ⟨hno, _⟩ := (honoured_bare_iff hbare).mp h
  cases hno

end Safeguards

end Loker.StepSafeguards
