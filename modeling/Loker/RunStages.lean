import Loker.PhaseRunner

/-! The stages of a phase run: how far it gets, in which stage it ends, and which of its failures
it records. -/

namespace Loker.RunStages

open FileTree TextOps Programs RunFiles RunLoad RunOps Dispatch Strategies PhaseRunner

variable {B : Type} [RunFormat B]

section Stages

variable (eng : Engines) (cfg : PhaseConfig) (inp : PhaseInputs) (n : ℕ) (w : World B)

/-- The first started marker is written. -/
def Started (tr : List (Event (RunSig B))) (w' : World B) : Prop :=
  validateConfig cfg = .ok () ∧
    Runs (ρ := Except PhaseError Unit) perform (startAttempt inp.runDir cfg.phase n) w tr (.ok ()) w'

/-- The strategy has a result. -/
def Executed (tr : List (Event (RunSig B))) (output : StrategyOutput) (w' : World B) : Prop :=
  ∃ strategy tr₁ tr₂ w₁, Started cfg inp n w tr₁ w₁ ∧
    resolveStrategy cfg inp.verify = .ok strategy ∧
    Runs (ρ := Except StrategyError StrategyOutput) perform (execute eng inp strategy) w₁ tr₂
      (.ok output) w' ∧ tr = tr₁ ++ tr₂

/-- The numbers of the attempts after the first one, from it on. -/
def furtherAttempts (output : StrategyOutput) : List ℕ :=
  List.range' 1 (output.attempts.length - 1)

/-- Every attempt has its started marker. -/
def Marked (tr : List (Event (RunSig B))) (output : StrategyOutput) (w' : World B) : Prop :=
  ∃ tr₁ tr₂ w₁, Executed eng cfg inp n w tr₁ output w₁ ∧
    Runs (ρ := Except PhaseError Unit) perform (startAttempts cfg inp n (furtherAttempts output)) w₁
      tr₂ (.ok ()) w' ∧ tr = tr₁ ++ tr₂

/-- The artefact's bytes are there, with the attempt that is named for them. -/
def Produced (tr : List (Event (RunSig B))) (output : StrategyOutput) (x : B × ℕ) (w' : World B) :
    Prop :=
  ∃ tr₁ tr₂ w₁, Marked eng cfg inp n w tr₁ output w₁ ∧
    Runs (ρ := Except PhaseError (B × ℕ)) perform
      (canonicalBytes eng inp.runDir output cfg.aggregator) w₁ tr₂ (.ok x) w' ∧ tr = tr₁ ++ tr₂

/-- A hook is to judge the artefact, and it is available. -/
def Hooked : Prop := cfg.verify ≠ .none ∧ resolveVerifyHook cfg inp = .ok ()

/-- The artefact may be committed. -/
def Accepted (tr : List (Event (RunSig B))) (output : StrategyOutput) (verify : Option HookResult)
    (x : B × ℕ) (w' : World B) : Prop :=
  ∃ tr₁ tr₂ w₁, Produced eng cfg inp n w tr₁ output x w₁ ∧
    Runs (ρ := Except PhaseError (Option HookResult)) perform
      (runVerify cfg inp n output x.2 x.1) w₁ tr₂ (.ok verify) w' ∧ tr = tr₁ ++ tr₂

/-- An error that the run goes on to record, with the number of attempts made. -/
inductive Fails : List (Event (RunSig B)) → ℕ → PhaseError → World B → Prop
  | strategy {tr₁ tr₂ strategy w₁ w' e} (started : Started cfg inp n w tr₁ w₁)
      (resolved : resolveStrategy cfg inp.verify = .ok strategy)
      (failed : Runs (ρ := Except StrategyError StrategyOutput) perform (execute eng inp strategy) w₁
        tr₂ (.error e) w') : Fails (tr₁ ++ tr₂) (n + 1) (strategyError e) w'
  | canonical {tr₁ tr₂ output w₁ w' e} (marked : Marked eng cfg inp n w tr₁ output w₁)
      (failed : Runs (ρ := Except PhaseError (B × ℕ)) perform
        (canonicalBytes eng inp.runDir output cfg.aggregator) w₁ tr₂ (.error e) w') :
      Fails (tr₁ ++ tr₂) (attemptsMade n output) e w'
  | verdict {tr₁ tr₂ output x w₁ w' result} (produced : Produced eng cfg inp n w tr₁ output x w₁)
      (hooked : Hooked cfg inp)
      (judged : Runs (ρ := Except PhaseError HookResult) perform (callHook x.1) w₁ tr₂ (.ok result) w')
      (rejected : result ≠ .pass) :
      Fails (tr₁ ++ tr₂) (attemptsMade n output) (.verifyFailed cfg.phase x.2 result) w'

/-- The stage in which a run ends. -/
inductive Ends : List (Event (RunSig B)) → Except PhaseError PhaseOutcome → World B → Prop
  | invalid {e} (invalid : validateConfig cfg = .error e) : Ends [] (.error (dispatchError e)) w
  | unstarted {tr e w'} (valid : validateConfig cfg = .ok ())
      (failed : Runs (ρ := Except PhaseError Unit) perform (startAttempt inp.runDir cfg.phase n) w tr
        (.error e) w') : Ends tr (.error e) w'
  | unresolved {tr e w'} (started : Started cfg inp n w tr w')
      (failed : resolveStrategy cfg inp.verify = .error e) : Ends tr (.error (dispatchError e)) w'
  | unmarked {tr₁ tr₂ output e w₁ w'} (executed : Executed eng cfg inp n w tr₁ output w₁)
      (failed : Runs (ρ := Except PhaseError Unit) perform
        (startAttempts cfg inp n (furtherAttempts output)) w₁ tr₂ (.error e) w') :
      Ends (tr₁ ++ tr₂) (.error e) w'
  | unhooked {tr output x e w'} (produced : Produced eng cfg inp n w tr output x w')
      (judged : cfg.verify ≠ .none) (missing : resolveVerifyHook cfg inp = .error e) :
      Ends tr (.error e) w'
  | unanswered {tr₁ tr₂ output x e w₁ w'} (produced : Produced eng cfg inp n w tr₁ output x w₁)
      (hooked : Hooked cfg inp)
      (failed : Runs (ρ := Except PhaseError HookResult) perform (callHook x.1) w₁ tr₂ (.error e) w') :
      Ends (tr₁ ++ tr₂) (.error e) w'
  | failed {tr₁ tr₂ made e r w₁ w'} (fails : Fails eng cfg inp n w tr₁ made e w₁)
      (record : Runs (ρ := Except PhaseError Unit) perform
        (recordTerminalFailure inp.runDir cfg made (errorClass e)) w₁ tr₂ r w') :
      Ends (tr₁ ++ tr₂) (.error e) w'
  | committed {tr₁ tr₂ output verify x r w₁ w'}
      (accepted : Accepted eng cfg inp n w tr₁ output verify x w₁)
      (commit : Runs (ρ := Except PhaseError PhaseOutcome) perform
        (commit cfg inp output verify x.1 (n + x.2)) w₁ tr₂ r w') :
      Ends (tr₁ ++ tr₂) r w'

end Stages

section Ending

variable {eng : Engines} {cfg : PhaseConfig} {inp : PhaseInputs} {n : ℕ} {w w₁ w' : World B}
  {tr tr₁ tr₂ : List (Event (RunSig B))} {r : Except PhaseError PhaseOutcome}

/-- The record's own error is only reported, so the run ends in the error it records. -/
lemma failWith_run {ρ : Type} {made : ℕ} {e : PhaseError} {r : Except PhaseError ρ}
    (h : Runs (ρ := Except PhaseError ρ) perform (failWith inp.runDir cfg made e) w tr r w') :
    r = .error e ∧ ∃ r', Runs (ρ := Except PhaseError Unit) perform
      (recordTerminalFailure inp.runDir cfg made (errorClass e)) w tr r' w' := by
  obtain ⟨r₁, tr₁, tr₂, w₁, hquiet, hthrow, rfl⟩ := runs_bind h
  obtain ⟨r', tr₃, tr₄, w₂, hrecord, hret, rfl⟩ := runs_bind hquiet
  obtain ⟨rfl, rfl, rfl⟩ := runs_ret.mp hret
  obtain ⟨rfl, rfl, rfl⟩ := runs_ret.mp hthrow
  refine ⟨rfl, r', ?_⟩
  rwa [List.append_nil, List.append_nil]

/-- What is left when the bytes are there. -/
lemma verified_ends {output : StrategyOutput} {x : B × ℕ} {r₁ : Except PhaseError (Option HookResult)}
    (hproduced : Produced eng cfg inp n w tr₁ output x w₁)
    (h : Runs (ρ := Except PhaseError (Option HookResult)) perform
      (runVerify cfg inp n output x.2 x.1) w₁ tr₂ r₁ w') :
    (∃ verify, r₁ = .ok verify) ∨
      ∃ e, r₁ = .error e ∧ Ends eng cfg inp n w (tr₁ ++ tr₂) (.error e) w' := by
  unfold runVerify at h
  split at h
  · obtain ⟨_, rfl, _⟩ := runs_ret.mp h
    exact Or.inl ⟨none, rfl⟩
  next hjudged =>
  split at h
  · next e hmissing =>
    obtain ⟨rfl, rfl, rfl⟩ := runs_ret.mp h
    refine Or.inr ⟨e, rfl, ?_⟩
    rw [List.append_nil]
    exact .unhooked hproduced hjudged hmissing
  · next hhook =>
    rcases runs_exceptBind h with ⟨e, rfl, hcall⟩ | ⟨result, tr₃, tr₄, w₂, hcall, hrest, rfl⟩
    · exact Or.inr ⟨e, rfl, .unanswered hproduced ⟨hjudged, hhook⟩ hcall⟩
    · split at hrest
      · obtain ⟨_, rfl, _⟩ := runs_ret.mp hrest
        exact Or.inl ⟨_, rfl⟩
      · next hrejected =>
        obtain ⟨rfl, r', hrecord⟩ := failWith_run hrest
        refine Or.inr ⟨_, rfl, ?_⟩
        rw [← List.append_assoc]
        exact .failed (.verdict hproduced ⟨hjudged, hhook⟩ hcall hrejected) hrecord

/-- What is left when every attempt is marked. -/
lemma marked_ends {output : StrategyOutput}
    {r₁ : Except PhaseError (StrategyOutput × Option HookResult × B × ℕ)}
    (hmarked : Marked eng cfg inp n w tr₁ output w₁)
    (h : Runs (ρ := Except PhaseError (StrategyOutput × Option HookResult × B × ℕ)) perform
      (do
        let (bytes, selected) ← runCanonical eng cfg inp n output
        let verify ← runVerify cfg inp n output selected bytes
        pure (output, verify, bytes, n + selected) : Run B PhaseError _) w₁ tr₂ r₁ w') :
    (∃ verify x, r₁ = .ok (output, verify, x.1, n + x.2) ∧
        Accepted eng cfg inp n w (tr₁ ++ tr₂) output verify x w') ∨
      ∃ e, r₁ = .error e ∧ Ends eng cfg inp n w (tr₁ ++ tr₂) (.error e) w' := by
  obtain ⟨first, tr₃, tr₄, w₂, hfirst, hrest, rfl⟩ := runs_bind h
  obtain ⟨second, tr₅, tr₆, w₃, hattempt, hchosen, rfl⟩ := runs_bind hfirst
  obtain ⟨canonical, tr₇, tr₈, w₄, hcanonical, hret, rfl⟩ := runs_bind hattempt
  obtain ⟨rfl, rfl, rfl⟩ := runs_ret.mp hret
  rw [List.append_nil]
  cases canonical with
  | error e =>
      obtain ⟨rfl, r', hrecord⟩ := failWith_run hchosen
      obtain ⟨rfl, rfl, rfl⟩ := runs_ret.mp hrest
      refine Or.inr ⟨e, rfl, ?_⟩
      rw [List.append_nil, ← List.append_assoc]
      exact .failed (.canonical hmarked hcanonical) hrecord
  | ok x =>
      obtain ⟨rfl, rfl, rfl⟩ := runs_ret.mp hchosen
      have hproduced : Produced eng cfg inp n w (tr₁ ++ tr₇) output x w₄ :=
        ⟨tr₁, tr₇, w₁, hmarked, hcanonical, rfl⟩
      rw [List.append_nil, ← List.append_assoc]
      obtain ⟨verified, tr₉, tr₁₀, w₅, hverify, hlast, rfl⟩ := runs_bind hrest
      rcases verified_ends hproduced hverify with ⟨verify, rfl⟩ | ⟨e, rfl, hends⟩
      · obtain ⟨rfl, rfl, rfl⟩ := runs_ret.mp hlast
        refine Or.inl ⟨verify, x, rfl, tr₁ ++ tr₇, tr₉, w₄, hproduced, hverify, ?_⟩
        rw [List.append_nil]
      · obtain ⟨rfl, rfl, rfl⟩ := runs_ret.mp hlast
        refine Or.inr ⟨e, rfl, ?_⟩
        rwa [List.append_nil]

/-- What is left when the first attempt is marked. -/
lemma started_ends {r₁ : Except PhaseError (StrategyOutput × Option HookResult × B × ℕ)}
    (hstarted : Started cfg inp n w tr₁ w₁)
    (h : Runs (ρ := Except PhaseError (StrategyOutput × Option HookResult × B × ℕ)) perform
      (do
        let strategy ← dispatched (resolveStrategy cfg inp.verify)
        let output ← runStrategy eng cfg inp n strategy
        startAttempts cfg inp n (furtherAttempts output)
        let (bytes, selected) ← runCanonical eng cfg inp n output
        let verify ← runVerify cfg inp n output selected bytes
        pure (output, verify, bytes, n + selected) : Run B PhaseError _) w₁ tr₂ r₁ w') :
    (∃ output verify x, r₁ = .ok (output, verify, x.1, n + x.2) ∧
        Accepted eng cfg inp n w (tr₁ ++ tr₂) output verify x w') ∨
      ∃ e, r₁ = .error e ∧ Ends eng cfg inp n w (tr₁ ++ tr₂) (.error e) w' := by
  cases hstrategy : resolveStrategy cfg inp.verify with
  | error e =>
      rw [hstrategy] at h
      obtain ⟨rfl, rfl, rfl⟩ := runs_ret.mp h
      refine Or.inr ⟨_, rfl, ?_⟩
      rw [List.append_nil]
      exact .unresolved hstarted hstrategy
  | ok strategy =>
      rw [hstrategy] at h
      obtain ⟨first, tr₃, tr₄, w₂, hfirst, hrest, rfl⟩ := runs_bind h
      obtain ⟨rfl, rfl, rfl⟩ := runs_ret.mp hfirst
      obtain ⟨second, tr₅, tr₆, w₃, hrun, hnext, rfl⟩ := runs_bind hrest
      obtain ⟨third, tr₇, tr₈, w₄, hattempt, hchosen, rfl⟩ := runs_bind hrun
      obtain ⟨executed, tr₉, tr₁₀, w₅, hexecute, hret, rfl⟩ := runs_bind hattempt
      obtain ⟨rfl, rfl, rfl⟩ := runs_ret.mp hret
      rw [List.append_nil, List.nil_append]
      cases executed with
      | error e =>
          obtain ⟨rfl, r', hrecord⟩ := failWith_run hchosen
          obtain ⟨rfl, rfl, rfl⟩ := runs_ret.mp hnext
          refine Or.inr ⟨_, rfl, ?_⟩
          rw [List.append_nil, ← List.append_assoc]
          exact .failed (.strategy hstarted hstrategy hexecute) hrecord
      | ok output =>
          obtain ⟨rfl, rfl, rfl⟩ := runs_ret.mp hchosen
          have hexecuted : Executed eng cfg inp n w (tr₁ ++ tr₉) output w₅ :=
            ⟨strategy, tr₁, tr₉, w₁, hstarted, hstrategy, hexecute, rfl⟩
          rw [List.append_nil, ← List.append_assoc]
          rcases runs_exceptBind hnext with ⟨e, rfl, hmarks⟩ |
            ⟨_, tr₁₁, tr₁₂, w₆, hmarks, hlast, rfl⟩
          · exact Or.inr ⟨e, rfl, .unmarked hexecuted hmarks⟩
          · have hmarked : Marked eng cfg inp n w (tr₁ ++ tr₉ ++ tr₁₁) output w₆ :=
              ⟨tr₁ ++ tr₉, tr₁₁, w₅, hexecuted, hmarks, rfl⟩
            rw [← List.append_assoc]
            rcases marked_ends hmarked hlast with ⟨verify, x, hx⟩ | hends
            · exact Or.inl ⟨output, verify, x, hx⟩
            · exact Or.inr hends

/-- Every run ends in one of the stages. -/
theorem run_ends (h : Runs (ρ := Except PhaseError PhaseOutcome) perform
    (PhaseRunner.run eng cfg inp n) w tr r w') : Ends eng cfg inp n w tr r w' := by
  obtain ⟨first, tr₁, tr₂, w₁, hattempt, hcommit, rfl⟩ := runs_bind h
  have hprepared : (∃ output verify x, first = .ok (output, verify, x.1, n + x.2) ∧
        Accepted eng cfg inp n w tr₁ output verify x w₁) ∨
      ∃ e, first = .error e ∧ Ends eng cfg inp n w tr₁ (.error e) w₁ := by
    cases hvalid : validateConfig cfg with
    | error e =>
        unfold attemptPhase at hattempt
        rw [hvalid] at hattempt
        obtain ⟨rfl, rfl, rfl⟩ := runs_ret.mp hattempt
        exact Or.inr ⟨_, rfl, .invalid hvalid⟩
    | ok u =>
        unfold attemptPhase at hattempt
        rw [hvalid] at hattempt
        obtain ⟨second, tr₃, tr₄, w₂, hfirst, hrest, rfl⟩ := runs_bind hattempt
        obtain ⟨rfl, rfl, rfl⟩ := runs_ret.mp hfirst
        rw [List.nil_append]
        rcases runs_exceptBind hrest with ⟨e, rfl, hstart⟩ | ⟨_, tr₅, tr₆, w₃, hstart, hnext, rfl⟩
        · exact Or.inr ⟨e, rfl, .unstarted hvalid hstart⟩
        · exact started_ends ⟨hvalid, hstart⟩ hnext
  rcases hprepared with ⟨output, verify, x, rfl, haccepted⟩ | ⟨e, rfl, hends⟩
  · exact .committed haccepted hcommit
  · obtain ⟨rfl, rfl, rfl⟩ := runs_ret.mp hcommit
    rwa [List.append_nil]

end Ending

end Loker.RunStages
