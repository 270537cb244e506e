import Loker.CrashHistories
import Loker.FailureEnvelope
import Loker.SecretPatterns

/-! The run of a ladder of backends: which rungs are called with which prompts, and what is
recorded and returned. -/

namespace Loker.Ladder

open FailureEnvelope FileTree Programs RunFiles RunLoad RunOps Dispatch Strategies PhaseRunner
open SpecFiles (CharTables)

section Engines

variable (tables : CharTables) (isWord : Char → Bool)

/-- The strategies' text functions with the failure envelope and the redaction; the cuts never fall
inside a character, so the defaults are not taken. -/
def withEnvelope (eng : Engines) : Engines :=
  { eng with
    redactSecrets := SecretPatterns.redactSecrets isWord
    truncateExcerpt := fun s maxBytes => (FailureEnvelope.truncateExcerpt s maxBytes).getD s
    buildFailureEnvelope := fun ctx body =>
      (FailureEnvelope.buildFailureEnvelope tables ctx body).getD body }

/-- The prompt is the redaction of a text that tells of the failure and fits its cap; a reason of at
most 1024 bytes is told whole with the excerpt when there is room for both. -/
def Carries (failure : FailureContext) (rendered prompt : String) : Prop :=
  ∃ text, prompt = SecretPatterns.redactSecrets isWord text ∧ len text ≤ maxFailureContextBytes ∧
    Tells tables failure rendered text ∧
    (len (failure.verifyReason.getD "") ≤ 1024 →
      len (envelope tables failure rendered (failure.verifyReason.getD "")
        (failure.responseExcerpt.getD "")) ≤ maxFailureContextBytes →
      text = envelope tables failure rendered (failure.verifyReason.getD "")
        (failure.responseExcerpt.getD ""))

variable {tables isWord}

lemma carries_envelope (eng : Engines) {failure : FailureContext} (rendered : String)
    (hexcerpt : len (failure.responseExcerpt.getD "") ≤ maxResponseExcerptBytes) :
    Carries tables isWord failure rendered ((withEnvelope tables isWord eng).redactSecrets
      ((withEnvelope tables isWord eng).buildFailureEnvelope failure rendered)) := by
  obtain ⟨text, htext, hlen, htells⟩ := buildFailureEnvelope_spec tables failure rendered
  refine ⟨text, ?_, hlen, htells, fun hreason hfits => ?_⟩
  · simp only [withEnvelope, htext, Option.getD_some]
  · rw [buildFailureEnvelope_whole hreason hexcerpt hfits] at htext
    exact (Option.some.inj htext).symm

end Engines

section Calls

/-- What comes of the call of a rung: the backend fails, or its output goes to the hook. -/
inductive RungAnswer where
  | backendFailed (e : BackendError)
  | judged (stdout : String) (verdict : Except String HookResult)
  deriving DecidableEq, Repr

structure RungCall where
  rung : PhaseRung
  prompt : String
  answer : RungAnswer
  deriving DecidableEq, Repr

def RungCall.passed (call : RungCall) : Prop := ∃ stdout, call.answer = .judged stdout (.ok .pass)

/-- Why the hook let an output not pass. -/
def verdictReason : Except String HookResult → String
  | .ok (.fail summary) => summary
  | .ok _ => "verify did not pass"
  | .error message => message

variable (eng : Engines) (inp : PhaseInputs) (hook : String) (passFailureContext : Bool)

/-- The failure that a call leaves for the next rung. -/
def failureOf (call : RungCall) : FailureContext :=
  match call.answer with
  | .backendFailed e => fromBackendError eng call.rung.tier call.rung.backend e
  | .judged stdout verdict =>
      fromVerifyFail eng call.rung.tier call.rung.backend (verdictReason verdict) stdout

/-- The prompt after a call, or the first one. -/
def promptAfter (rendered : String) : Option RungCall → String
  | none => rendered
  | some call =>
      if passFailureContext then
        eng.redactSecrets (eng.buildFailureEnvelope (failureOf eng call) rendered)
      else rendered

def verifyOutcome : Except String HookResult → VerifyOutcome
  | .ok .pass => .passed hook
  | _ => .failed hook

/-- The attempt recorded of a call at an index. -/
def attemptOf (x : RungCall × ℕ) : Attempt :=
  let outputPath := rungOutput inp.phaseName x.2 x.1.rung.tier
  match x.1.answer with
  | .backendFailed _ => ⟨some x.1.rung.tier, x.1.rung.backend, .error, outputPath, .skipped⟩
  | .judged _ verdict =>
      ⟨some x.1.rung.tier, x.1.rung.backend, .stop, outputPath, verifyOutcome hook verdict⟩

variable {B : Type} [RunFormat B]

def rungPath (idx : ℕ) (rung : PhaseRung) : Path :=
  join inp.runDir (rungOutput inp.phaseName idx rung.tier)

/-- The operations of a call at an index. -/
def events (x : RungCall × ℕ) : List (Event (RunSig B)) :=
  let q : Query := ⟨x.2, x.1.rung.backend, x.1.prompt, inp.promptModel⟩
  match x.1.answer with
  | .backendFailed e => [⟨.query q, .error e⟩]
  | .judged stdout verdict =>
      [⟨.query q, .ok stdout⟩, ⟨.createDirAll (rungPath inp x.2 x.1.rung).dropLast, .ok ()⟩,
        ⟨.writeFile (rungPath inp x.2 x.1.rung) (RunFormat.ofText stdout), .ok ()⟩,
        ⟨.verify stdout, verdict⟩]

/-- The file operations succeed. -/
def WritesHold : (o : Op B) → Answer B o → Prop
  | .createDirAll _, a => a = .ok ()
  | .writeFile _ _, a => a = .ok ()
  | _, _ => True

/-- Backends and hook answer in any way. -/
def writing : Semantics (RunSig B) (World B) := fun o w a w' => perform o w a w' ∧ WritesHold o a

end Calls

section Law

variable {B : Type} [RunFormat B] {eng : Engines} {inp : PhaseInputs} {hook : String}
  {passFailureContext : Bool} {w w' : World B} {tr : List (Event (RunSig B))}

lemma writeOutput_run {name text parentFailure failure : String} {r : Except StrategyError Unit}
    (h : Runs (ρ := Except StrategyError Unit) writing
      (writeOutput inp name text parentFailure failure) w tr r w') :
    r = .ok () ∧ tr = [⟨.createDirAll (join inp.runDir name).dropLast, .ok ()⟩,
        ⟨.writeFile (join inp.runDir name) (RunFormat.ofText text), .ok ()⟩] ∧
      fileAt w'.disk (join inp.runDir name) = some (RunFormat.ofText text) := by
  obtain ⟨a, w₁, tr₁, ⟨_, rfl⟩, hrest, rfl⟩ := runs_op h
  obtain ⟨a, w₂, tr₂, ⟨hwrite, rfl⟩, hlast, rfl⟩ := runs_op hrest
  obtain ⟨rfl, hr, rfl⟩ := runs_ret.mp hlast
  rcases hwrite with ⟨t, hwrite, rfl, _⟩ | ⟨_, message, he⟩
  · exact ⟨hr.symm, rfl, writeFile_self hwrite⟩
  · cases he

lemma rungAnswered_run {idx : ℕ} {rung : PhaseRung} {stdout : String}
    {r : Except StrategyError RungEnd}
    (h : Runs (ρ := Except StrategyError RungEnd) writing
      (rungAnswered eng inp hook rung (rungOutput inp.phaseName idx rung.tier) stdout) w tr r w') :
    ∃ verdict, r = .ok (judgeRung eng hook rung stdout verdict) ∧
      tr = [⟨.createDirAll (rungPath inp idx rung).dropLast, .ok ()⟩,
        ⟨.writeFile (rungPath inp idx rung) (RunFormat.ofText stdout), .ok ()⟩,
        ⟨.verify stdout, verdict⟩] ∧
      fileAt w'.disk (rungPath inp idx rung) = some (RunFormat.ofText stdout) := by
  rcases runs_exceptBind h with ⟨e, rfl, hwrite⟩ | ⟨_, tr₁, tr₂, w₁, hwrite, hverify, rfl⟩
  · exact absurd (writeOutput_run hwrite).1 nofun
  · obtain ⟨_, rfl, hfile⟩ := writeOutput_run hwrite
    obtain ⟨verdict, w₂, tr₃, ⟨hsame, _⟩, hret, rfl⟩ := runs_op hverify
    obtain rfl : w₂ = w₁ := hsame
    obtain ⟨rfl, rfl, rfl⟩ := runs_ret.mp hret
    exact ⟨verdict, rfl, rfl, hfile⟩

/-- A verdict that is no pass leaves the attempt and the failure of the call. -/
lemma judgeRung_cases (eng : Engines) (hook : String) (rung : PhaseRung) (stdout : String)
    (verdict : Except String HookResult) :
    (verdict = .ok .pass ∧ judgeRung eng hook rung stdout verdict = .passed) ∨
      verdict ≠ .ok .pass ∧ judgeRung eng hook rung stdout verdict =
        .failed (verifyOutcome hook verdict)
          (fromVerifyFail eng rung.tier rung.backend (verdictReason verdict) stdout) := by
  cases verdict with
  | error message => exact Or.inr ⟨nofun, rfl⟩
  | ok result =>
      cases result with
      | pass => exact Or.inl ⟨rfl, rfl⟩
      | fail summary => exact Or.inr ⟨nofun, rfl⟩
      | undecided => exact Or.inr ⟨nofun, rfl⟩

/-- Each call has the prompt that the call before it leaves. -/
def Prompted (eng : Engines) (passFailureContext : Bool) (rendered : String)
    (before : Option RungCall) (calls : List RungCall) : Prop :=
  ∀ init call rest, calls = init ++ call :: rest →
    call.prompt = promptAfter eng passFailureContext rendered (init.getLast?.or before)

lemma prompted_nil {rendered : String} {before : Option RungCall} :
    Prompted eng passFailureContext rendered before [] := by
  intro init call rest hsplit
  exact absurd hsplit (by simp)

lemma Prompted.cons {rendered : String} {before : Option RungCall} {call : RungCall}
    {calls : List RungCall}
    (hcall : call.prompt = promptAfter eng passFailureContext rendered before)
    (h : Prompted eng passFailureContext rendered (some call) calls) :
    Prompted eng passFailureContext rendered before (call :: calls) := by
  intro init call' rest hsplit
  cases init with
  | nil =>
      obtain ⟨rfl, _⟩ := List.cons.inj hsplit
      exact hcall
  | cons first init =>
      obtain ⟨rfl, hrest⟩ := List.cons.inj hsplit
      have hprompt := h init call' rest hrest
      rw [List.getLast?_cons]
      cases hlast : init.getLast? with
      | none =>
          rw [hlast] at hprompt
          exact hprompt
      | some last =>
          rw [hlast] at hprompt
          exact hprompt

/-- The ladder ends at the first rung that passes, with its output in its file, or after all rungs
with none. -/
def Ended (inp : PhaseInputs) (hook : String) (idx : ℕ) (rungs : List PhaseRung)
    (attempts : List Attempt) (calls : List RungCall) (r : Except StrategyError StrategyOutput)
    (w : World B) : Prop :=
  let recorded := attempts ++ (calls.zipIdx idx).map (attemptOf inp hook)
  (∃ init last stdout, calls = init ++ [last] ∧ last.answer = .judged stdout (.ok .pass) ∧
      (∀ call ∈ init, ¬ call.passed) ∧ r = .ok (ladderOutput inp recorded .succeeded) ∧
      fileAt w.disk (rungPath inp (idx + init.length) last.rung) =
        some (RunFormat.ofText stdout)) ∨
    calls.map RungCall.rung = rungs ∧ (∀ call ∈ calls, ¬ call.passed) ∧
      r = .error (.exhausted (ladderOutput inp recorded .exhausted))

lemma Ended.cons {idx : ℕ} {rung : PhaseRung} {rungs : List PhaseRung} {attempts : List Attempt}
    {call : RungCall} {calls : List RungCall} {r : Except StrategyError StrategyOutput}
    (hrung : call.rung = rung) (hfailed : ¬ call.passed)
    (h : Ended inp hook (idx + 1) rungs (attempts ++ [attemptOf inp hook (call, idx)]) calls r w) :
    Ended inp hook idx (rung :: rungs) attempts (call :: calls) r w := by
  have hrecorded : attempts ++ ((call :: calls).zipIdx idx).map (attemptOf inp hook) =
      attempts ++ [attemptOf inp hook (call, idx)] ++
        (calls.zipIdx (idx + 1)).map (attemptOf inp hook) := by
    rw [List.zipIdx_cons, List.map_cons, List.append_assoc, List.singleton_append]
  rcases h with ⟨init, last, stdout, rfl, hlast, hinit, hr, hfile⟩ | ⟨hall, hnone, hr⟩
  · left
    refine ⟨call :: init, last, stdout, rfl, hlast, ?_, ?_, ?_⟩
    · exact List.forall_mem_cons.mpr ⟨hfailed, hinit⟩
    · rw [hr, hrecorded]
    · rw [List.length_cons, Nat.add_comm init.length 1, ← Nat.add_assoc]
      exact hfile
  · right
    refine ⟨?_, ?_, ?_⟩
    · rw [List.map_cons, hrung, hall]
    · exact List.forall_mem_cons.mpr ⟨hfailed, hnone⟩
    · rw [hr, hrecorded]

lemma Ended.exhausted_iff {idx : ℕ} {rungs : List PhaseRung} {attempts : List Attempt}
    {calls : List RungCall} {r : Except StrategyError StrategyOutput}
    (h : Ended inp hook idx rungs attempts calls r w) :
    (∃ output, r = .error (.exhausted output)) ↔ ∀ call ∈ calls, ¬ call.passed := by
  rcases h with ⟨init, last, stdout, rfl, hlast, _, rfl, _⟩ | ⟨_, hnone, rfl⟩
  · constructor
    · rintro ⟨output, hr⟩
      cases hr
    · intro hnone
      exact absurd ⟨stdout, hlast⟩ (hnone last (by simp))
  · exact ⟨fun _ => hnone, fun _ => ⟨_, rfl⟩⟩

/-- Only the failure of the last call is carried on. -/
lemma rungPrompt_next {rendered : String} {idx : ℕ} {failure : FailureContext} (call : RungCall)
    (h : failure = failureOf eng call) :
    rungPrompt eng passFailureContext rendered (idx + 1)
      (if passFailureContext then some failure else none) =
      promptAfter eng passFailureContext rendered (some call) := by
  subst h
  cases passFailureContext with
  | true => simp [rungPrompt, promptAfter]
  | false => simp [rungPrompt, promptAfter]

/-- Induction on the rungs that are left; `before` is the call whose failure is carried. -/
lemma climb_run {rendered : String} {idx : ℕ} {rungs : List PhaseRung} {attempts : List Attempt}
    {previous : Option FailureContext} {before : Option RungCall}
    {r : Except StrategyError StrategyOutput}
    (hpresent : ∀ rung ∈ rungs, rung.backend ∈ inp.backends)
    (hbefore : rungPrompt eng passFailureContext rendered idx previous =
      promptAfter eng passFailureContext rendered before)
    (h : Runs (ρ := Except StrategyError StrategyOutput) writing
      (climb eng inp hook passFailureContext rendered idx rungs attempts previous) w tr r w') :
    ∃ calls, tr = (calls.zipIdx idx).flatMap (events inp) ∧
      calls.map RungCall.rung <+: rungs ∧
      Prompted eng passFailureContext rendered before calls ∧
      Ended inp hook idx rungs attempts calls r w' := by
  induction rungs generalizing idx attempts previous before w tr with
  | nil =>
      obtain ⟨rfl, rfl, rfl⟩ := runs_ret.mp h
      refine ⟨[], rfl, List.nil_prefix, prompted_nil, Or.inr ⟨rfl, nofun, ?_⟩⟩
      simp
  | cons rung rungs ih =>
      have hrest : ∀ rung' ∈ rungs, rung'.backend ∈ inp.backends :=
        fun rung' hrung' => hpresent rung' (List.mem_cons_of_mem _ hrung')
      rw [climb, findBackend_present inp (hpresent rung List.mem_cons_self), hbefore] at h
      obtain ⟨answer, w₁, tr₁, ⟨hsame, _⟩, hafter, rfl⟩ := runs_op h
      obtain rfl : w₁ = w := hsame
      cases hanswer : (show Except BackendError String from answer) with
      | error err =>
          subst hanswer
          let call : RungCall :=
            ⟨rung, promptAfter eng passFailureContext rendered before, .backendFailed err⟩
          have hfailed : ¬ call.passed := fun ⟨_, hpass⟩ => absurd hpass nofun
          obtain ⟨calls, rfl, hcalls, hprompted, hended⟩ :=
            ih hrest (rungPrompt_next call rfl) hafter
          refine ⟨call :: calls, ?_, ?_, hprompted.cons rfl, hended.cons rfl hfailed⟩
          · rw [List.zipIdx_cons, List.flatMap_cons]
            rfl
          · rw [List.map_cons, List.prefix_cons_inj]
            exact hcalls
      | ok stdout =>
          subst hanswer
          rcases runs_exceptBind hafter with ⟨e, _, hwrite⟩ | ⟨_, tr₂, tr₃, w₂, hwrite, hend, rfl⟩
          · obtain ⟨verdict, hr, _⟩ := rungAnswered_run hwrite
            cases hr
          · obtain ⟨verdict, hr, rfl, hfile⟩ := rungAnswered_run hwrite
            cases hr
            let call : RungCall :=
              ⟨rung, promptAfter eng passFailureContext rendered before, .judged stdout verdict⟩
            rcases judgeRung_cases eng hook rung stdout verdict with ⟨rfl, hpass⟩ | ⟨hno, hfail⟩
            · rw [hpass] at hend
              obtain ⟨rfl, rfl, rfl⟩ := runs_ret.mp hend
              refine ⟨[call], rfl, ?_, Prompted.cons rfl prompted_nil, Or.inl ?_⟩
              · rw [List.map_singleton]
                exact ⟨rungs, rfl⟩
              · exact ⟨[], call, stdout, rfl, rfl, nofun, rfl, hfile⟩
            · rw [hfail] at hend
              have hfailed : ¬ call.passed := by
                rintro ⟨stdout', hpass⟩
                obtain ⟨_, hverdict⟩ := RungAnswer.judged.inj hpass
                exact hno hverdict
              obtain ⟨calls, rfl, hcalls, hprompted, hended⟩ :=
                ih hrest (rungPrompt_next call rfl) hend
              refine ⟨call :: calls, ?_, ?_, hprompted.cons rfl, hended.cons rfl hfailed⟩
              · rw [List.zipIdx_cons, List.flatMap_cons]
                rfl
              · rw [List.map_cons, List.prefix_cons_inj]
                exact hcalls

/-- The rungs are called in order, up to the first one that passes, each with the prompt that the call
before it leaves. -/
lemma escalatingRetry_run {rungs : List PhaseRung} {template : String}
    {r : Except StrategyError StrategyOutput} (hne : rungs ≠ [])
    (hpresent : ∀ rung ∈ rungs, rung.backend ∈ inp.backends)
    (hrun : Runs (ρ := Except StrategyError StrategyOutput) writing
      (escalatingRetry eng inp hook passFailureContext rungs template) w tr r w') :
    (∀ e, eng.template template = .error e → tr = [] ∧ r = .error (.promptRender e)) ∧
    ∀ rendered, eng.template template = .ok rendered → ∃ calls,
      tr = calls.zipIdx.flatMap (events inp) ∧
      calls.map RungCall.rung <+: rungs ∧
      (∀ init call rest, calls = init ++ call :: rest →
        call.prompt = promptAfter eng passFailureContext rendered init.getLast?) ∧
      Ended inp hook 0 rungs [] calls r w' ∧
      ((∃ output, r = .error (.exhausted output)) ↔ ∀ call ∈ calls, ¬ call.passed) := by
  have hbackends : ¬ (rungs = [] ∨ inp.backends = []) := by
    rintro (hnil | hnil)
    · exact hne hnil
    · obtain ⟨rung, rest, rfl⟩ := List.exists_cons_of_ne_nil hne
      have hmem := hpresent rung List.mem_cons_self
      rw [hnil] at hmem
      cases hmem
  rw [escalatingRetry, if_neg hbackends] at hrun
  constructor
  · intro e hrender
    rw [renderPrompt, hrender] at hrun
    obtain ⟨rfl, hr, _⟩ := runs_ret.mp hrun
    exact ⟨rfl, hr.symm⟩
  · intro rendered hrender
    rw [renderPrompt, hrender] at hrun
    have hfirst : rungPrompt eng passFailureContext rendered 0 none =
        promptAfter eng passFailureContext rendered none := rfl
    obtain ⟨calls, htr, hcalls, hprompted, hended⟩ := climb_run hpresent hfirst hrun
    refine ⟨calls, htr, hcalls, fun init call rest hsplit => ?_, hended, hended.exhausted_iff⟩
    have hprompt := hprompted init call rest hsplit
    rw [Option.or_none] at hprompt
    exact hprompt

lemma failureOf_excerpt (tables : CharTables) (isWord : Char → Bool) (eng : Engines) (call : RungCall) :
    len ((failureOf (withEnvelope tables isWord eng) call).responseExcerpt.getD "") ≤
      maxResponseExcerptBytes := by
  unfold failureOf
  split
  · exact Nat.zero_le _
  · next stdout verdict hanswer =>
    obtain ⟨excerpt, hexcerpt, hlen, -⟩ := truncateExcerpt_spec
      (SecretPatterns.redactSecrets isWord stdout) maxResponseExcerptBytes
    simp only [fromVerifyFail, withEnvelope, hexcerpt, Option.getD_some]
    exact hlen

end Law

section TwoRungs

open CrashHistories

def twoRungs : List PhaseRung := [⟨.cheap, "ollama"⟩, ⟨.strong, "claude"⟩]

def ladderInputs : PhaseInputs := ⟨["ollama", "claude"], none, "design", none, ["run"], "r1"⟩

/-- The first rung cannot be reached and the second one passes. -/
def ladderScript : Script where
  answer q := if q.index = 0 then .error (.network "down") else .ok "fine"
  verdict _ := .ok .pass

def asciiTables : CharTables where
  isPrintable c := 32 ≤ c.toNat && c.toNat < 127
  isGraphemeExtended _ := false
  not_control c h := by
    simp only [Bool.and_eq_true, decide_eq_true_eq] at h
    simp only [TomlText.isControl, Bool.or_eq_false_iff, Bool.and_eq_false_iff,
      decide_eq_false_iff_not]
    omega

def asciiWord (c : Char) : Bool := c.isAlphanum || c = '_'

def ladderEngines : Engines := withEnvelope asciiTables asciiWord plainEngines

def twoRungLadder : Run Doc StrategyError StrategyOutput :=
  escalatingRetry ladderEngines ladderInputs "check" true twoRungs "Go"

def climbed : List (Event (RunSig Doc)) ×
    Prog (RunSig Doc) (Except StrategyError StrategyOutput) × World Doc :=
  evalFor (handle ladderScript) 5 twoRungLadder newRun

def climbedOutput : StrategyOutput :=
  ladderOutput ladderInputs
    [⟨some .cheap, "ollama", .error, rungOutput "design" 0 .cheap, .skipped⟩,
      ⟨some .strong, "claude", .stop, rungOutput "design" 1 .strong, .passed "check"⟩] .succeeded

/-- The hook lets neither rung pass. -/
def failingScript (reason : String) : Script where
  answer _ := .ok "one"
  verdict _ := .ok (.fail reason)

/-- The two calls of the ladder when the hook fails both. -/
def failedCalls (eng : Engines) (rendered reason : String) : List RungCall :=
  let first : RungCall := ⟨⟨.cheap, "ollama"⟩, rendered, .judged "one" (.ok (.fail reason))⟩
  [first, ⟨⟨.strong, "claude"⟩, promptAfter eng true rendered (some first),
    .judged "one" (.ok (.fail reason))⟩]

lemma exists_failed_run (eng : Engines) (reason : String) {template rendered : String}
    (h : eng.template template = .ok rendered) : ∃ r w,
      Runs (ρ := Except StrategyError StrategyOutput) writing
        (escalatingRetry eng ladderInputs "check" true twoRungs template) newRun
        ((failedCalls eng rendered reason).zipIdx.flatMap (events (B := Doc) ladderInputs)) r w := by
  rw [escalatingRetry, if_neg (by decide), renderPrompt, h]
  have hadmits : Admits (fun o s => writing o s (handle (failingScript reason) o s).1
      (handle (failingScript reason) o s).2) (handle (failingScript reason)) 9
      (climb eng ladderInputs "check" true rendered 0 twoRungs [] none : Run Doc _ _) newRun :=
    ⟨⟨handle_performs _ _ _, trivial⟩, ⟨handle_performs _ _ _, rfl⟩,
      ⟨handle_performs _ _ _, rfl⟩, ⟨handle_performs _ _ _, trivial⟩,
      ⟨handle_performs _ _ _, trivial⟩, ⟨handle_performs _ _ _, rfl⟩,
      ⟨handle_performs _ _ _, rfl⟩, ⟨handle_performs _ _ _, trivial⟩, trivial⟩
  exact ⟨_, _, evalFor_steps_of_admits hadmits⟩

/-- A prompt over the cap of the envelope. -/
def longPrompt : String := String.ofList (List.replicate 8193 'x')

lemma len_replicate (n : ℕ) : len (String.ofList (List.replicate n 'x')) = n := by
  rw [len, String.toList_ofList]
  induction n with
  | zero => rfl
  | succ n ih =>
      rw [List.replicate_succ, ByteSlices.byteLen_cons, ih, Nat.add_comm]
      rfl

/-- After different failures with the same backend the next prompt is the same, when the rendered
prompt leaves no room for them. -/
lemma promptAfter_long (reason reason' : String) :
    (failedCalls ladderEngines longPrompt reason).map RungCall.prompt =
      (failedCalls ladderEngines longPrompt reason').map RungCall.prompt := by
  have hover : maxFailureContextBytes < len longPrompt := by
    have hlen : len longPrompt = 8193 := len_replicate 8193
    have hcap : maxFailureContextBytes = 8192 := rfl
    omega
  have hsame : ∀ reason, ladderEngines.buildFailureEnvelope
      (fromVerifyFail ladderEngines .cheap "ollama" reason "one") longPrompt =
      ladderEngines.buildFailureEnvelope
        (fromVerifyFail ladderEngines .cheap "ollama" "" "one") longPrompt := by
    intro reason
    simp only [ladderEngines, withEnvelope, buildFailureEnvelope_over hover]
    rfl
  simp only [failedCalls, promptAfter, failureOf, verdictReason, List.map_cons, hsame]

end TwoRungs

end Loker.Ladder
