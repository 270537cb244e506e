import Loker.PromptDelivery
import Loker.CrashHistories

/-! The backends and models that a phase's strategy calls, against those its list names. -/

namespace Loker.CalledBackends

open TextOps FileTree Programs RunFiles RunLoad RunOps Dispatch PhaseBridge Strategies

section Named

/-- The scheme and the model that an entry of a backends list names. -/
def named (raw : String) : String × Option String :=
  match splitOnce raw '/' with
  | none => (raw, none)
  | some (scheme, model) => (scheme, if model = "" then none else some model)

lemma takeBefore_slash (cs : List Char) :
    takeBefore ['/'] cs = cs.takeWhile (· ≠ '/') := by
  induction cs with
  | nil => rfl
  | cons c cs ih =>
      rw [takeBefore, List.takeWhile_cons, ih]
      by_cases hc : c = '/'
      · simp [hc]
      · have hne : '/' ≠ c := fun h => hc h.symm
        simp [hc, hne]

/-- Slashes at the end do not change what is before the first one. -/
lemma takeWhile_trimEnd (cs : List Char) :
    (cs.reverse.dropWhile (· = '/')).reverse.takeWhile (· ≠ '/') = cs.takeWhile (· ≠ '/') := by
  induction cs using List.reverseRecOn with
  | nil => rfl
  | append_singleton cs c ih =>
      rw [List.reverse_append, List.reverse_singleton, List.singleton_append]
      by_cases hc : c = '/'
      · subst hc
        rw [List.dropWhile_cons_of_pos (by simp), ih, List.takeWhile_append]
        split
        · next hlength =>
          rw [List.takeWhile_cons_of_neg (by simp), List.append_nil]
          exact (List.takeWhile_prefix _).eq_of_length hlength
        · rfl
      · rw [List.dropWhile_cons_of_neg (by simpa using hc), List.reverse_cons, List.reverse_reverse]

lemma backendScheme_eq (raw : String) :
    backendScheme raw = String.ofList (raw.toList.takeWhile (· ≠ '/')) := by
  unfold backendScheme beforeFirst trimEndSlashes
  rw [show "/".toList = ['/'] from rfl, String.toList_ofList, takeBefore_slash, takeWhile_trimEnd]

/-- The bridge's two helpers read an entry as it is meant. -/
lemma named_eq (raw : String) : named raw = (backendScheme raw, backendModel raw) := by
  have hspan := List.span_eq_takeWhile_dropWhile (· ≠ '/') raw.toList
  rw [backendScheme_eq]
  unfold named backendModel splitOnce
  cases hdrop : raw.toList.dropWhile (· ≠ '/') with
  | nil =>
      have htake : raw.toList.takeWhile (· ≠ '/') = raw.toList := by
        have hboth := List.takeWhile_append_dropWhile (p := (· ≠ '/')) (l := raw.toList)
        rw [hdrop, List.append_nil] at hboth
        exact hboth
      rw [hspan, hdrop, htake, String.ofList_toList]
      rfl
  | cons c cs =>
      rw [hspan, hdrop]
      simp only [Option.map_some, Prod.mk.injEq, true_and]
      by_cases hempty : String.ofList cs = ""
      · simp [hempty, Option.filter]
      · simp [hempty, Option.filter]

end Named

section Calls

variable {B : Type}

/-- The operation does not ask a backend. -/
def Quiet : Op B → Prop
  | .query _ | .race _ => False
  | _ => True

/-- The queries an operation starts, when some are under way. -/
def startedBy (before : List Query) : Op B → List Query
  | .query q => [q]
  | .race pending => pending.filter (· ∉ before)
  | _ => []

/-- The queries that a run starts, in order; the later races only wait for the same ones. -/
def startedFrom : List Query → List (Event (RunSig B)) → List Query
  | _, [] => []
  | before, e :: tr => startedBy before e.op ++ startedFrom (before ++ startedBy before e.op) tr

/-- The backends and models called in a run. -/
def calls (tr : List (Event (RunSig B))) : List (String × Option String) :=
  (startedFrom [] tr).map fun q => (q.backend, q.model)

/-- Nothing but waiting for these queries. -/
def Waits (queries : List Query) (o : Op B) : Prop :=
  Quiet o ∨ ∃ pending, o = .race pending ∧ pending ⊆ queries

lemma startedBy_waits {queries before : List Query} {o : Op B} (h : Waits queries o)
    (hbefore : queries ⊆ before) : startedBy before o = [] := by
  rcases h with hquiet | ⟨pending, rfl, hpending⟩
  · cases o with
    | query q => exact hquiet.elim
    | race pending => exact hquiet.elim
    | _ => rfl
  · rw [startedBy, List.filter_eq_nil_iff]
    intro q hq
    simpa using hbefore (hpending hq)

lemma startedFrom_waits {queries before : List Query} {tr : List (Event (RunSig B))}
    (h : ∀ e ∈ tr, Waits queries e.op) (hbefore : queries ⊆ before) :
    startedFrom before tr = [] := by
  induction tr generalizing before with
  | nil => rfl
  | cons e tr ih =>
      obtain ⟨hfirst, hrest⟩ := List.forall_mem_cons.mp h
      rw [startedFrom, startedBy_waits hfirst hbefore, List.nil_append, List.append_nil]
      exact ih hrest hbefore

lemma startedFrom_append {before : List Query} {tr₁ tr₂ : List (Event (RunSig B))} :
    startedFrom before (tr₁ ++ tr₂) =
      startedFrom before tr₁ ++ startedFrom (before ++ startedFrom before tr₁) tr₂ := by
  induction tr₁ generalizing before with
  | nil => simp [startedFrom]
  | cons e tr₁ ih => simp [startedFrom, ih]

end Calls

section Strategies

variable {B : Type} [RunFormat B] {eng : Engines} {inp : PhaseInputs}
  {sem : Semantics (RunSig B) (World B)} {w w' : World B} {tr : List (Event (RunSig B))}
  {queries : List Query}

/-- The run has ended with an output. -/
def Finished (rest : Prog (RunSig B) (Except StrategyError StrategyOutput)) : Prop :=
  ∃ output, rest = .ret (.ok output)

lemma writeOutput_waits {name text parentFailure failure : String} : Emits (Waits queries)
    (writeOutput inp name text parentFailure failure : Run B StrategyError Unit) := by
  have hwrites : Emits (StrategyOp inp (fun _ => True) fun _ => False)
      (writeOutput inp name text parentFailure failure : Run B StrategyError Unit) :=
    writeOutput_emits trivial
  refine hwrites.mono fun o ho => ?_
  cases o with
  | query q => exact ho.elim
  | race pending => exact Or.inr ⟨pending, rfl, fun q hq => (ho q hq).elim⟩
  | _ => exact Or.inl trivial

omit [RunFormat B] in
/-- After its first operation a program only waits. -/
lemma calls_of_waits {o : Op B}
    {next : Answer B o → Prog (RunSig B) (Except StrategyError StrategyOutput)}
    {rest : Prog (RunSig B) (Except StrategyError StrategyOutput)}
    (hnext : ∀ a, Emits (Waits (startedBy [] o)) (next a))
    (h : Steps sem (.act o next) w tr rest w') :
    calls tr = (startedBy [] o).map (fun q => (q.backend, q.model)) ∨
      calls tr = [] ∧ ¬ Finished rest := by
  cases h with
  | stop => exact Or.inr ⟨rfl, fun ⟨_, h⟩ => by cases h⟩
  | act first later =>
      left
      rw [calls, startedFrom, List.nil_append,
        startedFrom_waits (later.emits (hnext _)).2 (List.Subset.refl _), List.append_nil]

omit [RunFormat B] in
lemma stopped_calls {e : StrategyError} {rest : Prog (RunSig B) (Except StrategyError StrategyOutput)}
    (h : Steps sem (.ret (.error e)) w tr rest w') : calls tr = [] ∧ ¬ Finished rest := by
  cases h with
  | stop => exact ⟨rfl, fun ⟨_, h⟩ => by cases h⟩

/-- One call, of the named backend with the prompt's model. -/
lemma singleModel_calls {backend template : String}
    {rest : Prog (RunSig B) (Except StrategyError StrategyOutput)}
    (h : Steps (ρ := Except StrategyError StrategyOutput) sem (singleModel eng inp backend template)
      w tr rest w') :
    calls tr = [(backend, inp.promptModel)] ∨ calls tr = [] ∧ ¬ Finished rest := by
  unfold singleModel at h
  split at h
  · exact Or.inr (stopped_calls h)
  split at h
  · exact Or.inr (stopped_calls h)
  next chosen hchosen =>
  have hname : chosen = backend := by
    unfold findBackend at hchosen
    split at hchosen
    · next found hfound =>
      cases hchosen
      simpa using List.find?_some hfound
    · cases hchosen
  subst hname
  unfold renderPrompt at h
  split at h
  · next rendered hrender =>
    refine calls_of_waits (fun a => ?_) h
    cases ha : (show Except BackendError String from a) with
    | error e =>
        subst ha
        trivial
    | ok stdout =>
        subst ha
        exact Emits.exceptBind writeOutput_waits fun _ => Emits.pure _
  · exact Or.inr (stopped_calls h)

/-- The races of a fan-out are all for queries of the first one. -/
lemma collect_waits {aggregator : AggregatorName} {targets : List TargetSpec} {minResponses : ℕ}
    (left : ℕ) (pending : List Query) (st : FanState) (hpending : pending ⊆ queries) :
    Emits (Waits queries) (collect eng inp aggregator targets minResponses left pending st :
      Run B StrategyError FanState) := by
  induction left generalizing pending st with
  | zero => exact Emits.pure _
  | succ left ih =>
      refine Emits.exceptBind (Emits.op (Or.inr ⟨pending, rfl, hpending⟩)) fun r => ?_
      obtain ⟨idx, result⟩ := r
      have hrest : pending.filter (·.index ≠ idx) ⊆ queries :=
        fun q hq => hpending (List.mem_of_mem_filter hq)
      dsimp only
      split
      · exact Emits.pure _
      · split
        · exact Emits.throw _
        · exact ih _ _ hrest
      · refine Emits.exceptBind (Emits.exceptBind writeOutput_waits fun _ => ?_) fun st => ?_
        · split
          · exact Emits.pure _
          · exact Emits.throw _
        · split
          · exact Emits.pure _
          · exact ih _ _ hrest

lemma fanFinished_waits {aggregator : AggregatorName} {minResponses : ℕ} {st : FanState} :
    Emits (Waits queries)
      (fanFinished eng inp aggregator minResponses st : Run B StrategyError StrategyOutput) := by
  unfold fanFinished
  split
  · exact Emits.pure _
  split
  · exact Emits.throw _
  split
  · unfold voteCollected
    split
    · exact Emits.throw _
    · exact Emits.exceptBind writeOutput_waits fun _ => Emits.pure _
  · exact Emits.pure _

/-- What a target is called with: its own model or else the prompt's. -/
def targetCall (inp : PhaseInputs) (target : TargetSpec) : String × Option String :=
  (target.backend, (nonempty target.model).or (nonempty inp.promptModel))

lemma branchQueries_calls {rendered : String} {targets : List TargetSpec}
    (h : branchQueries inp rendered targets = .ok queries) :
    queries.map (fun q => (q.backend, q.model)) = targets.map (targetCall inp) := by
  unfold branchQueries at h
  have hzip : targets = targets.zipIdx.map Prod.fst := by simp
  rw [hzip, List.map_map]
  generalize targets.zipIdx = xs at h
  induction xs generalizing queries with
  | nil =>
      cases h
      rfl
  | cons x xs ih =>
      obtain ⟨q, rest, hfirst, hrest, rfl⟩ := mapM_cons_eq_ok.mp h
      rw [List.map_cons, List.map_cons, ih hrest]
      congr 1
      unfold branchQuery findBackend at hfirst
      split at hfirst
      · next found hfound =>
        cases hfirst
        have hname : found = x.1.backend := by simpa using List.find?_some hfound
        rw [hname]
        rfl
      · cases hfirst

/-- The first race starts every query, and what follows only waits. -/
lemma raced_calls {aggregator : AggregatorName} {targets : List TargetSpec} {minResponses : ℕ}
    {rest : Prog (RunSig B) (Except StrategyError StrategyOutput)} (hne : queries ≠ [])
    (h : Steps (ρ := Except StrategyError StrategyOutput) sem (do
        let st ← collect eng inp aggregator targets minResponses queries.length queries ⟨[], 0, []⟩
        fanFinished eng inp aggregator minResponses st : Run B StrategyError StrategyOutput)
      w tr rest w') :
    calls tr = queries.map (fun q => (q.backend, q.model)) ∨ calls tr = [] ∧ ¬ Finished rest := by
  obtain ⟨n, hn⟩ := Nat.exists_eq_succ_of_ne_zero (mt List.length_eq_zero_iff.mp hne)
  have hemits : Emits (Waits queries) (do
      let st ← collect eng inp aggregator targets minResponses (n + 1) queries ⟨[], 0, []⟩
      fanFinished eng inp aggregator minResponses st : Run B StrategyError StrategyOutput) :=
    Emits.exceptBind (collect_waits _ _ _ (List.Subset.refl _)) fun _ => fanFinished_waits
  have hstart : startedBy [] (.race queries : Op B) = queries := by
    rw [startedBy, List.filter_eq_self]
    simp
  rw [hn] at h
  have hfirst := calls_of_waits (o := .race queries) (fun a => by
    rw [hstart]
    exact hemits.2 a) h
  rw [hstart] at hfirst
  exact hfirst

/-- All targets are called at once, each with its own model. -/
lemma parallelFanOut_calls {aggregator : AggregatorName} {targets : List TargetSpec}
    {minResponses : ℕ} {template : String}
    {rest : Prog (RunSig B) (Except StrategyError StrategyOutput)}
    (h : Steps (ρ := Except StrategyError StrategyOutput) sem
      (parallelFanOut eng inp aggregator targets minResponses template) w tr rest w') :
    calls tr = targets.map (targetCall inp) ∨ calls tr = [] ∧ ¬ Finished rest := by
  unfold parallelFanOut at h
  split at h
  · exact Or.inr (stopped_calls h)
  next hne =>
  unfold renderPrompt at h
  split at h
  swap
  · exact Or.inr (stopped_calls h)
  next rendered hrender =>
  have hpure (f : String → Run B StrategyError StrategyOutput) :
      ((pure rendered : Run B StrategyError String) >>= f) = f rendered := rfl
  rw [hpure] at h
  cases hqueries : branchQueries inp rendered targets with
  | error e =>
      rw [hqueries] at h
      exact Or.inr (stopped_calls h)
  | ok queries =>
      rw [hqueries] at h
      have hcalls := branchQueries_calls hqueries
      have hsome : queries ≠ [] := by
        rintro rfl
        have hempty : targets = [] := by simpa using hcalls.symm
        exact hne (Or.inl hempty)
      rw [← hcalls]
      exact raced_calls hsome h

omit [RunFormat B] in
/-- A part that asks no backend calls none. -/
lemma startedFrom_quiet {ρ : Type} {p p' : Prog (RunSig B) ρ} {before : List Query}
    (hp : Emits (Waits []) p) (h : Steps sem p w tr p' w') : startedFrom before tr = [] :=
  startedFrom_waits (h.emits hp).2 (List.nil_subset before)

lemma rungAnswered_waits {hook outputPath stdout : String} {rung : PhaseRung} :
    Emits (Waits queries)
      (rungAnswered eng inp hook rung outputPath stdout : Run B StrategyError RungEnd) := by
  refine Emits.exceptBind writeOutput_waits fun _ => ?_
  exact Emits.exceptBind (Emits.op (Or.inl trivial)) fun _ => Emits.pure _

/-- What a rung is called with: the prompt's model. -/
def rungCall (inp : PhaseInputs) (rung : PhaseRung) : String × Option String :=
  (rung.backend, inp.promptModel)

/-- Rungs are called in order; an output is never there before a call. Induction on the rungs
that are left. -/
lemma climb_calls {hook rendered : String} {passFailureContext : Bool} {rungs : List PhaseRung}
    {idx : ℕ} {attempts : List Attempt} {previous : Option FailureContext} {before : List Query}
    {rest : Prog (RunSig B) (Except StrategyError StrategyOutput)}
    (h : Steps (ρ := Except StrategyError StrategyOutput) sem
      (climb eng inp hook passFailureContext rendered idx rungs attempts previous) w tr rest w') :
    (startedFrom before tr).map (fun q => (q.backend, q.model)) <+: rungs.map (rungCall inp) ∧
      (Finished rest → startedFrom before tr ≠ []) := by
  induction rungs generalizing idx attempts previous before w tr with
  | nil =>
      cases h with
      | stop => exact ⟨List.nil_prefix, fun ⟨_, h⟩ => by cases h⟩
  | cons rung rungs ih =>
      rw [climb] at h
      unfold findBackend at h
      cases hfind : inp.backends.find? (· = rung.backend) with
      | none =>
          rw [hfind] at h
          cases h with
          | stop => exact ⟨List.nil_prefix, fun ⟨_, h⟩ => by cases h⟩
      | some backend =>
          have hname : backend = rung.backend := by simpa using List.find?_some hfind
          subst hname
          rw [hfind] at h
          rcases steps_op h with ⟨rfl, hrest⟩ | ⟨answer, w₁, tr₁, _, hafter, rfl⟩
          · refine ⟨List.nil_prefix, fun ⟨_, hret⟩ => ?_⟩
            rw [hret] at hrest
            cases hrest
          refine ⟨?_, fun _ hnil => by cases hnil⟩
          rw [startedFrom, List.map_append, List.map_cons]
          refine List.prefix_cons_inj _ |>.mpr ?_
          cases hanswer : (show Except BackendError String from answer) with
          | error err =>
              subst hanswer
              exact (ih hafter).1
          | ok stdout =>
              subst hanswer
              rcases steps_bind (p := rungAnswered eng inp hook rung
                (rungOutput inp.phaseName idx rung.tier) stdout) hafter with
                ⟨p', hanswered, _⟩ | ⟨r, tr₂, tr₃, w₂, hanswered, hend, rfl⟩
              · rw [startedFrom_quiet rungAnswered_waits hanswered]
                exact List.nil_prefix
              · rw [startedFrom_append, startedFrom_quiet rungAnswered_waits hanswered,
                  List.nil_append, List.append_nil]
                cases r with
                | error e =>
                    cases hend with
                    | stop => exact List.nil_prefix
                | ok result =>
                    cases result with
                    | passed =>
                        cases hend with
                        | stop => exact List.nil_prefix
                    | failed verify failure => exact (ih hend).1

lemma escalatingRetry_calls {hook template : String} {passFailureContext : Bool}
    {rungs : List PhaseRung} {rest : Prog (RunSig B) (Except StrategyError StrategyOutput)}
    (h : Steps (ρ := Except StrategyError StrategyOutput) sem
      (escalatingRetry eng inp hook passFailureContext rungs template) w tr rest w') :
    calls tr <+: rungs.map (rungCall inp) ∧ (Finished rest → calls tr ≠ []) := by
  have hstopped : calls tr = [] ∧ ¬ Finished rest →
      calls tr <+: rungs.map (rungCall inp) ∧ (Finished rest → calls tr ≠ []) := by
    rintro ⟨hnone, hrest⟩
    rw [hnone]
    exact ⟨List.nil_prefix, fun hfinished => absurd hfinished hrest⟩
  unfold escalatingRetry at h
  split at h
  · exact hstopped (stopped_calls h)
  unfold renderPrompt at h
  split at h
  · next rendered hrender =>
    have hclimb : calls tr <+: rungs.map (rungCall inp) ∧
        (Finished rest → startedFrom [] tr ≠ []) := climb_calls h
    refine ⟨hclimb.1, fun hfinished hnil => ?_⟩
    exact hclimb.2 hfinished (List.map_eq_nil_iff.mp hnil)
  · exact hstopped (stopped_calls h)

end Strategies

section Listed

/-- The calls that a phase's list allows a run that has finished or not. -/
def Allowed (phase : Grammar.Phase) (called : List (String × Option String)) (finished : Prop) :
    Prop :=
  match phase.strategy with
  | .single => called = (phase.backends.head?.map named).toList ∨ called = [] ∧ ¬ finished
  | .parallelFanOut _ => called = phase.backends.map named ∨ called = [] ∧ ¬ finished
  | .escalatingRetry _ => called <+: phase.backends.map named ∧ (finished → called ≠ [])

/-- In every run of the phase's strategy, however far, over the resolved backends. -/
def CallsListed (B : Type) [RunFormat B] (phase : Grammar.Phase) (verify : Option String)
    (cfg : PhaseConfig) : Prop :=
  ∀ (eng : Engines) (inp : PhaseInputs) (strategy : Strategy String),
    inp.promptModel = none → inp.backends = phase.backends.map backendScheme →
    resolveStrategy cfg verify = .ok strategy → ∀ (w : World B) tr rest w',
      Steps perform (execute eng inp strategy) w tr rest w' →
        Allowed phase (calls tr) (Finished rest)

/-- The entries whose models do not reach the backends name none. -/
def KeepsModels (phase : Grammar.Phase) (verify : Option String) : Prop :=
  match phase.strategy with
  | .single => ∀ raw, phase.backends.head? = some raw → backendModel raw = none
  | .parallelFanOut _ => True
  | .escalatingRetry _ => verify.isSome → ∀ raw ∈ phase.backends, backendModel raw = none

variable {B : Type} [RunFormat B] {phase : Grammar.Phase} {verify : Option String} {prompt : String}

/-- The inputs the bridge gives a phase, with its resolved backends. -/
def bridgeInputs (phase : Grammar.Phase) : PhaseInputs :=
  ⟨phase.backends.map backendScheme, none, phase.name, none, ["run"], "r1"⟩

/-- A single call may be the last thing that happens. -/
lemma single_run {backend : String} {inp : PhaseInputs} (template : String)
    (hmem : backend ∈ inp.backends) (w : World B) : ∃ tr rest, Steps perform
      (singleModel CrashHistories.plainEngines inp backend template) w tr rest w ∧ calls tr = [(backend, inp.promptModel)] := by
  have hne : inp.backends ≠ [] := List.ne_nil_of_mem hmem
  unfold singleModel
  rw [if_neg hne, findBackend_present inp hmem]
  have hstep : perform (B := B) (.query ⟨0, backend, template, inp.promptModel⟩) w
      (.error (.timeout "late")) w := rfl
  exact ⟨_, _, .act hstep .stop, rfl⟩

/-- When every backend fails, all rungs are called. -/
lemma climb_run_through (eng : Engines) (hook rendered : String) (passFailureContext : Bool)
    {inp : PhaseInputs} {rungs : List PhaseRung} (hpresent : ∀ rung ∈ rungs, rung.backend ∈ inp.backends)
    (idx : ℕ) (attempts : List Attempt) (previous : Option FailureContext) (w : World B) :
    ∃ tr rest, Steps perform
      (climb eng inp hook passFailureContext rendered idx rungs attempts previous) w tr rest w ∧ ∀ before, (startedFrom before tr).map (fun q => (q.backend, q.model)) =
        rungs.map (rungCall inp) := by
  induction rungs generalizing idx attempts previous with
  | nil => exact ⟨_, _, .stop, fun _ => rfl⟩
  | cons rung rungs ih =>
      obtain ⟨hfirst, hrest⟩ := List.forall_mem_cons.mp hpresent
      rw [climb, findBackend_present inp hfirst]
      have hstep : perform (B := B) (.query ⟨idx, rung.backend,
          rungPrompt eng passFailureContext rendered idx previous, inp.promptModel⟩) w
          (.error (.timeout "late")) w := rfl
      obtain ⟨tr, rest, hsteps, hcalls⟩ := ih hrest (idx + 1)
        (attempts ++ [⟨some rung.tier, rung.backend, .error, rungOutput inp.phaseName idx rung.tier,
          .skipped⟩])
        (if passFailureContext then
          some (fromBackendError eng rung.tier rung.backend (.timeout "late")) else none)
      refine ⟨_, rest, .act hstep hsteps, fun before => ?_⟩
      rw [startedFrom, List.map_append, hcalls]
      rfl

lemma rungCalls_listed {inp : PhaseInputs} (hmodel : inp.promptModel = none) :
    (phase.backends.map mediumRung).map (rungCall inp) = phase.backends.map named ↔
      ∀ raw ∈ phase.backends, backendModel raw = none := by
  rw [List.map_map, List.map_inj_left]
  refine forall_congr' fun raw => forall_congr' fun _ => ?_
  rw [Function.comp_apply, named_eq]
  simp [rungCall, mediumRung, hmodel, eq_comm]

/-- The model that a target takes along is the one its entry names. -/
lemma targetCalls_listed {inp : PhaseInputs} (hmodel : inp.promptModel = none) :
    (phase.backends.map targetOf).map (targetCall inp) = phase.backends.map named := by
  rw [List.map_map, List.map_inj_left]
  intro raw _
  rw [Function.comp_apply, named_eq]
  have hnonempty : nonempty (backendModel raw) = backendModel raw := by
    unfold nonempty backendModel
    rw [Option.filter_filter]
    congr 1
    funext s
    simp
  simp only [targetCall, targetOf, hmodel, hnonempty]
  simp [nonempty, Option.filter]

lemma resolve_single (verify : Option String) (prompt : String)
    (hstrategy : phase.strategy = .single) :
    (∀ raw, phase.backends.head? = some raw → resolveStrategy (configOf phase prompt) verify =
      .ok (.singleModel (backendScheme raw) prompt)) ∧
    (phase.backends.head? = none → ∀ strategy,
      resolveStrategy (configOf phase prompt) verify ≠ .ok strategy) := by
  constructor
  · intro raw hhead
    simp [resolveStrategy, configOf, hstrategy, strategyName, hhead]
  · intro hhead strategy
    simp [resolveStrategy, configOf, hstrategy, strategyName, hhead]

lemma resolve_escalating (prompt : String) {passFailureContext : Bool}
    (hstrategy : phase.strategy = .escalatingRetry passFailureContext) :
    (∀ hook : String, resolveStrategy (configOf phase prompt) (some hook) =
      .ok (.escalatingRetry (phase.backends.map mediumRung) prompt hook passFailureContext)) ∧
    ∀ strategy, resolveStrategy (configOf phase prompt) (none : Option String) ≠ .ok strategy := by
  constructor
  · intro hook
    simp [resolveStrategy, configOf, hstrategy, strategyName, rungsOf, passFailureContextOf]
  · intro strategy
    simp [resolveStrategy, configOf, hstrategy, strategyName]

lemma single_listed_iff (hstrategy : phase.strategy = .single) :
    CallsListed B phase verify (configOf phase prompt) ↔ KeepsModels phase verify := by
  obtain ⟨hresolved, hunresolved⟩ := resolve_single verify prompt hstrategy
  unfold CallsListed KeepsModels Allowed
  rw [hstrategy]
  dsimp only
  cases hhead : phase.backends.head? with
  | none =>
      constructor
      · intro _ raw hraw
        cases hraw
      · intro _ eng inp strategy _ _ hresolve
        exact absurd hresolve (hunresolved hhead strategy)
  | some raw =>
      have hmem : raw ∈ phase.backends := List.mem_of_mem_head? hhead
      simp only [Option.map_some, Option.toList_some, named_eq, Option.some.injEq, forall_eq']
      constructor
      · intro h
        have hpresent : backendScheme raw ∈ (bridgeInputs phase).backends :=
          List.mem_map_of_mem hmem
        let w : World B := ⟨Disk.empty, []⟩
        obtain ⟨tr, rest, hrun, hcalls⟩ := single_run prompt hpresent w
        have hallowed := h _ (bridgeInputs phase) _ rfl rfl (hresolved raw hhead) w tr rest w hrun
        rw [hcalls] at hallowed
        rcases hallowed with heq | ⟨hnil, _⟩
        · simpa [bridgeInputs, eq_comm] using heq
        · cases hnil
      · intro hnone eng inp strategy hmodel _ hresolve w tr rest w' hrun
        rw [hresolved raw hhead] at hresolve
        cases hresolve
        have hcalls := singleModel_calls hrun
        rw [hmodel] at hcalls
        rw [hnone]
        exact hcalls

lemma parallel_listed {minResponses : ℕ} (hstrategy : phase.strategy = .parallelFanOut minResponses) :
    CallsListed B phase verify (configOf phase prompt) := by
  intro eng inp strategy hmodel _ hresolve w tr rest w' hrun
  have htargets : (configOf phase prompt).targets = phase.backends.map targetOf := by
    simp only [configOf, targetsOf, hstrategy]
  have hname : (configOf phase prompt).strategy = .parallel := by
    simp only [configOf, strategyName, hstrategy]
  unfold resolveStrategy newParallelFanOut at hresolve
  rw [hname] at hresolve
  dsimp only at hresolve
  split at hresolve
  · cases hresolve
    have hcalls := parallelFanOut_calls hrun
    rw [htargets, targetCalls_listed hmodel] at hcalls
    unfold Allowed
    rw [hstrategy]
    exact hcalls
  · cases hresolve

lemma escalating_listed_iff {passFailureContext : Bool}
    (hstrategy : phase.strategy = .escalatingRetry passFailureContext) :
    CallsListed B phase verify (configOf phase prompt) ↔ KeepsModels phase verify := by
  obtain ⟨hresolved, hunresolved⟩ := resolve_escalating prompt hstrategy
  unfold CallsListed KeepsModels Allowed
  rw [hstrategy]
  dsimp only
  cases verify with
  | none =>
      constructor
      · intro _ hsome
        cases hsome
      · intro _ eng inp strategy _ _ hresolve
        exact absurd hresolve (hunresolved strategy)
  | some hook =>
      simp only [Option.isSome_some, forall_const]
      constructor
      · intro h
        have hmodel : (bridgeInputs phase).promptModel = none := rfl
        rw [← rungCalls_listed hmodel]
        let w : World B := ⟨Disk.empty, []⟩
        have hpresent : ∀ rung ∈ phase.backends.map mediumRung,
            rung.backend ∈ (bridgeInputs phase).backends := by
          intro rung hrung
          obtain ⟨raw, hraw, rfl⟩ := List.mem_map.mp hrung
          exact List.mem_map_of_mem hraw
        obtain ⟨tr, rest, hrun, hcalls⟩ := climb_run_through CrashHistories.plainEngines hook
          prompt passFailureContext hpresent 0 [] none w
        by_cases hempty : phase.backends = []
        · rw [hempty]
          rfl
        have hladder : Steps (ρ := Except StrategyError StrategyOutput) perform
            (escalatingRetry CrashHistories.plainEngines (bridgeInputs phase) hook passFailureContext
              (phase.backends.map mediumRung) prompt) w tr rest w := by
          unfold escalatingRetry
          rw [if_neg (by simp [bridgeInputs, hempty])]
          exact hrun
        have hallowed := h _ (bridgeInputs phase) _ rfl rfl (hresolved hook) w tr rest w hladder
        have hprefix := hallowed.1
        rw [calls, hcalls []] at hprefix
        exact hprefix.eq_of_length (by simp)
      · intro hnone eng inp strategy hmodel _ hresolve w tr rest w' hrun
        rw [hresolved hook] at hresolve
        cases hresolve
        have hcalls := escalatingRetry_calls hrun
        rw [(rungCalls_listed hmodel).mpr hnone] at hcalls
        exact hcalls

/-- The listed backends are called with the models they name exactly when only a fan-out's entries
name one, or a ladder without a hook is never built. -/
theorem calls_listed_iff {phaseOutputs : String → Option Template.PhaseOutput}
    {specContent : Option String} {vars : String → Option String} {cfg : PhaseConfig}
    (hcfg : buildPhaseConfig phase phaseOutputs specContent vars = .ok cfg) :
    CallsListed B phase verify cfg ↔ KeepsModels phase verify := by
  obtain ⟨prompt, _, rfl⟩ := buildPhaseConfig_eq_ok hcfg
  cases hstrategy : phase.strategy with
  | single => exact single_listed_iff hstrategy
  | parallelFanOut minResponses =>
      have hkeeps : KeepsModels phase verify := by
        unfold KeepsModels
        rw [hstrategy]
        trivial
      exact ⟨fun _ => hkeeps, fun _ => parallel_listed hstrategy⟩
  | escalatingRetry passFailureContext => exact escalating_listed_iff hstrategy

/-- A fan-out over two models of one backend. -/
def pollPhase : Grammar.Phase :=
  ⟨"poll", .parallelFanOut 2, ["ollama/glm-5.1", "ollama/qwen3"], "Go", [], "poll.md"⟩

theorem calls_listed_iff_poll :
    CallsListed Doc pollPhase none (configOf pollPhase "Go") ↔ KeepsModels pollPhase none :=
  calls_listed_iff (show buildPhaseConfig pollPhase (fun _ => none) none (fun _ => none) =
    .ok (configOf pollPhase "Go") from rfl)

def askPhase : Grammar.Phase := ⟨"ask", .single, ["ollama/glm-5.1"], "Go", [], "ask.md"⟩

/-- The single call leaves the model out. -/
theorem single_drops_model : Grammar.validate ⟨"ask", [askPhase]⟩ = [] ∧
    buildPhaseConfig askPhase (fun _ => none) none (fun _ => none) = .ok (configOf askPhase "Go") ∧
    named "ollama/glm-5.1" = ("ollama", some "glm-5.1") ∧
    ¬ CallsListed Doc askPhase none (configOf askPhase "Go") := by
  refine ⟨by decide, rfl, by decide, fun h => ?_⟩
  have hkeeps := (single_listed_iff rfl).mp h "ollama/glm-5.1" rfl
  exact absurd hkeeps (by decide)

end Listed

end Loker.CalledBackends
