import Loker.Attribution
import Loker.CalledBackends
import Loker.DeclaredInputs
import Loker.GrammarReports

/-! The model families of a fan-out's targets: what is recorded of each of them, and what the
entry of the backends list stands for. -/

namespace Loker.TargetFamilies

open TextOps Programs RunFiles RunOps Dispatch Strategies PhaseRunner PhaseBridge Concat FanOut
  Attribution CalledBackends DeclaredInputs

section Diversity

/-- The families in the order in which they are declared. -/
def rank : Family → ℕ
  | .anthropic => 0
  | .google => 1
  | .openAI => 2
  | .zhipu => 3
  | .local => 4
  | .other _ => 5

def payload : Family → String
  | .other name => name
  | _ => ""

def before (a b : Family) : Prop := rank a < rank b ∨ rank a = rank b ∧ payload a ≤ payload b

instance : DecidableRel before := fun a b => by
  unfold before
  infer_instance

structure FamilyOverlap where
  family : Family
  count : ℕ
  deriving DecidableEq, Repr

/-- Reports the first family that more than one backend has. -/
def enforceCrossFamily (targets : List String) : Except FamilyOverlap Unit :=
  let families := targets.map familyOf
  match (families.dedup.insertionSort before).find? fun f => 1 < families.count f with
  | some f => .error ⟨f, families.count f⟩
  | none => .ok ()

lemma enforceCrossFamily_ok_iff (targets : List String) :
    enforceCrossFamily targets = .ok () ↔ (targets.map familyOf).Nodup := by
  rw [List.nodup_iff_count_le_one]
  unfold enforceCrossFamily
  dsimp only
  constructor
  · intro h f
    by_cases hf : f ∈ targets.map familyOf
    · split at h
      · cases h
      next hnone =>
      rw [List.find?_eq_none] at hnone
      have hsorted : f ∈ (targets.map familyOf).dedup.insertionSort before := by
        rw [List.mem_insertionSort, List.mem_dedup]
        exact hf
      have hcount := hnone f hsorted
      rw [decide_eq_true_eq] at hcount
      omega
    · rw [List.count_eq_zero_of_not_mem hf]
      omega
  · intro h
    split
    · next f hsome =>
      have hcount := List.find?_some hsome
      rw [decide_eq_true_eq] at hcount
      have hle := h f
      omega
    · rfl

end Diversity

section Entries

/-- The function that an entry asks of the gateway. -/
def gatewayFunction (raw : String) : Option String := stripPrefix raw "tensorzero/"

/-- The family of what an entry names, the gateway's function or the scheme. -/
def documentedFamily (raw : String) : Family :=
  match gatewayFunction raw with
  | some function => familyOf function
  | none => familyOf (named raw).1

/-- An attempt is recorded with the family of its backend. -/
def recordedFamily (a : Attempt) : String := (familyOf a.backend).asStr

def branchBackend : BranchOutcome → String
  | .success backendId _ _ => backendId
  | .failure backendId _ _ => backendId

def branchFamily (b : BranchOutcome) : String := (familyOf (branchBackend b)).asStr

/-- The attempts that the end of a fan-out lists. -/
def recorded : Except StrategyError StrategyOutput → List Attempt
  | .ok output => output.attempts
  | .error (.floorViolation _ _ output) => output.attempts
  | .error (.anyFail _ _ _ output) => output.attempts
  | .error (.exhausted output) => output.attempts
  | .error _ => []

end Entries

section Runs

variable {B : Type} [RunFormat B] {eng : Engines} {inp : PhaseInputs} {targets : List TargetSpec}
  {aggregator : AggregatorName} {minResponses : ℕ} {st : FanState} {w : World B}

/-- The attempt is the one of a target. -/
def Targeted (inp : PhaseInputs) (targets : List TargetSpec) (a : Attempt) : Prop :=
  ∃ idx target finish, targets[idx]? = some target ∧ a = branchAttempt inp target idx finish

lemma writeOutput_records {name text parentFailure failure : String} {P : Attempt → Prop} :
    Finishes perform (fun _ _ => True) (fun e _ => ∀ a ∈ recorded (.error e), P a)
      (writeOutput inp name text parentFailure failure : Run B StrategyError Unit) w := by
  apply Finishes.bind
  refine Finishes.op fun answer w₁ h₁ => ?_
  cases (show Except String Unit from answer) with
  | error e => exact Finishes.throw nofun
  | ok u =>
    apply Finishes.bind
    refine Finishes.op fun answer w₂ h₂ => ?_
    cases (show Except String Unit from answer) with
    | error e => exact Finishes.throw nofun
    | ok u => exact Finishes.pure trivial

omit [RunFormat B] in
lemma forall_mem_concat {P : Attempt → Prop} {attempts : List Attempt} {a : Attempt}
    (h : ∀ x ∈ attempts, P x) (ha : P a) : ∀ x ∈ attempts ++ [a], P x := by
  intro x hx
  rcases List.mem_append.mp hx with hx | hx
  · exact h x hx
  · rw [List.mem_singleton.mp hx]
    exact ha

/-- Whatever the targets answer and in whatever order, what is recorded is theirs. -/
lemma collect_targeted (left : ℕ) (pending : List Query)
    (h : ∀ a ∈ st.attempts, Targeted inp targets a) :
    Finishes perform (fun st' _ => ∀ a ∈ st'.attempts, Targeted inp targets a)
      (fun e _ => ∀ a ∈ recorded (.error e), Targeted inp targets a)
      (collect eng inp aggregator targets minResponses left pending st) w := by
  induction left generalizing pending st w with
  | zero => exact Finishes.pure h
  | succ left ih =>
    apply Finishes.bind
    refine Finishes.op fun answer w₁ _ => ?_
    obtain ⟨idx, answered⟩ := answer
    cases htarget : targets[idx]? with
    | none =>
      simp only [htarget]
      exact Finishes.pure h
    | some target =>
      have hnew : ∀ finish, ∀ a ∈ st.attempts ++ [branchAttempt inp target idx finish],
          Targeted inp targets a :=
        fun finish => forall_mem_concat h ⟨idx, target, finish, htarget, rfl⟩
      simp only [htarget]
      cases answered with
      | error err =>
        dsimp only
        cases hfailed : branchFailed inp aggregator target idx err st with
        | error e =>
          unfold branchFailed at hfailed
          split at hfailed
          · cases hfailed
            exact Finishes.throw (hnew .error)
          · cases hfailed
        | ok st' =>
          unfold branchFailed at hfailed
          split at hfailed
          · cases hfailed
          · obtain rfl := Except.ok.inj hfailed
            exact ih _ (hnew .error)
      | ok stdout =>
        apply Finishes.bind
        apply Finishes.bind
        refine Finishes.mono writeOutput_records (fun _ w₂ _ => ?_) fun _ _ he => he
        cases hafter : afterBranchWritten eng inp aggregator target idx stdout st with
        | error e =>
          unfold afterBranchWritten at hafter
          split at hafter
          · cases hafter
            exact Finishes.throw (hnew .stop)
          · cases hafter
        | ok st' =>
          have haccepted : st' = branchAccepted inp target idx stdout st := by
            unfold afterBranchWritten at hafter
            split at hafter
            · cases hafter
            · exact (Except.ok.inj hafter).symm
          subst haccepted
          refine Finishes.pure ?_
          split
          · exact Finishes.pure (hnew .stop)
          · exact ih _ (hnew .stop)

lemma fanFinished_targeted (h : ∀ a ∈ st.attempts, Targeted inp targets a) :
    Finishes perform (fun output _ => ∀ a ∈ recorded (.ok output), Targeted inp targets a)
      (fun e _ => ∀ a ∈ recorded (.error e), Targeted inp targets a)
      (fanFinished eng inp aggregator minResponses st) w := by
  unfold fanFinished
  split
  · exact Finishes.pure h
  split
  · exact Finishes.throw h
  split
  · unfold voteCollected
    cases eng.aggregateVote st.branches with
    | error detail => exact Finishes.throw nofun
    | ok text =>
      apply Finishes.bind
      exact Finishes.mono writeOutput_records (fun _ _ _ => Finishes.pure h) fun _ _ he => he
  · exact Finishes.pure h

omit [RunFormat B] in
lemma branchQueries_error {rendered : String} {e : StrategyError}
    (h : branchQueries inp rendered targets = .error e) : ∃ name, e = .backendNotFound name := by
  unfold branchQueries at h
  generalize targets.zipIdx = xs at h
  induction xs with
  | nil => cases h
  | cons x xs ih =>
    rw [List.mapM_cons] at h
    cases hquery : branchQuery inp rendered x with
    | error e' =>
      rw [hquery] at h
      obtain rfl := Except.error.inj h
      unfold branchQuery findBackend at hquery
      split at hquery
      · cases hquery
      · cases hquery
        exact ⟨_, rfl⟩
    | ok q =>
      rw [hquery] at h
      cases hrest : xs.mapM (branchQuery inp rendered) with
      | error e' =>
        rw [hrest] at h
        obtain rfl := Except.error.inj h
        exact ih hrest
      | ok rest =>
        rw [hrest] at h
        cases h

lemma parallelFanOut_targeted {template : String} :
    Finishes perform (fun output _ => ∀ a ∈ recorded (.ok output), Targeted inp targets a)
      (fun e _ => ∀ a ∈ recorded (.error e), Targeted inp targets a)
      (parallelFanOut eng inp aggregator targets minResponses template) w := by
  unfold parallelFanOut
  split
  · exact Finishes.throw nofun
  apply Finishes.bind
  unfold renderPrompt
  cases eng.template template with
  | error e => exact Finishes.throw nofun
  | ok rendered =>
    refine Finishes.pure ?_
    cases hqueries : branchQueries inp rendered targets with
    | error e =>
      dsimp only
      exact Finishes.throw (by
        obtain ⟨name, rfl⟩ := branchQueries_error hqueries
        nofun)
    | ok queries =>
      apply Finishes.bind
      refine Finishes.mono (collect_targeted queries.length queries nofun)
        (fun st w' hst => fanFinished_targeted hst) fun _ _ he => he

/-- Every backend fails. -/
def failing : Script := ⟨fun _ => .error (.network "down"), fun _ => .ok .pass⟩

def Fails : (o : Op B) → Answer B o → Prop
  | .race _, a => ∃ e, a.2 = .error e
  | _, _ => True

def failingSem : Semantics (RunSig B) (World B) :=
  fun o w a w' => perform o w a w' ∧ Fails o a

lemma failing_performs (o : Op B) (w : World B) :
    failingSem o w (handle failing o w).1 (handle failing o w).2 := by
  refine ⟨handle_performs failing o w, ?_⟩
  cases o with
  | race pending =>
    cases pending with
    | nil => exact ⟨_, rfl⟩
    | cons q pending => exact ⟨_, rfl⟩
  | _ => trivial

/-- The targets that are waited for are all recorded. -/
lemma collect_failing (left : ℕ) (pending : List Query) (hleft : pending.length ≤ left)
    (hvalid : ∀ q ∈ pending, targets[q.index]? ≠ none) (hplain : aggregator ≠ .anyFail) :
    Finishes failingSem (fun st' _ => (∀ a ∈ st.attempts, a ∈ st'.attempts) ∧
        ∀ q ∈ pending, ∀ target, targets[q.index]? = some target →
          branchAttempt inp target q.index .error ∈ st'.attempts)
      (fun _ _ => False)
      (collect eng inp aggregator targets minResponses left pending st) w := by
  induction left generalizing pending st w with
  | zero =>
    have hnil : pending = [] := List.length_eq_zero_iff.mp (Nat.le_zero.mp hleft)
    subst hnil
    exact Finishes.pure ⟨fun _ ha => ha, nofun⟩
  | succ left ih =>
    apply Finishes.bind
    refine Finishes.op fun answer w₁ hact => ?_
    obtain ⟨idx, answered⟩ := answer
    obtain ⟨⟨rfl, hidx⟩, err, herr⟩ := hact
    have herr' : answered = .error err := herr
    subst herr'
    have hrest : (pending.filter (·.index ≠ idx)).length ≤ left := by
      cases pending with
      | nil => exact Nat.zero_le left
      | cons q qs =>
        obtain ⟨q', hq', hindex⟩ := List.mem_map.mp (hidx (List.cons_ne_nil q qs))
        have hlt : ((q :: qs).filter (·.index ≠ idx)).length < (q :: qs).length :=
          List.length_filter_lt_length_iff_exists.mpr ⟨q', hq', by simpa using hindex⟩
        omega
    cases htarget : targets[idx]? with
    | none =>
      simp only [htarget]
      refine Finishes.pure ⟨fun _ ha => ha, fun q hq target hq' => ?_⟩
      obtain ⟨q', hq', hindex⟩ := List.mem_map.mp (hidx (List.ne_nil_of_mem hq))
      exact absurd (hindex ▸ htarget) (hvalid q' hq')
    | some target =>
      have hfailed : branchFailed inp aggregator target idx err st =
          .ok { st with attempts := st.attempts ++ [branchAttempt inp target idx .error],
                        branches := st.branches ++
                          [.failure target.backend (st.attempts.length + 1)
                            (backendErrorText err)] } := by
        rw [branchFailed, if_neg hplain]
      simp only [htarget, hfailed]
      have hvalid' : ∀ q ∈ pending.filter (·.index ≠ idx), targets[q.index]? ≠ none :=
        fun q hq => hvalid q (List.mem_of_mem_filter hq)
      refine (ih _ hrest hvalid').mono
        (fun st' w' h => ⟨fun a ha => ?_, fun q hq target' hq' => ?_⟩) fun _ _ => id
      · exact h.1 a (List.mem_append_left _ ha)
      · by_cases hsame : q.index = idx
        · rw [hsame] at hq' ⊢
          rw [htarget] at hq'
          obtain rfl := Option.some.inj hq'
          exact h.1 _ (List.mem_append_right _ List.mem_cons_self)
        · exact h.2 q (List.mem_filter.mpr ⟨hq, by simpa using hsame⟩) target' hq'

lemma fanFinished_recorded (hany : aggregator ≠ .anyFail) (hvote : aggregator ≠ .vote)
    {sem : Semantics (RunSig B) (World B)} :
    Finishes sem (fun output _ => recorded (.ok output) = st.attempts)
      (fun e _ => recorded (.error e) = st.attempts)
      (fanFinished eng inp aggregator minResponses st) w := by
  unfold fanFinished
  rw [if_neg hany, if_neg hvote]
  split
  · exact Finishes.throw rfl
  · exact Finishes.pure rfl

/-- A run in which every backend fails records every target. -/
lemma exists_recording (aggregator : AggregatorName) (eng : Engines) (inp : PhaseInputs)
    (minResponses : ℕ) (template : String) (w : World B)
    (hrender : ∃ rendered, eng.template template = .ok rendered)
    (hpresent : ∀ target ∈ targets, target.backend ∈ inp.backends)
    (hany : aggregator ≠ .anyFail) (hvote : aggregator ≠ .vote) :
    ∃ tr r w', Runs (ρ := Except StrategyError StrategyOutput) perform
      (parallelFanOut eng inp aggregator targets minResponses template) w tr r w' ∧
      ∀ idx target, targets[idx]? = some target →
        branchAttempt inp target idx .error ∈ recorded r := by
  let fanOut : Run B StrategyError StrategyOutput :=
    parallelFanOut eng inp aggregator targets minResponses template
  have hruns : Runs perform fanOut w _ _ _ := eval_runs (handle_performs failing) fanOut w
  have hfails : Runs failingSem fanOut w _ _ _ := eval_runs failing_performs fanOut w
  refine ⟨_, _, _, hruns, fun idx target htarget => ?_⟩
  obtain ⟨rendered, hrendered⟩ := hrender
  have hne : targets ≠ [] := by
    rintro rfl
    cases htarget
  have hfinishes : Finishes failingSem
      (fun output _ => branchAttempt inp target idx .error ∈ recorded (.ok output))
      (fun e _ => branchAttempt inp target idx .error ∈ recorded (.error e))
      (parallelFanOut eng inp aggregator targets minResponses template) w := by
    obtain ⟨queries, hqueries, hindex⟩ := branchQueries_ok rendered hpresent
    have hpure : (renderPrompt eng template : Run B StrategyError String) = pure rendered := by
      rw [renderPrompt, hrendered]
    have hvalid : ∀ q ∈ queries, targets[q.index]? ≠ none := by
      intro q hq
      have hmem : q.index ∈ targets.zipIdx.map Prod.snd :=
        hindex ▸ List.mem_map_of_mem hq
      obtain ⟨x, hx, hxq⟩ := List.mem_map.mp hmem
      rw [← hxq, mem_targets hx]
      exact Option.some_ne_none _
    unfold parallelFanOut
    rw [if_neg (backends_present hne hpresent), hpure]
    apply Finishes.bind
    refine Finishes.pure ?_
    simp only [hqueries]
    apply Finishes.bind
    refine Finishes.mono (collect_failing queries.length queries le_rfl hvalid hany)
      (fun st w' hst => ?_) fun _ _ => False.elim
    have hmem : branchAttempt inp target idx .error ∈ st.attempts := by
      have hzip : (target, idx) ∈ targets.zipIdx := List.mem_zipIdx_iff_getElem?.mpr htarget
      have hasked : idx ∈ queries.map Query.index :=
        hindex ▸ List.mem_map.mpr ⟨(target, idx), hzip, rfl⟩
      obtain ⟨q, hq, rfl⟩ := List.mem_map.mp hasked
      exact hst.2 q hq target htarget
    exact (fanFinished_recorded hany hvote).mono (fun _ _ h => h ▸ hmem) fun _ _ h => h ▸ hmem
  obtain ⟨hok, herror⟩ := hfinishes _ _ _ hfails
  generalize (eval (handle failing)
    (parallelFanOut eng inp aggregator targets minResponses template) w).2.1 = r at hok herror ⊢
  cases r with
  | ok output => exact hok output rfl
  | error e => exact herror e rfl

/-- A branch that is read back has its attempt's backend. -/
lemma readBranches_backend {sem : Semantics (RunSig B) (World B)} (xs : List (Attempt × ℕ)) :
    Finishes sem (fun branches _ => branches.map branchBackend = xs.map fun x => x.1.backend)
      (fun _ _ => True) (readBranches inp.runDir xs : Run B PhaseError (List BranchOutcome)) w := by
  induction xs generalizing w with
  | nil => exact Finishes.pure rfl
  | cons x xs ih =>
    apply Finishes.bind
    have hread : Finishes sem (fun branch _ => branchBackend branch = x.1.backend)
        (fun _ _ => True) (readBranch inp.runDir x : Run B PhaseError BranchOutcome) w := by
      unfold readBranch
      split
      · apply Finishes.bind
        refine Finishes.mono Finishes.any (fun bytes w₁ _ => ?_) fun _ _ _ => trivial
        split
        · exact Finishes.pure rfl
        · exact Finishes.throw trivial
      · exact Finishes.pure rfl
    refine hread.mono (fun branch w₁ hbranch => ?_) fun _ _ _ => trivial
    apply Finishes.bind
    refine ih.mono (fun branches w₂ hbranches => ?_) fun _ _ _ => trivial
    refine Finishes.pure ?_
    rw [List.map_cons, List.map_cons, hbranch, hbranches]

end Runs

section Kept

variable {raw function : String} {phase : Grammar.Phase} {minResponses : ℕ}

lemma gateway_scheme (h : gatewayFunction raw = some function) :
    backendScheme raw = "tensorzero" := by
  have hraw := mem_of_stripPrefix h
  have hparts : raw.toList = "tensorzero".toList ++ '/' :: function.toList := by
    rw [hraw, String.toList_append]
    rfl
  have hall : ∀ c ∈ "tensorzero".toList, decide (c ≠ '/') = true :=
    List.all_eq_true.mp (by decide)
  rw [backendScheme_eq, hparts, List.takeWhile_append_of_pos hall]
  rfl

lemma familyOf_gateway : familyOf "tensorzero" = .other "tensorzero" := by decide

/-- What is recorded of a target is the documented family, unless the entry is the gateway's. -/
lemma recorded_scheme_iff (raw : String) :
    (familyOf (backendScheme raw)).asStr = (documentedFamily raw).asStr ↔
      ∀ function, gatewayFunction raw = some function →
        ∃ name, familyOf function = .other name := by
  unfold documentedFamily
  cases hgateway : gatewayFunction raw with
  | none =>
    rw [named_eq]
    constructor
    · intro _ function h
      cases h
    · exact fun _ => rfl
  | some function =>
    rw [gateway_scheme hgateway, familyOf_gateway]
    dsimp only
    constructor
    · intro h function' hsome
      obtain rfl := Option.some.inj hsome
      cases hfamily : familyOf function with
      | other name => exact ⟨name, rfl⟩
      | _ =>
        rw [hfamily] at h
        exact absurd h (by decide)
    · intro h
      obtain ⟨name, hname⟩ := h function rfl
      rw [hname]
      rfl

/-- What each attempt and each branch is recorded with is what the list stands for, and the
targets are diverse exactly if the entries are. -/
structure FamiliesKept (B : Type) [RunFormat B] (phase : Grammar.Phase) (verify : Option String)
    (cfg : PhaseConfig) : Prop where
  attempts : ∀ eng inp strategy, resolveStrategy cfg verify = .ok strategy →
    ∀ (w : World B) tr r w', Runs perform (execute eng inp strategy) w tr r w' →
    ∀ a ∈ recorded r, ∀ i raw, phase.backends[i]? = some raw →
      a.outputPath = branchOutput inp.phaseName i →
      recordedFamily a = (documentedFamily raw).asStr
  branches : ∀ eng inp strategy, resolveStrategy cfg verify = .ok strategy →
    ∀ (w : World B) tr output w', Runs perform (execute eng inp strategy) w tr (.ok output) w' →
    ∀ (v : World B) tr' branches v', Runs (ρ := Except PhaseError (List BranchOutcome)) perform
      (readBranches inp.runDir output.attempts.zipIdx) v tr' (.ok branches) v' →
    List.Forall₂ (fun a b => ∀ i raw, phase.backends[i]? = some raw →
      a.outputPath = branchOutput inp.phaseName i →
      branchFamily b = (documentedFamily raw).asStr) output.attempts branches
  diverse : enforceCrossFamily (cfg.targets.map TargetSpec.backend) = .ok () ↔
    (phase.backends.map documentedFamily).Nodup

def gateways (phase : Grammar.Phase) : List String :=
  phase.backends.filter fun raw => (gatewayFunction raw).isSome

def direct (phase : Grammar.Phase) : List String :=
  phase.backends.filter fun raw => !(gatewayFunction raw).isSome

/-- No gateway function of a phase that is run has a family of its own, and counting the gateway
as one family decides as the functions' families do. -/
structure FamiliesAgree (phase : Grammar.Phase) (minResponses : ℕ) : Prop where
  unnamed : 0 < minResponses → ∀ raw ∈ phase.backends, ∀ function,
    gatewayFunction raw = some function → ∃ name, familyOf function = .other name
  distinct : (phase.backends.map documentedFamily).Nodup ↔
    (gateways phase).length ≤ 1 ∧ ((direct phase).map documentedFamily).Nodup

lemma splitOnce_eq_some {s before after : String} {sep : Char}
    (h : splitOnce s sep = some (before, after)) : s = before ++ String.singleton sep ++ after := by
  have hparts := List.takeWhile_append_dropWhile (p := (· ≠ sep)) (l := s.toList)
  unfold splitOnce at h
  rw [List.span_eq_takeWhile_dropWhile] at h
  split at h
  · cases h
  next cs c rest hspan =>
  obtain ⟨rfl, hdrop⟩ := Prod.mk.inj hspan
  obtain ⟨rfl, rfl⟩ := Prod.mk.inj (Option.some.inj h)
  have hc : c = sep := by
    have hhead := List.head?_dropWhile_not (· ≠ sep) s.toList
    rw [hdrop] at hhead
    simpa using hhead
  rw [hdrop, hc] at hparts
  rw [← String.toList_inj, String.toList_append, String.toList_append, String.toList_ofList,
    String.toList_ofList, String.toList_singleton, List.append_assoc]
  exact hparts.symm

/-- The other entries of a valid list are of known families. -/
lemma direct_family {ref : Grammar.BackendRef} (h : Grammar.resolveBackendScheme raw = .ok ref)
    (hdirect : gatewayFunction raw = none) (name : String) :
    documentedFamily raw ≠ .other name := by
  unfold Grammar.resolveBackendScheme at h
  have hnamed : ∀ scheme rest, splitOnce raw '/' = some (scheme, rest) →
      documentedFamily raw = familyOf scheme := by
    intro scheme rest hsplit
    unfold documentedFamily named
    rw [hdirect, hsplit]
  split at h
  · cases h
  · next rest hsplit =>
    have hraw := splitOnce_eq_some hsplit
    have hgateway : gatewayFunction raw = some rest := by
      rw [hraw]
      exact stripPrefix_append "tensorzero/" rest
    rw [hdirect] at hgateway
    cases hgateway
  · next rest hsplit =>
    rw [hnamed _ _ hsplit, show familyOf "claude" = .anthropic by decide]
    nofun
  · next rest hsplit =>
    rw [hnamed _ _ hsplit, show familyOf "codex" = .openAI by decide]
    nofun
  · next rest hsplit =>
    rw [hnamed _ _ hsplit, show familyOf "gemini" = .google by decide]
    nofun
  · next rest hsplit =>
    rw [hnamed _ _ hsplit, show familyOf "ollama" = .local by decide]
    nofun
  · cases h

lemma targets_backends (phase : Grammar.Phase) :
    (phase.backends.map targetOf).map TargetSpec.backend = phase.backends.map backendScheme := by
  rw [List.map_map]
  rfl

/-- The bridge's names are diverse if there is one gateway entry at most and the others are. -/
lemma schemes_nodup_iff
    (hvalid : ∀ raw ∈ phase.backends, ∃ ref, Grammar.resolveBackendScheme raw = .ok ref) :
    (phase.backends.map fun raw => familyOf (backendScheme raw)).Nodup ↔
      (gateways phase).length ≤ 1 ∧ ((direct phase).map documentedFamily).Nodup := by
  have hsplit : (gateways phase ++ direct phase).Perm phase.backends :=
    List.filter_append_perm _ _
  have hgateways : (gateways phase).map (fun raw => familyOf (backendScheme raw)) =
      List.replicate (gateways phase).length (Family.other "tensorzero") := by
    apply List.eq_replicate_iff.mpr
    refine ⟨List.length_map _, fun family hfamily => ?_⟩
    obtain ⟨raw, hraw, rfl⟩ := List.mem_map.mp hfamily
    obtain ⟨function, hfunction⟩ := Option.isSome_iff_exists.mp (List.mem_filter.mp hraw).2
    rw [gateway_scheme hfunction, familyOf_gateway]
  have hdirect : ∀ raw ∈ direct phase, gatewayFunction raw = none := by
    intro raw hraw
    simpa using (List.mem_filter.mp hraw).2
  have hdirects : (direct phase).map (fun raw => familyOf (backendScheme raw)) =
      (direct phase).map documentedFamily := by
    apply List.map_congr_left
    intro raw hraw
    unfold documentedFamily
    rw [hdirect raw hraw, named_eq]
  rw [← (hsplit.map _).nodup_iff, List.map_append, List.nodup_append', hgateways, hdirects,
    List.nodup_replicate]
  constructor
  · exact fun h => ⟨h.1, h.2.1⟩
  · rintro ⟨hone, hnodup⟩
    refine ⟨hone, hnodup, ?_⟩
    rintro family hgateway hmem
    obtain ⟨raw, hraw, rfl⟩ := List.mem_map.mp hmem
    obtain ⟨ref, href⟩ := hvalid raw (List.mem_of_mem_filter hraw)
    exact direct_family href (hdirect raw hraw) _ (List.eq_of_mem_replicate hgateway)

lemma resolves {prompt : String} {verify : Option String} {strategy : Dispatch.Strategy String}
    (hstrategy : phase.strategy = .parallelFanOut minResponses) :
    resolveStrategy (configOf phase prompt) verify = .ok strategy ↔ 0 < minResponses ∧
      strategy = .parallelFanOut (phase.backends.map targetOf) minResponses prompt .concat := by
  have htargets : (configOf phase prompt).targets = phase.backends.map targetOf := by
    simp only [configOf, targetsOf, hstrategy]
  have hname : (configOf phase prompt).strategy = .parallel := by
    simp only [configOf, strategyName, hstrategy]
  have haggregator : (configOf phase prompt).aggregator = .concat := by
    simp only [configOf, aggregatorName, hstrategy]
  have hresponses : (configOf phase prompt).minResponses = minResponses := by
    simp only [configOf, minResponsesOf, hstrategy]
  unfold resolveStrategy newParallelFanOut
  rw [hname, htargets, haggregator, hresponses]
  dsimp only
  split
  · next hpos =>
    constructor
    · intro h
      exact ⟨hpos, (Except.ok.inj h).symm⟩
    · rintro ⟨_, rfl⟩
      rfl
  · next hzero =>
    constructor
    · intro h
      cases h
    · exact fun h => absurd h.1 hzero

lemma valid_backends {wf : Grammar.Workflow} (hvalid : Grammar.validate wf = [])
    (hphase : phase ∈ wf.phases) :
    ∀ raw ∈ phase.backends, ∃ ref, Grammar.resolveBackendScheme raw = .ok ref := by
  intro raw hraw
  cases href : Grammar.resolveBackendScheme raw with
  | ok ref => exact ⟨ref, rfl⟩
  | error e =>
    have hmem : e ∈ Grammar.phaseErrors wf.phases phase :=
      GrammarReports.mem_phaseErrors.mpr (Or.inl ⟨raw, hraw, href⟩)
    rw [Grammar.phaseErrors_nil hvalid hphase] at hmem
    cases hmem

/-- A target's attempt is recorded as its entry says. -/
lemma Targeted.family {inp : PhaseInputs} {a : Attempt}
    (h : Targeted inp (phase.backends.map targetOf) a) {i : ℕ}
    (hraw : phase.backends[i]? = some raw) (hpath : a.outputPath = branchOutput inp.phaseName i) :
    a.backend = backendScheme raw := by
  obtain ⟨idx, target, finish, htarget, rfl⟩ := h
  obtain rfl := branchOutput_inj hpath
  rw [List.getElem?_map, hraw] at htarget
  obtain rfl := Option.some.inj htarget
  rfl

lemma forall₂_branches {P : Attempt → BranchOutcome → Prop} {attempts : List Attempt}
    {branches : List BranchOutcome}
    (hbackends : branches.map branchBackend = attempts.map Attempt.backend)
    (h : ∀ a ∈ attempts, ∀ b, branchBackend b = a.backend → P a b) :
    List.Forall₂ P attempts branches := by
  induction attempts generalizing branches with
  | nil =>
    rw [List.map_eq_nil_iff.mp hbackends]
    exact .nil
  | cons a attempts ih =>
    cases branches with
    | nil => cases hbackends
    | cons b branches =>
      rw [List.map_cons, List.map_cons, List.cons.injEq] at hbackends
      refine .cons (h a List.mem_cons_self b hbackends.1) (ih hbackends.2 fun a' ha' => ?_)
      exact h a' (List.mem_cons_of_mem _ ha')

section Phase

variable {B : Type} [RunFormat B] {prompt : String} {verify : Option String}

lemma diverse_iff (prompt : String) {wf : Grammar.Workflow} (hvalid : Grammar.validate wf = [])
    (hphase : phase ∈ wf.phases) (hstrategy : phase.strategy = .parallelFanOut minResponses) :
    enforceCrossFamily ((configOf phase prompt).targets.map TargetSpec.backend) = .ok () ↔
      (gateways phase).length ≤ 1 ∧ ((direct phase).map documentedFamily).Nodup := by
  have htargets : (configOf phase prompt).targets = phase.backends.map targetOf := by
    simp only [configOf, targetsOf, hstrategy]
  have hfamilies : (phase.backends.map backendScheme).map familyOf =
      phase.backends.map fun raw => familyOf (backendScheme raw) := by
    rw [List.map_map]
    exact List.map_congr_left fun raw _ => Function.comp_apply
  rw [enforceCrossFamily_ok_iff, htargets, targets_backends, hfamilies,
    schemes_nodup_iff (valid_backends hvalid hphase)]

/-- The attempts of a phase that can be run are recorded as the list says only if no function of
the gateway has a family of its own. -/
lemma FamiliesKept.unnamed (h : FamiliesKept B phase verify (configOf phase prompt))
    (hstrategy : phase.strategy = .parallelFanOut minResponses) (hpos : 0 < minResponses) :
    ∀ raw ∈ phase.backends, ∀ function, gatewayFunction raw = some function →
      ∃ name, familyOf function = .other name := by
  intro raw hraw
  rw [← recorded_scheme_iff]
  obtain ⟨i, hi⟩ := List.mem_iff_getElem?.mp hraw
  have hpresent : ∀ target ∈ phase.backends.map targetOf,
      target.backend ∈ (bridgeInputs phase).backends := by
    intro target htarget
    obtain ⟨raw', hraw', rfl⟩ := List.mem_map.mp htarget
    exact List.mem_map_of_mem hraw'
  let w : World B := ⟨FileTree.Disk.empty, []⟩
  obtain ⟨tr, r, w', hrun, hrecorded⟩ := exists_recording .concat CrashHistories.plainEngines
    (bridgeInputs phase) minResponses prompt w ⟨prompt, rfl⟩ hpresent nofun nofun
  have htarget : (phase.backends.map targetOf)[i]? = some (targetOf raw) := by
    rw [List.getElem?_map, hi]
    rfl
  exact h.attempts _ _ _ ((resolves hstrategy).mpr ⟨hpos, rfl⟩) w tr r w' hrun _
    (hrecorded i _ htarget) i raw hi rfl

lemma attempts_kept (hstrategy : phase.strategy = .parallelFanOut minResponses)
    {eng : Engines} {inp : PhaseInputs} {strategy : Dispatch.Strategy String}
    (hresolve : resolveStrategy (configOf phase prompt) verify = .ok strategy) {w w' : World B}
    {tr : List (Event (RunSig B))} {r : Except StrategyError StrategyOutput}
    (hrun : Runs perform (execute eng inp strategy) w tr r w') {a : Attempt} (ha : a ∈ recorded r)
    {i : ℕ} (hraw : phase.backends[i]? = some raw)
    (hpath : a.outputPath = branchOutput inp.phaseName i) : a.backend = backendScheme raw := by
  obtain ⟨_, rfl⟩ := (resolves hstrategy).mp hresolve
  obtain ⟨hok, herror⟩ := parallelFanOut_targeted tr r w' hrun
  have htargeted : Targeted inp (phase.backends.map targetOf) a := by
    cases r with
    | ok output => exact hok output rfl a ha
    | error e => exact herror e rfl a ha
  exact htargeted.family hraw hpath

/-- When the families survive the bridge. -/
theorem families_kept_iff {wf : Grammar.Workflow} (hvalid : Grammar.validate wf = [])
    (hphase : phase ∈ wf.phases) (hstrategy : phase.strategy = .parallelFanOut minResponses)
    (prompt : String) (verify : Option String) :
    FamiliesKept B phase verify (configOf phase prompt) ↔ FamiliesAgree phase minResponses := by
  constructor
  · intro h
    refine ⟨fun hpos => h.unnamed hstrategy hpos, ?_⟩
    have hdiverse := diverse_iff prompt hvalid hphase hstrategy
    exact h.diverse.symm.trans hdiverse
  · intro h
    have hrecorded : ∀ raw (i : ℕ) strategy, resolveStrategy (configOf phase prompt) verify =
        .ok strategy → phase.backends[i]? = some raw →
        (familyOf (backendScheme raw)).asStr = (documentedFamily raw).asStr := by
      intro raw i strategy hresolve hraw
      have hpos := ((resolves hstrategy).mp hresolve).1
      exact (recorded_scheme_iff raw).mpr (h.unnamed hpos raw (List.mem_of_getElem? hraw))
    constructor
    · intro eng inp strategy hresolve w tr r w' hrun a ha i raw hraw hpath
      rw [recordedFamily, attempts_kept hstrategy hresolve hrun ha hraw hpath]
      exact hrecorded raw i strategy hresolve hraw
    · intro eng inp strategy hresolve w tr output w' hrun v tr' branches v' hread
      have hbackends := (readBranches_backend _ tr' _ v' hread).1 branches rfl
      have hfst : output.attempts.zipIdx.map (fun x => x.1.backend) =
          output.attempts.map Attempt.backend := by
        rw [← List.zipIdx_map_fst 0 output.attempts, List.map_map, List.zipIdx_map_fst]
        rfl
      apply forall₂_branches (hbackends.trans hfst)
      intro a ha b hb i raw hraw hpath
      rw [branchFamily, hb, attempts_kept hstrategy hresolve hrun ha hraw hpath]
      exact hrecorded raw i strategy hresolve hraw
    · rw [diverse_iff prompt hvalid hphase hstrategy]
      exact h.distinct.symm

end Phase

section Samples

/-- Three backends of three families, none of them behind the gateway. -/
def panelPhase : Grammar.Phase :=
  ⟨"panel", .parallelFanOut 2, ["claude/", "codex/", "ollama/glm-5.1"], "Go", [], "panel.md"⟩

theorem families_kept_panel : FamiliesKept Doc panelPhase none (configOf panelPhase "Go") := by
  have hdirect : ∀ raw ∈ panelPhase.backends, gatewayFunction raw = none := by decide
  have hvalid : Grammar.validate ⟨"panel", [panelPhase]⟩ = [] := by decide
  have hagree : FamiliesAgree panelPhase 2 := by
    constructor
    · intro _ raw hraw function hfunction
      rw [hdirect raw hraw] at hfunction
      cases hfunction
    · decide
  exact (families_kept_iff hvalid List.mem_cons_self rfl "Go" none).mpr hagree

/-- Two functions of the gateway, of two families. -/
def gatewayPhase : Grammar.Phase :=
  ⟨"pair", .parallelFanOut 2, ["tensorzero/loker_d1_google", "tensorzero/loker_d1_openai"], "Go",
    [], "pair.md"⟩

/-- A backend and a function of the gateway of the same family. -/
def mixedPhase : Grammar.Phase :=
  ⟨"mixed", .parallelFanOut 2, ["claude/", "tensorzero/loker_review_anthropic"], "Go", [],
    "mixed.md"⟩

/-- The families as they are counted and as they are documented. -/
lemma phases_counted :
    (enforceCrossFamily ((configOf gatewayPhase "Go").targets.map TargetSpec.backend) =
        .error ⟨.other "tensorzero", 2⟩ ∧
      enforceCrossFamily ((configOf mixedPhase "Go").targets.map TargetSpec.backend) = .ok ()) ∧
    (gatewayPhase.backends.map documentedFamily).Nodup ∧
      ¬ (mixedPhase.backends.map documentedFamily).Nodup := by decide +kernel

lemma gateway_counted : enforceCrossFamily ((configOf gatewayPhase "Go").targets.map
    TargetSpec.backend) = .error ⟨.other "tensorzero", 2⟩ := phases_counted.1.1

lemma mixed_counted : enforceCrossFamily ((configOf mixedPhase "Go").targets.map
    TargetSpec.backend) = .ok () := phases_counted.1.2

lemma gateway_not_kept : ¬ FamiliesKept Doc gatewayPhase none (configOf gatewayPhase "Go") := by
  intro h
  have hdistinct := phases_counted.2.1
  have hok := h.diverse.mpr hdistinct
  rw [gateway_counted] at hok
  cases hok

lemma mixed_not_kept : ¬ FamiliesKept Doc mixedPhase none (configOf mixedPhase "Go") := by
  intro h
  have hsame := phases_counted.2.2
  exact hsame (h.diverse.mp mixed_counted)

/-- The functions' families are lost: two of them count as one, and one that repeats a backend's
family counts as another. -/
theorem gateway_families_lost :
    Grammar.validate ⟨"lost", [gatewayPhase, mixedPhase]⟩ = [] ∧
      (documentedFamily "tensorzero/loker_d1_google").asStr = "google" ∧
      (familyOf (targetOf "tensorzero/loker_d1_google").backend).asStr = "other" ∧
      enforceCrossFamily ((configOf gatewayPhase "Go").targets.map TargetSpec.backend) =
        .error ⟨.other "tensorzero", 2⟩ ∧
      enforceCrossFamily ((configOf mixedPhase "Go").targets.map TargetSpec.backend) = .ok () ∧
      ¬ FamiliesKept Doc gatewayPhase none (configOf gatewayPhase "Go") ∧
      ¬ FamiliesKept Doc mixedPhase none (configOf mixedPhase "Go") := by
  have hvalid : Grammar.validate ⟨"lost", [gatewayPhase, mixedPhase]⟩ = [] := by decide +kernel
  have hgoogle : (documentedFamily "tensorzero/loker_d1_google").asStr = "google" := by
    decide +kernel
  have hother : (familyOf (targetOf "tensorzero/loker_d1_google").backend).asStr = "other" := by
    decide +kernel
  exact ⟨hvalid, hgoogle, hother, gateway_counted, mixed_counted, gateway_not_kept, mixed_not_kept⟩

end Samples

end Kept

end Loker.TargetFamilies
