import Loker.FanOut
import Loker.Vote

/-! The attempt that the manifest names for an artefact, and the attempt that its bytes come
from. -/

namespace Loker.Attribution

open FileTree TextOps Programs RunFiles RunLoad RunOps Dispatch Strategies PhaseRunner Concat
  FanOut Vote

section FanOuts

variable {B : Type} [RunFormat B] {inp : PhaseInputs} {eng : Engines} {w : World B}
  {aggregator : AggregatorName} {minResponses : ℕ} {st : FanState}

lemma writeOutput_written {name text parentFailure failure : String} :
    Finishes perform
      (fun _ w' => fileAt w'.disk (join inp.runDir name) = some (RunFormat.ofText text) ∧
        ∀ q, q ≠ join inp.runDir name → fileAt w'.disk q = fileAt w.disk q)
      (fun _ _ => True) (writeOutput inp name text parentFailure failure) w := by
  apply Finishes.bind
  refine Finishes.op fun answer w₁ h₁ => ?_
  rcases h₁ with ⟨t, hcreate, rfl, rfl⟩ | ⟨_, message, rfl⟩
  · apply Finishes.bind
    refine Finishes.op fun answer w₂ h₂ => ?_
    rcases h₂ with ⟨t', hwrite, rfl, rfl⟩ | ⟨_, message, rfl⟩
    · refine Finishes.pure ⟨writeFile_self hwrite, fun q hq => ?_⟩
      rw [writeFile_other hwrite hq, createDirAll_fileAt hcreate]
    · exact Finishes.throw trivial
  · exact Finishes.throw trivial

/-- A fan-out's attempt with the outcome it stands for; the output of one that succeeded is in
its file. -/
inductive Backed (inp : PhaseInputs) (w : World B) : Attempt → BranchOutcome → Prop
  | success {backend output : String} {idx i : ℕ}
      (stored : fileAt w.disk (branchPath inp idx) = some (RunFormat.ofText output)) :
      Backed inp w ⟨none, backend, .stop, branchOutput inp.phaseName idx, .skipped⟩
        (.success backend i output)
  | failure {backend : String} {idx i : ℕ} {reason : String} :
      Backed inp w ⟨none, backend, .error, branchOutput inp.phaseName idx, .skipped⟩
        (.failure backend i reason)

lemma Backed.congr {w' : World B} {a : Attempt} {b : BranchOutcome} (h : Backed inp w a b)
    (hfile : ∀ idx, a.outputPath = branchOutput inp.phaseName idx →
      fileAt w'.disk (branchPath inp idx) = fileAt w.disk (branchPath inp idx)) :
    Backed inp w' a b := by
  cases h with
  | success stored => exact .success (by rw [hfile _ rfl, stored])
  | failure => exact .failure

/-- No pending target writes the attempt's file. -/
def Passed (inp : PhaseInputs) (pending : List Query) (a : Attempt) : Prop :=
  ∀ q ∈ pending, a.outputPath ≠ branchOutput inp.phaseName q.index

structure Fanning (inp : PhaseInputs) (pending : List Query) (st : FanState) (w : World B) :
    Prop where
  nodup : (pending.map Query.index).Nodup
  backed : List.Forall₂ (fun a b => Backed inp w a b ∧ Passed inp pending a)
    st.attempts st.branches

omit [RunFormat B] in
lemma branchOutput_inj {phase : String} {i j : ℕ}
    (h : branchOutput phase i = branchOutput phase j) : i = j := by
  have hpath : branchPath ⟨[], none, phase, none, [], ""⟩ i =
      branchPath ⟨[], none, phase, none, [], ""⟩ j := by
    simp only [branchPath, h]
  exact branchPath_inj hpath

/-- One more target has completed. -/
lemma Fanning.step {pending : List Query} {w' : World B} {a : Attempt} {b : BranchOutcome}
    {idx successes : ℕ} (h : Fanning inp pending st w) (hidx : idx ∈ pending.map Query.index)
    (hpath : a.outputPath = branchOutput inp.phaseName idx) (hbacked : Backed inp w' a b)
    (hothers : ∀ q, q ≠ branchPath inp idx → fileAt w'.disk q = fileAt w.disk q) :
    Fanning inp (pending.filter (·.index ≠ idx))
      ⟨st.attempts ++ [a], successes, st.branches ++ [b]⟩ w' := by
  obtain ⟨q₀, hq₀, rfl⟩ := List.mem_map.mp hidx
  constructor
  · exact h.nodup.sublist (List.filter_sublist.map _)
  · have hold : List.Forall₂ (fun a b => Backed inp w' a b ∧
        Passed inp (pending.filter (·.index ≠ q₀.index)) a) st.attempts st.branches := by
      refine h.backed.imp fun a' b' ha' => ⟨ha'.1.congr fun i hi => hothers _ ?_, ?_⟩
      · intro heq
        rw [branchPath_inj heq] at hi
        exact ha'.2 q₀ hq₀ hi
      · exact fun q hq => ha'.2 q (List.mem_of_mem_filter hq)
    have hnew : Passed inp (pending.filter (·.index ≠ q₀.index)) a := by
      intro q hq heq
      rw [hpath] at heq
      have hne := (List.mem_filter.mp hq).2
      exact absurd (branchOutput_inj heq).symm (by simpa using hne)
    exact List.rel_append hold (.cons ⟨hbacked, hnew⟩ .nil)

omit [RunFormat B] in
lemma filter_length {pending : List Query} {idx left : ℕ} (hleft : left + 1 = pending.length)
    (hnodup : (pending.map Query.index).Nodup) (hidx : idx ∈ pending.map Query.index) :
    left = (pending.filter (·.index ≠ idx)).length := by
  obtain ⟨q, hq, rfl⟩ := List.mem_map.mp hidx
  have hlength := (perm_cons_filter hq hnodup).length_eq
  rw [List.length_cons, ← hleft] at hlength
  exact Nat.succ.inj hlength

/-- Induction on the number of targets that are still waited for. -/
lemma collect_backed {targets : List TargetSpec} (left : ℕ) (pending : List Query)
    (hleft : left = pending.length) (h : Fanning inp pending st w) :
    Finishes perform (fun st' w' => List.Forall₂ (Backed inp w') st'.attempts st'.branches)
      (fun _ _ => True) (collect eng inp aggregator targets minResponses left pending st) w := by
  induction left generalizing pending st w with
  | zero => exact Finishes.pure (h.backed.imp fun _ _ hab => hab.1)
  | succ left ih =>
      have hne : pending ≠ [] := List.ne_nil_of_length_pos (by omega)
      apply Finishes.bind
      refine Finishes.op fun answer w₁ h₁ => ?_
      obtain ⟨idx, answered⟩ := answer
      obtain ⟨rfl, hidx⟩ := h₁
      have hmem := hidx hne
      have hcount := filter_length hleft h.nodup hmem
      cases htarget : targets[idx]? with
      | none =>
          simp only [htarget]
          exact Finishes.pure (h.backed.imp fun _ _ hab => hab.1)
      | some target =>
          simp only [htarget]
          cases answered with
          | error err =>
              dsimp only
              cases hfailed : branchFailed inp aggregator target idx err st with
              | error e => exact Finishes.throw trivial
              | ok st' =>
                  unfold branchFailed at hfailed
                  split at hfailed
                  · cases hfailed
                  · obtain rfl := Except.ok.inj hfailed
                    exact ih _ hcount (h.step hmem rfl .failure fun _ _ => rfl)
          | ok stdout =>
              apply Finishes.bind
              apply Finishes.bind
              refine Finishes.mono writeOutput_written (fun _ w₂ hwritten => ?_) fun _ _ => id
              have hnext : Fanning inp (pending.filter (·.index ≠ idx))
                  (branchAccepted inp target idx stdout st) w₂ :=
                h.step hmem rfl (.success hwritten.1) hwritten.2
              have haccepted : ∀ st', afterBranchWritten eng inp aggregator target idx stdout st =
                  .ok st' → st' = branchAccepted inp target idx stdout st := by
                intro st' hst'
                unfold afterBranchWritten at hst'
                split at hst'
                · cases hst'
                · exact (Except.ok.inj hst').symm
              cases hafter : afterBranchWritten eng inp aggregator target idx stdout st with
              | error e => exact Finishes.throw trivial
              | ok st' =>
                  rw [haccepted st' hafter]
                  refine Finishes.pure ?_
                  split
                  · exact Finishes.pure (hnext.backed.imp fun _ _ hab => hab.1)
                  · exact ih _ hcount hnext

/-- The output of a fan-out, and the file that a vote leaves beside it. -/
def FanResult (eng : Engines) (inp : PhaseInputs) (aggregator : AggregatorName)
    (output : StrategyOutput) (w : World B) : Prop :=
  ∃ attempts branches verify, output = fanOutput inp aggregator attempts verify ∧
    List.Forall₂ (Backed inp w) attempts branches ∧
    (aggregator = .vote → ∃ text, eng.aggregateVote branches = .ok text ∧
      fileAt w.disk (aggregatedPath inp) = some (RunFormat.ofText text))

lemma fanFinished_backed (h : List.Forall₂ (Backed inp w) st.attempts st.branches) :
    Finishes perform (FanResult eng inp aggregator) (fun _ _ => True)
      (fanFinished eng inp aggregator minResponses st) w := by
  unfold fanFinished
  split
  · next hany =>
    exact Finishes.pure ⟨_, _, _, rfl, h, fun hvote => by rw [hany] at hvote; cases hvote⟩
  split
  · exact Finishes.throw trivial
  split
  · unfold voteCollected
    cases hvote : eng.aggregateVote st.branches with
    | error detail => exact Finishes.throw trivial
    | ok text =>
        apply Finishes.bind
        refine Finishes.mono writeOutput_written (fun _ w' hwritten => ?_) fun _ _ => id
        refine Finishes.pure ⟨_, st.branches, _, rfl, ?_, fun _ => ⟨text, hvote, hwritten.1⟩⟩
        refine h.imp fun a b hab => hab.congr fun idx _ => hwritten.2 _ ?_
        exact branchPath_ne_aggregated
  · next hvote => exact Finishes.pure ⟨_, _, _, rfl, h, fun heq => absurd heq hvote⟩

omit [RunFormat B] in
lemma branchQueries_index {rendered : String} {targets : List TargetSpec} {queries : List Query}
    (h : branchQueries inp rendered targets = .ok queries) :
    queries.map Query.index = targets.zipIdx.map Prod.snd := by
  unfold branchQueries at h
  generalize targets.zipIdx = xs at h
  induction xs generalizing queries with
  | nil =>
      cases h
      rfl
  | cons x xs ih =>
      obtain ⟨q, rest, hfirst, hrest, rfl⟩ := mapM_cons_eq_ok.mp h
      have hindex : q.index = x.2 := by
        unfold branchQuery at hfirst
        cases hfind : findBackend inp x.1.backend with
        | error e =>
            rw [hfind] at hfirst
            cases hfirst
        | ok backend =>
            rw [hfind] at hfirst
            cases hfirst
            rfl
      rw [List.map_cons, List.map_cons, hindex, ih hrest]

lemma parallelFanOut_backed {targets : List TargetSpec} {template : String} :
    Finishes perform (FanResult eng inp aggregator) (fun _ _ => True)
      (parallelFanOut eng inp aggregator targets minResponses template) w := by
  unfold parallelFanOut
  split
  · exact Finishes.throw trivial
  apply Finishes.bind
  unfold renderPrompt
  cases eng.template template with
  | error e => exact Finishes.throw trivial
  | ok rendered =>
      refine Finishes.pure ?_
      cases hqueries : branchQueries inp rendered targets with
      | error e => exact Finishes.throw trivial
      | ok queries =>
          have hstart : Fanning inp queries ⟨[], 0, []⟩ w := by
            refine ⟨?_, .nil⟩
            rw [branchQueries_index hqueries, List.zipIdx_map_snd]
            exact List.nodup_range'
          apply Finishes.bind
          refine Finishes.mono (collect_backed queries.length queries rfl hstart)
            (fun st w' hbacked => fanFinished_backed hbacked) fun _ _ => id

lemma climb_plain {hook rendered : String} {passFailureContext : Bool} (idx : ℕ)
    (rungs : List PhaseRung) (attempts : List Attempt) (previous : Option FailureContext) :
    Finishes perform
      (fun output _ => output.aggregator = none ∧ output.aggregateOutputPath = none)
      (fun _ _ => True)
      (climb eng inp hook passFailureContext rendered idx rungs attempts previous) w := by
  induction rungs generalizing idx attempts previous w with
  | nil => exact Finishes.throw trivial
  | cons rung rungs ih =>
      unfold climb
      split
      · exact Finishes.throw trivial
      apply Finishes.bind
      refine Finishes.op fun answer w₁ h₁ => ?_
      cases answer with
      | error e => exact ih _ _ _
      | ok stdout =>
          apply Finishes.bind
          refine Finishes.mono Finishes.any (fun ended w₂ _ => ?_) fun _ _ => id
          cases ended with
          | passed => exact Finishes.pure ⟨rfl, rfl⟩
          | failed verify failure => exact ih _ _ _

/-- Only a fan-out's output has an aggregate. -/
lemma execute_backed {strategy : Strategy String} :
    Finishes perform
      (fun output w' => (output.aggregator = none ∧ output.aggregateOutputPath = none) ∨
        ∃ aggregator, FanResult eng inp aggregator output w')
      (fun _ _ => True) (execute eng inp strategy) w := by
  cases strategy with
  | parallelFanOut targets minResponses template aggregator =>
      exact Finishes.mono parallelFanOut_backed (fun _ _ h => Or.inr ⟨aggregator, h⟩)
        fun _ _ => id
  | singleModel backend template =>
      change Finishes perform _ _ (singleModel eng inp backend template) w
      unfold singleModel
      split
      · exact Finishes.throw trivial
      split
      · exact Finishes.throw trivial
      apply Finishes.bind
      unfold renderPrompt
      cases eng.template template with
      | error e => exact Finishes.throw trivial
      | ok rendered =>
          refine Finishes.pure ?_
          apply Finishes.bind
          refine Finishes.op fun answer w₁ h₁ => ?_
          cases answer with
          | error e => exact Finishes.throw trivial
          | ok stdout =>
              apply Finishes.bind
              refine Finishes.mono Finishes.any (fun _ w₂ _ => ?_) fun _ _ => id
              exact Finishes.pure (Or.inl ⟨rfl, rfl⟩)
  | escalatingRetry rungs template hook passFailureContext =>
      change Finishes perform _ _
        (escalatingRetry eng inp hook passFailureContext rungs template) w
      unfold escalatingRetry
      split
      · exact Finishes.throw trivial
      apply Finishes.bind
      unfold renderPrompt
      cases eng.template template with
      | error e => exact Finishes.throw trivial
      | ok rendered =>
          refine Finishes.pure ?_
          refine Finishes.mono (climb_plain _ _ _ _) (fun output w' h => Or.inl h) fun _ _ => id

end FanOuts

section Source

variable {B : Type} [TextFormat B] (lib : Library) (eng : Engines) (runDir : Path)
  (output : StrategyOutput) (aggregator : AggregatorName) (w : World B)

def attemptFile (a : Attempt) : Option B := fileAt w.disk (resolveOutputPath runDir a.outputPath)

/-- The outcome of an attempt as its file shows it. -/
def branchAt (x : Attempt × ℕ) : BranchOutcome :=
  match (attemptFile runDir w x.1).bind RunFormat.toText, succeeded x.1 with
  | some text, true => .success x.1.backend (x.2 + 1) text
  | _, _ => .failure x.1.backend (x.2 + 1) "backend error"

def branchesAt : List BranchOutcome := output.attempts.zipIdx.map (branchAt runDir w)

/-- These aggregators put the outputs of all attempts together. -/
def folds : AggregatorName → Bool
  | .concat | .allPass => true
  | _ => false

/-- The aggregator's text of all attempts. -/
def Folded (bytes : B) : Prop :=
  ∃ text, eng.aggregate aggregator (branchesAt runDir output w) = .ok text ∧
    bytes = RunFormat.ofText text

/-- The bytes come from the attempt: a vote has elected it, or they are its output. No attempt
of its own stands for a text that all attempts were put together to. -/
def ComesFrom (bytes : B) (idx : ℕ) : Prop :=
  if output.aggregator = some .vote then
    ∃ c, electedCandidate lib namedVote (branchesAt runDir output w) = some c ∧
      c.arrivalOrder = idx
  else if folds aggregator then Folded eng runDir output aggregator w bytes
  else ∃ a, output.attempts[idx]? = some a ∧ succeeded a ∧ attemptFile runDir w a = some bytes

/-- The attempt is the last one that succeeded. -/
def LastSuccess (i : ℕ) (a : Attempt) : Prop :=
  output.attempts[i]? = some a ∧ succeeded a ∧
    ∀ j a', i < j → output.attempts[j]? = some a' → succeeded a' = false

/-- The file at the path of the result's aggregate. -/
def aggregateFile : Option B :=
  output.aggregateOutputPath.bind fun path => fileAt w.disk (resolveOutputPath runDir path)

/-- A vote has elected the last attempt that succeeded. Otherwise no file is at the path of the
aggregate, unless it has what would be written there in its absence. -/
def Attributable : Prop :=
  if output.aggregator = some .vote then
    ∃ c a, electedCandidate lib namedVote (branchesAt runDir output w) = some c ∧
      LastSuccess output c.arrivalOrder a
  else ∀ bytes, aggregateFile runDir output w = some bytes →
    if folds aggregator then Folded eng runDir output aggregator w bytes
    else ∃ i a, LastSuccess output i a ∧ attemptFile runDir w a = some bytes

end Source

section Last

lemma lastWinning_concat (attempts : List Attempt) (a : Attempt) :
    lastWinning (attempts ++ [a]) =
      if winning a then some (a, attempts.length) else lastWinning attempts := by
  unfold lastWinning
  rw [List.zipIdx_append, List.zipIdx_singleton, List.reverse_append, List.reverse_singleton,
    List.singleton_append, List.find?_cons, Nat.zero_add]
  cases winning a <;> rfl

/-- Induction on the attempts, from the last one. -/
lemma lastWinning_eq_some {attempts : List Attempt} {a : Attempt} {i : ℕ}
    (h : lastWinning attempts = some (a, i)) :
    attempts[i]? = some a ∧ winning a = true ∧
      ∀ j a', i < j → attempts[j]? = some a' → winning a' = false := by
  induction attempts using List.reverseRecOn with
  | nil => cases h
  | append_singleton attempts last ih =>
      rw [lastWinning_concat] at h
      split at h
      · next hlast =>
        obtain ⟨rfl, rfl⟩ := Prod.mk.inj (Option.some.inj h)
        refine ⟨by simp, hlast, fun j a' hj ha' => ?_⟩
        have hlen := (List.getElem?_eq_some_iff.mp ha').1
        rw [List.length_append, List.length_singleton] at hlen
        omega
      · next hlast =>
        obtain ⟨hget, hwin, hafter⟩ := ih h
        have hi := (List.getElem?_eq_some_iff.mp hget).1
        refine ⟨by rw [List.getElem?_append_left hi, hget], hwin, fun j a' hj ha' => ?_⟩
        have hlen := (List.getElem?_eq_some_iff.mp ha').1
        rw [List.length_append, List.length_singleton] at hlen
        rcases Nat.lt_succ_iff_lt_or_eq.mp hlen with hbefore | rfl
        · rw [List.getElem?_append_left hbefore] at ha'
          exact hafter j a' hj ha'
        · rw [List.getElem?_concat_length] at ha'
          cases ha'
          simpa using hlast

lemma lastWinning_isSome {attempts : List Attempt} {a : Attempt} (ha : a ∈ attempts)
    (hwin : winning a = true) : ∃ x, lastWinning attempts = some x := by
  induction attempts using List.reverseRecOn with
  | nil => cases ha
  | append_singleton attempts last ih =>
      rw [lastWinning_concat]
      split
      · exact ⟨_, rfl⟩
      · next hlast =>
        rcases List.mem_append.mp ha with hold | hnew
        · exact ih hold
        · obtain rfl := List.mem_singleton.mp hnew
          exact absurd hwin hlast

variable {output : StrategyOutput}

/-- No attempt has been judged by a hook. -/
def Unjudged (output : StrategyOutput) : Prop := ∀ a ∈ output.attempts, winning a = succeeded a

lemma lastSuccess_iff (h : Unjudged output) {i : ℕ} {a : Attempt} :
    LastSuccess output i a ↔ lastWinning output.attempts = some (a, i) := by
  constructor
  · rintro ⟨hget, hsucceeded, hafter⟩
    have hmem := List.mem_of_getElem? hget
    obtain ⟨⟨a', i'⟩, hlast⟩ := lastWinning_isSome hmem (by rw [h a hmem, hsucceeded])
    obtain ⟨hget', hwin', hafter'⟩ := lastWinning_eq_some hlast
    have hmem' := List.mem_of_getElem? hget'
    rcases Nat.lt_trichotomy i i' with hlt | rfl | hlt
    · have hno := hafter i' a' hlt hget'
      rw [← h a' hmem', hwin'] at hno
      cases hno
    · rw [hget] at hget'
      cases hget'
      exact hlast
    · have hno := hafter' i a hlt hget
      rw [h a hmem, hsucceeded] at hno
      cases hno
  · intro hlast
    obtain ⟨hget, hwin, hafter⟩ := lastWinning_eq_some hlast
    refine ⟨hget, ?_, fun j a' hj ha' => ?_⟩
    · rw [← h a (List.mem_of_getElem? hget), hwin]
    · rw [← h a' (List.mem_of_getElem? ha'), hafter j a' hj ha']

/-- The attempt that the manifest names of an aggregate. -/
lemma selected_iff (h : Unjudged output) {i : ℕ} :
    (∃ a, LastSuccess output i a) ↔ selectedAttemptIndex output = i ∧
      ∃ a, output.attempts[i]? = some a ∧ succeeded a := by
  constructor
  · rintro ⟨a, hlast⟩
    refine ⟨?_, a, hlast.1, hlast.2.1⟩
    rw [lastSuccess_iff h] at hlast
    rw [selectedAttemptIndex, hlast]
    rfl
  · rintro ⟨rfl, a, hget, hsucceeded⟩
    have hmem := List.mem_of_getElem? hget
    obtain ⟨⟨a', i'⟩, hlast⟩ := lastWinning_isSome hmem (by rw [h a hmem, hsucceeded])
    have hindex : selectedAttemptIndex output = i' := by
      rw [selectedAttemptIndex, hlast]
      rfl
    rw [hindex]
    exact ⟨a', (lastSuccess_iff h).mpr hlast⟩

end Last

section Canonical

variable {B : Type} [TextFormat B] {lib : Library} {eng : Engines} {inp : PhaseInputs}
  {runDir : Path} {output : StrategyOutput} {aggregator : AggregatorName} {w : World B}

lemma readOr_reads {p : Path} :
    Finishes perform (fun bytes w' => w' = w ∧ fileAt w.disk p = some bytes) (fun _ _ => True)
      (readOr p : Run B PhaseError B) w := by
  apply Finishes.bind
  refine Finishes.op fun answer w₁ h₁ => ?_
  obtain ⟨rfl, hread⟩ := h₁
  cases hanswer : (show Except String B from answer) with
  | error message =>
      subst hanswer
      exact Finishes.throw trivial
  | ok bytes =>
      subst hanswer
      exact Finishes.pure ⟨rfl, hread bytes rfl⟩

lemma readBranches_at (xs : List (Attempt × ℕ)) :
    Finishes perform (fun branches w' => w' = w ∧ branches = xs.map (branchAt runDir w))
      (fun _ _ => True) (readBranches runDir xs : Run B PhaseError (List BranchOutcome)) w := by
  induction xs with
  | nil => exact Finishes.pure ⟨rfl, rfl⟩
  | cons x xs ih =>
      have hfirst : Finishes perform
          (fun branch w' => w' = w ∧ branch = branchAt runDir w x) (fun _ _ => True)
          (readBranch runDir x : Run B PhaseError BranchOutcome) w := by
        unfold readBranch
        split
        · next hsucceeded =>
          apply Finishes.bind
          refine Finishes.mono readOr_reads (fun bytes w₁ h₁ => ?_) fun _ _ => id
          obtain ⟨rfl, hfile⟩ := h₁
          cases htext : RunFormat.toText bytes with
          | none => exact Finishes.throw trivial
          | some text =>
              refine Finishes.pure ⟨rfl, ?_⟩
              simp [branchAt, attemptFile, hfile, htext, hsucceeded]
        · next hfailed =>
          refine Finishes.pure ⟨rfl, ?_⟩
          simp only [branchAt]
          split
          · next hyes => exact absurd hyes hfailed
          · rfl
      apply Finishes.bind
      refine Finishes.mono hfirst (fun branch w₁ h₁ => ?_) fun _ _ => id
      obtain ⟨rfl, rfl⟩ := h₁
      apply Finishes.bind
      refine Finishes.mono ih (fun branches w₂ h₂ => ?_) fun _ _ => id
      obtain ⟨rfl, rfl⟩ := h₂
      exact Finishes.pure ⟨rfl, rfl⟩

/-- Bytes that are no aggregate are one attempt's output or made of all attempts. -/
def FromAttempt (eng : Engines) (runDir : Path) (output : StrategyOutput)
    (aggregator : AggregatorName) (w : World B) (x : B × ℕ) : Prop :=
  if folds aggregator then Folded eng runDir output aggregator w x.1
  else ∃ a, output.attempts[x.2]? = some a ∧ succeeded a ∧ attemptFile runDir w a = some x.1

lemma attemptBytes_from {chosen : Option (Attempt × ℕ)}
    (hchosen : ∀ x, chosen = some x → output.attempts[x.2]? = some x.1 ∧ succeeded x.1) :
    Finishes perform (fun x _ => ∃ a, output.attempts[x.2]? = some a ∧ succeeded a ∧
        attemptFile runDir w a = some x.1) (fun _ _ => True)
      (attemptBytes runDir output chosen : Run B PhaseError (B × ℕ)) w := by
  cases chosen with
  | none => exact Finishes.throw trivial
  | some x =>
      obtain ⟨hget, hsucceeded⟩ := hchosen x rfl
      apply Finishes.bind
      refine Finishes.mono readOr_reads (fun bytes w₁ h₁ => ?_) fun _ _ => id
      exact Finishes.pure ⟨x.1, hget, hsucceeded, h₁.2⟩

lemma aggregateAttempts_folded :
    Finishes perform (fun x _ => Folded eng runDir output aggregator w x.1) (fun _ _ => True)
      (aggregateAttempts eng runDir output aggregator : Run B PhaseError (B × ℕ)) w := by
  apply Finishes.bind
  refine Finishes.mono (readBranches_at _) (fun branches w₁ h₁ => ?_) fun _ _ => id
  obtain ⟨rfl, rfl⟩ := h₁
  cases htext : eng.aggregate aggregator (output.attempts.zipIdx.map (branchAt runDir w₁)) with
  | error detail => exact Finishes.throw trivial
  | ok text => exact Finishes.pure ⟨text, htext, rfl⟩

lemma firstSuccess_chosen {attempts : List Attempt} {x : Attempt × ℕ}
    (h : attempts.zipIdx.find? (fun x => succeeded x.1) = some x) :
    attempts[x.2]? = some x.1 ∧ succeeded x.1 := by
  have hsucceeded := List.find?_some h
  exact ⟨List.mem_zipIdx_iff_getElem?.mp (List.mem_of_find?_eq_some h), hsucceeded⟩

lemma lastWinning_chosen {attempts : List Attempt} {x : Attempt × ℕ}
    (h : lastWinning attempts = some x) : attempts[x.2]? = some x.1 ∧ succeeded x.1 := by
  obtain ⟨hget, hwin, _⟩ := lastWinning_eq_some h
  exact ⟨hget, (Bool.and_eq_true_iff.mp hwin).1⟩

lemma aggregatedBytes_from :
    Finishes perform (fun x _ => FromAttempt eng runDir output aggregator w x) (fun _ _ => True)
      (aggregatedBytes eng runDir output aggregator : Run B PhaseError (B × ℕ)) w := by
  cases aggregator with
  | first => exact attemptBytes_from fun x hx => lastWinning_chosen hx
  | concat => exact aggregateAttempts_folded
  | allPass => exact aggregateAttempts_folded
  | anyFail => exact attemptBytes_from fun x hx => firstSuccess_chosen hx
  | vote => exact attemptBytes_from fun x hx => firstSuccess_chosen hx

/-- The file at the aggregate's path goes before the attempts, with the last winning attempt as
its source. -/
lemma canonicalBytes_from :
    Finishes perform
      (fun x _ => (∃ bytes, aggregateFile runDir output w = some bytes ∧
          x = (bytes, selectedAttemptIndex output)) ∨
        aggregateFile runDir output w = none ∧ FromAttempt eng runDir output aggregator w x)
      (fun _ _ => True)
      (canonicalBytes eng runDir output aggregator : Run B PhaseError (B × ℕ)) w := by
  unfold canonicalBytes
  split
  · next hpath =>
    refine Finishes.mono aggregatedBytes_from (fun x _ hx => Or.inr ⟨?_, hx⟩) fun _ _ => id
    rw [aggregateFile, hpath]
    rfl
  · next path hpath =>
    have hfile : aggregateFile runDir output w = fileAt w.disk (resolveOutputPath runDir path) := by
      rw [aggregateFile, hpath]
      rfl
    rw [hfile]
    apply Finishes.bind
    refine Finishes.op (S := RunSig B) (o := .isFile _) fun there w₁ h₁ => ?_
    obtain ⟨rfl, hthere⟩ := h₁
    have hanswer : there = (fileAt w₁.disk (resolveOutputPath runDir path)).isSome := hthere
    rw [hanswer]
    cases hbytes : fileAt w₁.disk (resolveOutputPath runDir path) with
    | none =>
        exact Finishes.mono aggregatedBytes_from (fun x _ hx => Or.inr ⟨rfl, hx⟩) fun _ _ => id
    | some bytes =>
        apply Finishes.bind
        refine Finishes.mono readOr_reads (fun read w₂ h₂ => ?_) fun _ _ => id
        obtain ⟨rfl, hread⟩ := h₂
        rw [hbytes] at hread
        cases hread
        exact Finishes.pure (Or.inl ⟨_, rfl, rfl⟩)

/-- The results of strategies: no aggregate, or a fan-out's. -/
def StrategyResult (eng : Engines) (inp : PhaseInputs) (output : StrategyOutput) (w : World B) :
    Prop :=
  (output.aggregator = none ∧ output.aggregateOutputPath = none) ∨
    ∃ aggregator, FanResult eng inp aggregator output w

lemma Backed.unjudged {a : Attempt} {b : BranchOutcome} (h : Backed inp w a b) :
    winning a = succeeded a := by
  cases h with
  | success stored => rfl
  | failure => rfl

lemma forall₂_left {α β : Type} {R : α → β → Prop} {P : α → Prop} {xs : List α} {ys : List β}
    (h : List.Forall₂ R xs ys) (hP : ∀ x y, R x y → P x) : ∀ x ∈ xs, P x := by
  induction h with
  | nil => exact nofun
  | cons hxy _ ih => exact List.forall_mem_cons.mpr ⟨hP _ _ hxy, ih⟩

/-- The files show the outcomes that the vote was held on. -/
lemma branchesAt_same {attempts : List Attempt} {branches : List BranchOutcome}
    (h : List.Forall₂ (Backed inp w) attempts branches) :
    List.Forall₂ SameBallot (attempts.zipIdx.map (branchAt inp.runDir w)) branches := by
  generalize 0 = k
  induction h generalizing k with
  | nil => exact .nil
  | @cons a b attempts branches hab _ ih =>
      rw [List.zipIdx_cons, List.map_cons]
      refine .cons ?_ (ih (k + 1))
      cases hab with
      | @success backend text idx i stored =>
          have hfile : attemptFile inp.runDir w
              ⟨none, backend, .stop, branchOutput inp.phaseName idx, .skipped⟩ =
              some (RunFormat.ofText text) := stored
          simp only [branchAt, hfile, Option.bind_some, TextFormat.toText_ofText]
          exact .success
      | @failure backend idx i reason =>
          have hfailed : succeeded
              ⟨none, backend, .error, branchOutput inp.phaseName idx, .skipped⟩ = false := rfl
          simp only [branchAt, hfailed]
          split
          · next hyes => cases hyes
          · exact .failure

lemma fan_unjudged {attempts : List Attempt} {branches : List BranchOutcome}
    {verify : VerifyOutcome} (h : List.Forall₂ (Backed inp w) attempts branches) :
    Unjudged (fanOutput inp aggregator attempts verify) :=
  forall₂_left h fun _ _ hab => hab.unjudged

lemma backed_succeeded {attempts : List Attempt} {branches : List BranchOutcome}
    (h : List.Forall₂ (Backed inp w) attempts branches) {i index : ℕ} {backend text : String}
    (hbranch : branches[i]? = some (.success backend index text)) :
    ∃ a, attempts[i]? = some a ∧ succeeded a := by
  induction h generalizing i with
  | nil => cases hbranch
  | @cons a b attempts branches hab _ ih =>
      cases i with
      | zero =>
          obtain rfl : b = .success backend index text := Option.some.inj hbranch
          refine ⟨a, rfl, ?_⟩
          cases hab with
          | success stored => rfl
      | succ i => exact ih hbranch

/-- Of a vote the last attempt that succeeded is named. -/
lemma vote_comesFrom_iff {attempts : List Attempt} {branches : List BranchOutcome}
    {verify : VerifyOutcome} {text : String} {bytes : B}
    (hbacked : List.Forall₂ (Backed inp w) attempts branches)
    (htext : voteText lib branches = .ok text) :
    let output := fanOutput inp .vote attempts verify
    ComesFrom lib eng inp.runDir output aggregator w bytes (selectedAttemptIndex output) ↔
      Attributable lib eng inp.runDir output aggregator w := by
  intro output
  have hlabel : output.aggregator = some .vote := rfl
  obtain ⟨c, helected, hmem, _⟩ := voteText_ok htext
  have hsame : electedCandidate lib namedVote (branchesAt inp.runDir output w) = some c := by
    rw [← helected]
    exact electedCandidate_congr (branchesAt_same hbacked)
  obtain ⟨index, hbranch⟩ := candidate_branch hmem
  have hvoter := backed_succeeded hbacked hbranch
  have hselected : (∃ a, LastSuccess output c.arrivalOrder a) ↔
      selectedAttemptIndex output = c.arrivalOrder ∧
        ∃ a, output.attempts[c.arrivalOrder]? = some a ∧ succeeded a :=
    selected_iff (fan_unjudged hbacked)
  rw [ComesFrom, if_pos hlabel, Attributable, if_pos hlabel, hsame]
  constructor
  · rintro ⟨c', hc', hindex⟩
    cases hc'
    obtain ⟨a, hlast⟩ := hselected.mpr ⟨hindex.symm, hvoter⟩
    exact ⟨c, a, rfl, hlast⟩
  · rintro ⟨c', a, hc', hlast⟩
    cases hc'
    exact ⟨c, rfl, (hselected.mp ⟨a, hlast⟩).1.symm⟩

/-- A file that lies at the aggregate's path without a vote is taken for the last attempt's
output. -/
lemma stale_comesFrom_iff {attempts : List Attempt} {branches : List BranchOutcome}
    {aggregator' : AggregatorName} {verify : VerifyOutcome} {bytes : B} (hv : aggregator' ≠ .vote)
    (hbacked : List.Forall₂ (Backed inp w) attempts branches) :
    let output := fanOutput inp aggregator' attempts verify
    aggregateFile inp.runDir output w = some bytes →
    (ComesFrom lib eng inp.runDir output aggregator w bytes (selectedAttemptIndex output) ↔
      Attributable lib eng inp.runDir output aggregator w) := by
  intro output hfile
  have hlabel : output.aggregator ≠ some .vote := fun heq => hv (Option.some.inj heq)
  have hselected : ∀ i, (∃ a, LastSuccess output i a) ↔ selectedAttemptIndex output = i ∧
      ∃ a, output.attempts[i]? = some a ∧ succeeded a := fun i =>
    selected_iff (fan_unjudged hbacked)
  rw [ComesFrom, if_neg hlabel, Attributable, if_neg hlabel, hfile]
  constructor
  · rintro hfrom bytes' hbytes
    cases hbytes
    split
    · next hfolds => rwa [if_pos hfolds] at hfrom
    · next hfolds =>
      rw [if_neg hfolds] at hfrom
      obtain ⟨a, hget, hsucceeded, hread⟩ := hfrom
      obtain ⟨a', hlast⟩ := (hselected _).mpr ⟨rfl, a, hget, hsucceeded⟩
      have hsame := hlast.1
      rw [hget] at hsame
      cases hsame
      exact ⟨_, a, hlast, hread⟩
  · intro hcond
    have hbytes := hcond bytes rfl
    split
    · next hfolds => rwa [if_pos hfolds] at hbytes
    · next hfolds =>
      rw [if_neg hfolds] at hbytes
      obtain ⟨i, a, hlast, hread⟩ := hbytes
      rw [((hselected i).mp ⟨a, hlast⟩).1]
      exact ⟨a, hlast.1, hlast.2.1, hread⟩

/-- The named attempt is the one that the bytes come from exactly when the condition holds. -/
lemma comesFrom_iff {x : B × ℕ} (heng : eng.aggregateVote = voteText lib)
    (hresult : StrategyResult eng inp output w)
    (hcanonical : (∃ bytes, aggregateFile inp.runDir output w = some bytes ∧
        x = (bytes, selectedAttemptIndex output)) ∨
      aggregateFile inp.runDir output w = none ∧
        FromAttempt eng inp.runDir output aggregator w x) :
    ComesFrom lib eng inp.runDir output aggregator w x.1 x.2 ↔
      Attributable lib eng inp.runDir output aggregator w := by
  have hplain : output.aggregator ≠ some .vote → aggregateFile inp.runDir output w = none →
      FromAttempt eng inp.runDir output aggregator w x →
      (ComesFrom lib eng inp.runDir output aggregator w x.1 x.2 ↔
        Attributable lib eng inp.runDir output aggregator w) := by
    intro hlabel hfile hfrom
    rw [ComesFrom, if_neg hlabel, Attributable, if_neg hlabel, hfile]
    exact iff_of_true hfrom nofun
  rcases hresult with ⟨hnone, hpath⟩ |
    ⟨aggregator', attempts, branches, verify, rfl, hbacked, hvote⟩
  · have hfile : aggregateFile inp.runDir output w = none := by
      rw [aggregateFile, hpath]
      rfl
    rcases hcanonical with ⟨bytes, hsome, _⟩ | ⟨_, hfrom⟩
    · rw [hfile] at hsome
      cases hsome
    · refine hplain ?_ hfile hfrom
      rw [hnone]
      nofun
  · by_cases hv : aggregator' = .vote
    · subst hv
      obtain ⟨text, htext, hthere⟩ := hvote rfl
      rw [heng] at htext
      rcases hcanonical with ⟨bytes, _, rfl⟩ | ⟨hnone, _⟩
      · exact vote_comesFrom_iff hbacked htext
      · rw [show aggregateFile inp.runDir (fanOutput inp .vote attempts verify) w =
          some (RunFormat.ofText text) from hthere] at hnone
        cases hnone
    · rcases hcanonical with ⟨bytes, hfile, rfl⟩ | ⟨hfile, hfrom⟩
      · exact stale_comesFrom_iff hv hbacked hfile
      · exact hplain (fun heq => hv (Option.some.inj heq)) hfile hfrom

end Canonical

section PhaseRuns

variable {B : Type} [TextFormat B] {lib : Library} {eng : Engines} {cfg : PhaseConfig}
  {inp : PhaseInputs} {n : ℕ} {w w' : World B} {tr : List (Event (RunSig B))}

lemma failWith_fails {ρ : Type} {runDir : Path} {attemptsMade : ℕ} {e : PhaseError} {x : ρ}
    (h : Runs (ρ := Except PhaseError ρ) perform (failWith runDir cfg attemptsMade e) w tr (.ok x)
      w') : False := by
  have hachieves : Achieves perform (fun _ _ => False)
      (failWith runDir cfg attemptsMade e : Run B PhaseError ρ) w := failWith_achieves
  exact hachieves _ _ _ h

lemma runStrategy_run {strategy : Strategy String} {output : StrategyOutput}
    (h : Runs (ρ := Except PhaseError StrategyOutput) perform
      (runStrategy eng cfg inp n strategy) w tr (.ok output) w') :
    ∃ tr', Runs (ρ := Except StrategyError StrategyOutput) perform (execute eng inp strategy) w tr'
      (.ok output) w' := by
  rcases runs_exceptBind h with ⟨e, he, _⟩ | ⟨r, tr₁, tr₂, w₁, hattempt, hrest, _⟩
  · cases he
  · obtain ⟨x, hx, hexecute⟩ := runs_attempt hattempt
    obtain rfl := Except.ok.inj hx
    cases r with
    | ok output' =>
        obtain ⟨_, hret, rfl⟩ := runs_ret.mp hrest
        cases hret
        exact ⟨tr₁, hexecute⟩
    | error e =>
        exact (failWith_fails hrest).elim

lemma runCanonical_run {output : StrategyOutput} {x : B × ℕ}
    (h : Runs (ρ := Except PhaseError (B × ℕ)) perform
      (runCanonical eng cfg inp n output) w tr (.ok x) w') :
    ∃ tr₁ w₁, PassesThrough (ρ := Except PhaseError (B × ℕ)) (ι := Except PhaseError (B × ℕ))
      perform (runCanonical eng cfg inp n output) w tr (.ok x) w'
      (canonicalBytes eng inp.runDir output cfg.aggregator) w tr₁ (.ok x) w₁ := by
  rcases runs_exceptBind h with ⟨e, he, _⟩ | ⟨r, tr₁, tr₂, w₁, hattempt, hrest, rfl⟩
  · cases he
  · obtain ⟨y, tr₃, tr₄, w₂, hcanonical, hvalue, rfl⟩ := runs_bind hattempt
    obtain ⟨_, hy, _⟩ := runs_ret.mp hvalue
    obtain rfl := Except.ok.inj hy
    cases y with
    | ok x' =>
        obtain ⟨_, hret, _⟩ := runs_ret.mp hrest
        cases hret
        have hpart : PassesThrough (ρ := Except PhaseError (Except PhaseError (B × ℕ)))
            (ι := Except PhaseError (B × ℕ)) perform (attemptCanonical eng cfg inp output) w
            (tr₃ ++ tr₄) (.ok (.ok x)) w₁
            (canonicalBytes eng inp.runDir output cfg.aggregator) w tr₃ (.ok x) w₂ :=
          .first hcanonical hvalue
        exact ⟨tr₃, w₂, hpart.left hrest⟩
    | error e =>
        exact (failWith_fails hrest).elim

/-- A phase that gets to its commit has run its strategy and marked the attempts before it
computes its artefact. -/
lemma attemptPhase_run {output : StrategyOutput} {verify : Option HookResult} {bytes : B}
    {attempt : ℕ}
    (h : Runs (ρ := Except PhaseError (StrategyOutput × Option HookResult × B × ℕ)) perform
      (attemptPhase eng cfg inp n) w tr (.ok (output, verify, bytes, attempt)) w') :
    ∃ strategy w₀ tr₀ w₁ tr₁ w₂ tr₂ w₃ idx is,
      Runs (ρ := Except StrategyError StrategyOutput) perform (execute eng inp strategy) w₀ tr₀
        (.ok output) w₁ ∧
      Runs (ρ := Except PhaseError Unit) perform (startAttempts cfg inp n is) w₁ tr₁ (.ok ()) w₂ ∧
      PassesThrough (ρ := Except PhaseError (StrategyOutput × Option HookResult × B × ℕ))
        (ι := Except PhaseError (B × ℕ)) perform (attemptPhase eng cfg inp n) w tr
        (.ok (output, verify, bytes, attempt)) w'
        (canonicalBytes eng inp.runDir output cfg.aggregator) w₂ tr₂ (.ok (bytes, idx)) w₃ ∧
      attempt = n + idx := by
  rcases runs_exceptBind h with ⟨e, he, _⟩ | ⟨_, _, _, _, hvalid, h₁, rfl⟩
  · cases he
  rcases runs_exceptBind h₁ with ⟨e, he, _⟩ | ⟨_, _, _, _, hstart, h₂, rfl⟩
  · cases he
  rcases runs_exceptBind h₂ with ⟨e, he, _⟩ | ⟨strategy, _, _, w₀, hresolve, h₃, rfl⟩
  · cases he
  rcases runs_exceptBind h₃ with ⟨e, he, _⟩ | ⟨output', _, _, w₁, hstrategy, h₄, rfl⟩
  · cases he
  rcases runs_exceptBind h₄ with ⟨e, he, _⟩ | ⟨_, tr₁, _, w₂, hmarks, h₅, rfl⟩
  · cases he
  rcases runs_exceptBind h₅ with ⟨e, he, _⟩ | ⟨⟨bytes', idx⟩, _, _, w₃, hcanonical, h₆, rfl⟩
  · cases he
  rcases runs_exceptBind h₆ with ⟨e, he, _⟩ | ⟨_, _, _, _, _, h₇, _⟩
  · cases he
  obtain ⟨_, hret, _⟩ := runs_ret.mp h₇
  cases hret
  obtain ⟨tr₀, hexecute⟩ := runStrategy_run hstrategy
  obtain ⟨tr₂, w₄, hbytes⟩ := runCanonical_run hcanonical
  exact ⟨strategy, w₀, tr₀, w₁, tr₁, w₂, tr₂, w₄, idx, _, hexecute, hmarks,
    .right hvalid (.right hstart (.right hresolve (.right hstrategy (.right hmarks
      (hbytes.left h₆))))), rfl⟩

lemma commit_entry {output : StrategyOutput} {verify : Option HookResult} {bytes : B}
    {attempt : ℕ} :
    Finishes perform (fun outcome _ => outcome.strategyOutput = output ∧
        outcome.manifestEntry = fromPayload cfg attempt bytes) (fun _ _ => True)
      (commit cfg inp output verify bytes attempt) w := by
  apply Finishes.bind
  have hentry : Finishes perform (fun entry _ => entry = fromPayload cfg attempt bytes)
      (fun _ _ => True) (commitSuccess inp.runDir cfg bytes attempt inp.runId) w := by
    apply Finishes.bind
    refine Finishes.mono Finishes.any (fun _ w₁ _ => ?_) fun _ _ => id
    apply Finishes.bind
    refine Finishes.mono Finishes.any (fun _ w₂ _ => ?_) fun _ _ => id
    apply Finishes.bind
    refine Finishes.mono Finishes.any (fun _ w₃ _ => ?_) fun _ _ => id
    apply Finishes.bind
    refine Finishes.mono Finishes.any (fun _ w₄ _ => ?_) fun _ _ => id
    apply Finishes.bind
    refine Finishes.mono Finishes.any (fun _ w₅ _ => ?_) fun _ _ => id
    exact Finishes.pure rfl
  refine Finishes.mono hentry (fun entry w₁ h₁ => ?_) fun _ _ => id
  subst h₁
  apply Finishes.bind
  refine Finishes.mono Finishes.any (fun _ w₂ _ => ?_) fun _ _ => id
  exact Finishes.pure ⟨rfl, rfl⟩

lemma StrategyResult.congr {output : StrategyOutput} (h : StrategyResult eng inp output w)
    (hsame : ∀ p, lastChar p = some 't' → fileAt w'.disk p = fileAt w.disk p) :
    StrategyResult eng inp output w' := by
  rcases h with h | ⟨aggregator, attempts, branches, verify, rfl, hbacked, hvote⟩
  · exact Or.inl h
  · refine Or.inr ⟨aggregator, attempts, branches, verify, rfl, ?_, fun hv => ?_⟩
    · exact hbacked.imp fun a b hab => hab.congr fun idx _ => hsame _ (lastChar_branch idx)
    · obtain ⟨text, htext, hfile⟩ := hvote hv
      exact ⟨text, htext, by rw [hsame _ lastChar_aggregated, hfile]⟩

end PhaseRuns

section Votes

open CrashHistories

def asciiLibrary : Library := ⟨toAsciiLowercase, fun _ _ => 0⟩

def voteEngines : Engines := { plainEngines with aggregateVote := voteText asciiLibrary }

def votePhase : PhaseConfig :=
  { designPhase with
    phase := "review"
    strategy := .parallel
    backend := none
    targets := [⟨"claude", none⟩, ⟨"codex", none⟩, ⟨"gemini", none⟩]
    minResponses := 1
    aggregator := .vote
    producer := .parallel
    artefactName := "verdict.md" }

def voteInputs : PhaseInputs :=
  ⟨["claude", "codex", "gemini"], none, "review", none, ["run"], "r1"⟩

/-- A phase run with these answers, which come in order. -/
def afterVote (answers : ℕ → Except BackendError String) :
    List (Event (RunSig Doc)) × Except PhaseError PhaseOutcome × World Doc :=
  eval (handle ⟨fun q => answers q.index, fun _ => .ok .pass⟩)
    (PhaseRunner.run voteEngines votePhase voteInputs 0) newRun

/-- The two first targets agree. -/
def splitAnswers : ℕ → Except BackendError String
  | 2 => .ok "no"
  | _ => .ok "yes"

/-- Only the last target answers. -/
def lateAnswers : ℕ → Except BackendError String
  | 2 => .ok "no"
  | _ => .error (.network "down")

lemma afterVote_runs (answers : ℕ → Except BackendError String) :
    Runs (ρ := Except PhaseError PhaseOutcome) perform
      (PhaseRunner.run voteEngines votePhase voteInputs 0) newRun (afterVote answers).1
      (afterVote answers).2.1 (afterVote answers).2.2 :=
  eval_runs (handle_performs _) _ _

end Votes

end Loker.Attribution
