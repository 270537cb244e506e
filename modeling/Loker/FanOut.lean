import Loker.CompletedRuns
import Loker.Concat

/-! The fan-out over several targets: when it succeeds, what it records of each target and which
text the concat aggregator makes of it. -/

namespace Loker.FanOut

open FileTree TextOps Programs RunFiles RunLoad RunOps Dispatch Strategies PhaseRunner Concat

/-- Texts are read back as they were written. -/
class TextFormat (B : Type) extends RunFormat B where
  toText_ofText : ∀ s, toText (ofText s) = some s

instance : TextFormat Doc where
  toText_ofText _ := rfl

section Endings

def branchPath (inp : PhaseInputs) (idx : ℕ) : Path :=
  join inp.runDir (branchOutput inp.phaseName idx)

def aggregatedPath (inp : PhaseInputs) : Path :=
  join inp.runDir (aggregatedOutput inp.phaseName)

variable {inp : PhaseInputs}

lemma join_file {base : Path} (a : String) {name : String} (h : IsName name) :
    ∃ p, join base (a ++ "/" ++ name) = p ++ [name] := by
  have hlast : ∀ p, descend p name = p ++ [name] := by
    intro p
    simp [descend, h.ne_empty, h.ne_dot, h.ne_dotdot]
  rw [join, components_concat, components_of_no_slash h.no_slash, List.foldl_append,
    List.foldl_cons, List.foldl_nil, hlast]
  exact ⟨_, rfl⟩

lemma branchOutput_split (phase : String) (idx : ℕ) :
    branchOutput phase idx = phase ++ "/attempts" ++ "/" ++ (idx.repr ++ "-parallel.txt") := by
  simp [branchOutput, ← String.toList_inj]

lemma branchFile_name (idx : ℕ) : IsName (idx.repr ++ "-parallel.txt") :=
  isName_append (slash_not_mem_repr idx) (by decide) (by decide)

lemma aggregatedOutput_split (phase : String) :
    aggregatedOutput phase = phase ++ "/" ++ "aggregated.txt" := by
  simp [aggregatedOutput, ← String.toList_inj]

/-- The last character of the last component. -/
def lastChar (p : Path) : Option Char := p.getLast?.bind fun s => s.toList.getLast?

lemma lastChar_concat (p : Path) (s : String) : lastChar (p ++ [s]) = s.toList.getLast? := by
  simp [lastChar]

lemma branchPath_eq (inp : PhaseInputs) (idx : ℕ) :
    ∃ p, branchPath inp idx = p ++ [idx.repr ++ "-parallel.txt"] := by
  rw [branchPath, branchOutput_split]
  exact join_file _ (branchFile_name idx)

lemma aggregatedPath_eq (inp : PhaseInputs) :
    ∃ p, aggregatedPath inp = p ++ ["aggregated.txt"] := by
  rw [aggregatedPath, aggregatedOutput_split]
  exact join_file _ (by decide)

lemma lastChar_branch (idx : ℕ) : lastChar (branchPath inp idx) = some 't' := by
  obtain ⟨p, hp⟩ := branchPath_eq inp idx
  rw [hp, lastChar_concat, String.toList_append, List.getLast?_append]
  rfl

lemma lastChar_aggregated : lastChar (aggregatedPath inp) = some 't' := by
  obtain ⟨p, hp⟩ := aggregatedPath_eq inp
  rw [hp, lastChar_concat]
  rfl

/-- Targets do not share an attempt file. -/
lemma branchPath_inj {i j : ℕ} (h : branchPath inp i = branchPath inp j) : i = j := by
  obtain ⟨p, hp⟩ := branchPath_eq inp i
  obtain ⟨q, hq⟩ := branchPath_eq inp j
  rw [hp, hq] at h
  have hname := (List.append_inj' h rfl).2
  rw [List.singleton_inj, String.append_left_inj] at hname
  exact repr_inj hname

lemma branchPath_ne_aggregated {i : ℕ} : branchPath inp i ≠ aggregatedPath inp := by
  intro h
  obtain ⟨p, hp⟩ := branchPath_eq inp i
  obtain ⟨q, hq⟩ := aggregatedPath_eq inp
  rw [hp, hq] at h
  have hname := (List.append_inj' h rfl).2
  rw [List.singleton_inj] at hname
  have hdash : '-' ∈ (i.repr ++ "-parallel.txt").toList := by simp
  rw [hname] at hdash
  revert hdash
  decide

/-- A path string's last component ends as the string does. -/
lemma join_ending (base : Path) (a : String) {suffix : String} (hslash : '/' ∉ suffix.toList)
    (hlen : 2 < suffix.toList.length) : ∃ p b, join base (a ++ suffix) = p ++ [b ++ suffix] := by
  by_cases ha : '/' ∈ a.toList
  · -- the last slash before the suffix
    obtain ⟨as, bs, hsplit, hno⟩ := List.eq_append_cons_of_mem (List.mem_reverse.mpr ha)
    have hparts : a = String.ofList bs.reverse ++ "/" ++ String.ofList as.reverse := by
      rw [← String.toList_inj, ← List.reverse_inj, hsplit]
      simp
    have hname : IsName (String.ofList as.reverse ++ suffix) :=
      isName_append (by simpa using hno) hslash hlen
    obtain ⟨p, hp⟩ := join_file (String.ofList bs.reverse) hname
    exact ⟨p, String.ofList as.reverse, by rw [hparts, String.append_assoc, hp]⟩
  · exact ⟨base, a, join_of_isName (isName_append ha hslash hlen)⟩

lemma lastChar_join_append {base : Path} {a suffix : String} (hslash : '/' ∉ suffix.toList)
    (hlen : 2 < suffix.toList.length) :
    lastChar (join base (a ++ suffix)) = suffix.toList.getLast? := by
  have hne : suffix.toList ≠ [] := List.ne_nil_of_length_pos (by omega)
  obtain ⟨p, b, hp⟩ := join_ending base a hslash hlen
  rw [hp, lastChar_concat, String.toList_append, List.getLast?_append_of_ne_nil _ hne]

/-- A started marker's file name ends in its attempt's number. -/
lemma lastChar_started (runDir : Path) (phase : String) (attempt : ℕ) :
    ∃ c, lastChar (markerPath runDir (.started ⟨phase, attempt⟩)) = some c ∧ c.isDigit := by
  have hdigits : attempt.repr.toList ≠ [] := by
    rw [Nat.toList_repr]
    exact Nat.toDigits_ne_nil
  have hsuffix : '/' ∉ (".started." ++ attempt.repr).toList := by
    rw [String.toList_append, List.mem_append, not_or]
    exact ⟨by decide, slash_not_mem_repr attempt⟩
  have hlen : 2 < (".started." ++ attempt.repr).toList.length := by
    rw [String.toList_append, List.length_append]
    exact Nat.lt_of_lt_of_le (by decide) (Nat.le_add_right _ _)
  have hfile : (Marker.started ⟨phase, attempt⟩).fileName =
      phase ++ (".started." ++ attempt.repr) := String.append_assoc
  refine ⟨attempt.repr.toList.getLast hdigits, ?_, isDigit_of_mem_repr (List.getLast_mem hdigits)⟩
  rw [markerPath, hfile, lastChar_join_append hsuffix hlen, String.toList_append,
    List.getLast?_append_of_ne_nil _ hdigits, List.getLast?_eq_some_getLast hdigits]

lemma startedPath_ne {runDir p : Path} {phase : String} {attempt : ℕ}
    (h : lastChar p = some 't') : p ≠ markerPath runDir (.started ⟨phase, attempt⟩) := by
  rintro rfl
  obtain ⟨c, hc, hdigit⟩ := lastChar_started runDir phase attempt
  rw [h] at hc
  cases hc
  revert hdigit
  decide

end Endings

section Runs

variable {B : Type} [RunFormat B] (result : ℕ → Except BackendError String)

/-- Output writes succeed and every target's backend answers as it is assigned. -/
def Obliging : (o : Op B) → Answer B o → Prop
  | .createDirAll _, a => a = .ok ()
  | .writeFile _ _, a => a = .ok ()
  | .race _, a => a.2 = result a.1
  | _, _ => True

/-- The targets finish in any order. -/
def assigned : Semantics (RunSig B) (World B) :=
  fun o w a w' => perform o w a w' ∧ Obliging result o a

/-- Target `x.1` at index `x.2` succeeds. -/
def succeeds (x : TargetSpec × ℕ) : Bool := (result x.2).isOk

variable (inp : PhaseInputs)

def attemptOf (x : TargetSpec × ℕ) : Attempt :=
  branchAttempt inp x.1 x.2 (if succeeds result x then .stop else .error)

/-- The outputs of the completed targets are in their files. -/
def Stored (done : List (TargetSpec × ℕ)) (w : World B) : Prop :=
  ∀ x ∈ done, ∀ stdout, result x.2 = .ok stdout →
    fileAt w.disk (branchPath inp x.2) = some (RunFormat.ofText stdout)

/-- How far the fan-out is: `done` lists the completed targets in the order of their completion. -/
structure Gathered (targets : List TargetSpec) (before : Option B)
    (done waiting : List (TargetSpec × ℕ)) (st : FanState) (w : World B) : Prop where
  parts : (done ++ waiting).Perm targets.zipIdx
  attempts : st.attempts = done.map (attemptOf result inp)
  successes : st.successes = (done.filter (succeeds result)).length
  stored : Stored result inp done w
  aside : fileAt w.disk (aggregatedPath inp) = before

variable {result inp} {targets : List TargetSpec} {before : Option B}
  {done waiting : List (TargetSpec × ℕ)} {st : FanState} {w : World B}

lemma keys_nodup (h : (done ++ waiting).Perm targets.zipIdx) :
    ((done ++ waiting).map Prod.snd).Nodup := by
  have hperm := h.map Prod.snd
  rw [hperm.nodup_iff, List.zipIdx_map_snd]
  exact List.nodup_range'

lemma waiting_nodup (h : (done ++ waiting).Perm targets.zipIdx) :
    (waiting.map Prod.snd).Nodup := by
  have hall := keys_nodup h
  rw [List.map_append] at hall
  exact hall.of_append_right

lemma mem_targets {x : TargetSpec × ℕ} (h : x ∈ targets.zipIdx) : targets[x.2]? = some x.1 :=
  List.mem_zipIdx_iff_getElem?.mp h

/-- The entry with a key of its own is taken out of a list. -/
lemma perm_cons_filter {α κ : Type} [DecidableEq κ] {key : α → κ} {xs : List α} {x : α}
    (hx : x ∈ xs) (hkeys : (xs.map key).Nodup) :
    xs.Perm (x :: xs.filter fun y => key y ≠ key x) := by
  induction xs with
  | nil => cases hx
  | cons y ys ih =>
      obtain ⟨hy, hys⟩ := List.nodup_cons.mp hkeys
      rcases List.mem_cons.mp hx with rfl | hmem
      · have hall : ys.filter (fun z => key z ≠ key x) = ys := by
          apply List.filter_eq_self.mpr
          intro z hz
          have hne : key z ≠ key x := fun heq => hy (heq ▸ List.mem_map_of_mem hz)
          simpa using hne
        rw [List.filter_cons_of_neg (by simp), hall]
      · have hne : key y ≠ key x := fun heq => hy (heq ▸ List.mem_map_of_mem hmem)
        rw [List.filter_cons_of_pos (by simpa using hne)]
        exact ((ih hmem hys).cons y).trans (List.Perm.swap x y _)

omit [RunFormat B] in
/-- One more target has completed. -/
lemma parts_step {x : TargetSpec × ℕ} (h : (done ++ waiting).Perm targets.zipIdx)
    (hx : x ∈ waiting) (hkeys : (waiting.map Prod.snd).Nodup) :
    ((done ++ [x]) ++ waiting.filter fun y => y.2 ≠ x.2).Perm targets.zipIdx := by
  have hsplit := perm_cons_filter hx hkeys
  rw [List.append_assoc]
  exact (hsplit.append_left done).symm.trans h

/-- The winner of a race is one of the targets that are waited for, and the others still are. -/
lemma waiting_step {pending : List Query} {idx : ℕ}
    (hpending : pending.map Query.index = waiting.map Prod.snd)
    (hkeys : (waiting.map Prod.snd).Nodup) (hidx : idx ∈ pending.map Query.index) :
    ∃ x ∈ waiting, x.2 = idx ∧
      (pending.filter (·.index ≠ idx)).map Query.index =
        (waiting.filter fun y => y.2 ≠ idx).map Prod.snd ∧
      waiting.length = (waiting.filter fun y => y.2 ≠ idx).length + 1 := by
  rw [hpending] at hidx
  obtain ⟨x, hx, rfl⟩ := List.mem_map.mp hidx
  have hfilter := congrArg (List.filter fun i => decide (i ≠ x.2)) hpending
  rw [List.filter_map, List.filter_map] at hfilter
  have hlength := (perm_cons_filter hx hkeys).length_eq
  rw [List.length_cons] at hlength
  exact ⟨x, hx, rfl, hfilter, hlength⟩

lemma pending_ne_nil {pending : List Query} {left : ℕ}
    (hpending : pending.map Query.index = waiting.map Prod.snd)
    (hleft : left + 1 = waiting.length) : pending ≠ [] := by
  rintro rfl
  rw [List.map_nil, eq_comm, List.map_eq_nil_iff] at hpending
  rw [hpending] at hleft
  cases hleft

section Write

omit [RunFormat B] in
lemma changed_ok {next : Option (Disk B)} {log : List Marker} {w w' : World B}
    (h : Changed next log w (.ok ()) w') : ∃ t, next = some t ∧ w' = ⟨t, log⟩ := by
  rcases h with ⟨t, ht, hw, _⟩ | ⟨_, message, he⟩
  · exact ⟨t, ht, hw⟩
  · cases he

lemma writeOutput_finishes {name text parentFailure failure : String} :
    Finishes (assigned (B := B) result)
      (fun _ w' => fileAt w'.disk (join inp.runDir name) = some (RunFormat.ofText text) ∧
        ∀ q, q ≠ join inp.runDir name → fileAt w'.disk q = fileAt w.disk q)
      (fun _ _ => False) (writeOutput inp name text parentFailure failure) w := by
  apply Finishes.bind
  refine Finishes.op fun a w₁ h₁ => ?_
  obtain ⟨hperform, rfl⟩ := h₁
  obtain ⟨t, hcreate, rfl⟩ := changed_ok hperform
  apply Finishes.bind
  refine Finishes.op fun a w₂ h₂ => ?_
  obtain ⟨hperform, rfl⟩ := h₂
  obtain ⟨t', hwrite, rfl⟩ := changed_ok hperform
  refine Finishes.pure ⟨writeFile_self hwrite, fun q hq => ?_⟩
  rw [writeFile_other hwrite hq, createDirAll_fileAt hcreate]

end Write

section Collect

variable {eng : Engines} {aggregator : AggregatorName} {minResponses : ℕ}

omit [RunFormat B] in
lemma attemptOf_ok (inp : PhaseInputs) {x : TargetSpec × ℕ} {stdout : String}
    (h : result x.2 = .ok stdout) :
    attemptOf result inp x = branchAttempt inp x.1 x.2 .stop ∧ succeeds result x = true := by
  have hok : succeeds result x = true := by simp [succeeds, h, Except.isOk, Except.toBool]
  exact ⟨by rw [attemptOf, if_pos hok], hok⟩

omit [RunFormat B] in
lemma attemptOf_error (inp : PhaseInputs) {x : TargetSpec × ℕ} {err : BackendError}
    (h : result x.2 = .error err) :
    attemptOf result inp x = branchAttempt inp x.1 x.2 .error ∧ succeeds result x = false := by
  have hno : succeeds result x = false := by simp [succeeds, h, Except.isOk, Except.toBool]
  exact ⟨by rw [attemptOf, if_neg (by simp [hno])], hno⟩

/-- A target that fails adds its attempt. -/
lemma Gathered.failed (h : Gathered result inp targets before done waiting st w)
    {x : TargetSpec × ℕ} {err : BackendError} (hx : x ∈ waiting)
    (hkeys : (waiting.map Prod.snd).Nodup) (herr : result x.2 = .error err)
    (branches : List BranchOutcome) :
    Gathered result inp targets before (done ++ [x]) (waiting.filter fun y => y.2 ≠ x.2)
      { st with attempts := st.attempts ++ [branchAttempt inp x.1 x.2 .error],
                branches := branches } w := by
  obtain ⟨hattempt, hno⟩ := attemptOf_error inp herr
  constructor
  · exact parts_step h.parts hx hkeys
  · simp [h.attempts, hattempt]
  · simp [h.successes, List.filter_append, hno]
  · intro y hy stdout hstdout
    rcases List.mem_append.mp hy with hold | hnew
    · exact h.stored y hold stdout hstdout
    · obtain rfl := List.mem_singleton.mp hnew
      rw [herr] at hstdout
      cases hstdout
  · exact h.aside

/-- A target that succeeds adds its attempt, once its output is in its file. -/
lemma Gathered.succeeded (h : Gathered result inp targets before done waiting st w)
    {x : TargetSpec × ℕ} {stdout : String} {w' : World B} (hx : x ∈ waiting)
    (hkeys : (waiting.map Prod.snd).Nodup) (hok : result x.2 = .ok stdout)
    (hself : fileAt w'.disk (branchPath inp x.2) = some (RunFormat.ofText stdout))
    (hothers : ∀ q, q ≠ branchPath inp x.2 → fileAt w'.disk q = fileAt w.disk q) :
    Gathered result inp targets before (done ++ [x]) (waiting.filter fun y => y.2 ≠ x.2)
      (branchAccepted inp x.1 x.2 stdout st) w' := by
  obtain ⟨hattempt, hyes⟩ := attemptOf_ok inp hok
  constructor
  · exact parts_step h.parts hx hkeys
  · simp [branchAccepted, h.attempts, hattempt]
  · simp [branchAccepted, h.successes, List.filter_append, hyes]
  · intro y hy stdout' hstdout'
    by_cases hsame : y.2 = x.2
    · rw [hsame, hok] at hstdout'
      cases hstdout'
      rw [hsame]
      exact hself
    · rcases List.mem_append.mp hy with hold | hnew
      · rw [hothers _ fun heq => hsame (branchPath_inj heq)]
        exact h.stored y hold stdout' hstdout'
      · exact absurd (List.mem_singleton.mp hnew ▸ rfl) hsame
  · rw [hothers _ branchPath_ne_aggregated.symm]
    exact h.aside

omit [RunFormat B] in
lemma branchFailed_ok (inp : PhaseInputs) (target : TargetSpec) (idx : ℕ) (err : BackendError)
    (st : FanState) (hplain : needsAll aggregator = false) :
    ∃ branches, branchFailed inp aggregator target idx err st =
      .ok { st with attempts := st.attempts ++ [branchAttempt inp target idx .error],
                    branches := branches } := by
  have hany : aggregator ≠ .anyFail := by
    rintro rfl
    cases hplain
  exact ⟨_, by rw [branchFailed, if_neg hany]⟩

omit [RunFormat B] in
lemma afterBranchWritten_ok {target : TargetSpec} {idx : ℕ} {stdout : String}
    (hplain : needsAll aggregator = false) :
    afterBranchWritten eng inp aggregator target idx stdout st =
      .ok (branchAccepted inp target idx stdout st) := by
  cases aggregator with
  | anyFail => cases hplain
  | first => rfl
  | concat => rfl
  | vote => rfl
  | allPass => rfl

/-- Some targets have completed, all of them or enough. -/
def Settled (result : ℕ → Except BackendError String) (inp : PhaseInputs)
    (targets : List TargetSpec) (minResponses : ℕ) (before : Option B) (st : FanState)
    (w : World B) : Prop :=
  ∃ done waiting, Gathered result inp targets before done waiting st w ∧
    (waiting = [] ∨ minResponses ≤ st.successes)

/-- Induction on the number of targets that are still waited for. -/
lemma collect_finishes (hplain : needsAll aggregator = false) (left : ℕ) (pending : List Query)
    (hleft : left = waiting.length) (hpending : pending.map Query.index = waiting.map Prod.snd)
    (h : Gathered result inp targets before done waiting st w) :
    Finishes (assigned result) (fun st' w' => Settled result inp targets minResponses before st' w')
      (fun _ _ => False) (collect eng inp aggregator targets minResponses left pending st) w := by
  induction left generalizing done waiting pending st w with
  | zero =>
      have hnone : waiting = [] := List.length_eq_zero_iff.mp hleft.symm
      exact Finishes.pure ⟨done, waiting, h, Or.inl hnone⟩
  | succ left ih =>
      have hkeys := waiting_nodup h.parts
      apply Finishes.bind
      refine Finishes.op fun answer w₁ h₁ => ?_
      obtain ⟨idx, answered⟩ := answer
      obtain ⟨⟨rfl, hidx⟩, hanswered⟩ := h₁
      have hanswer : answered = result idx := hanswered
      obtain ⟨x, hx, rfl, hrest, hlength⟩ :=
        waiting_step hpending hkeys (hidx (pending_ne_nil hpending hleft))
      have hxmem : x ∈ targets.zipIdx :=
        h.parts.mem_iff.mp (List.mem_append_right done hx)
      have hcount : left = (waiting.filter fun y => y.2 ≠ x.2).length :=
        Nat.succ.inj (hleft.trans hlength)
      simp only [mem_targets hxmem]
      cases hres : answered with
      | error err =>
          rw [hanswer] at hres
          obtain ⟨branches, hfailed⟩ := branchFailed_ok inp x.1 x.2 err st hplain
          simp only [hfailed]
          exact ih _ hcount hrest (h.failed hx hkeys hres branches)
      | ok stdout =>
          rw [hanswer] at hres
          apply Finishes.bind
          apply Finishes.bind
          refine Finishes.mono writeOutput_finishes (fun _ w₂ hwritten => ?_) fun _ _ => id
          have hnext := h.succeeded hx hkeys hres hwritten.1 hwritten.2
          rw [afterBranchWritten_ok hplain]
          refine Finishes.pure ?_
          split
          · next henough => exact Finishes.pure ⟨_, _, hnext, Or.inr henough.2⟩
          · exact ih _ hcount hrest hnext

/-- How many targets succeed. -/
def successTotal (result : ℕ → Except BackendError String) (targets : List TargetSpec) : ℕ :=
  (targets.zipIdx.filter (succeeds result)).length

lemma Gathered.total (h : Gathered result inp targets before done waiting st w) :
    successTotal result targets = st.successes + (waiting.filter (succeeds result)).length := by
  have hperm := (h.parts.filter (succeeds result)).length_eq
  rw [List.filter_append, List.length_append, ← h.successes] at hperm
  exact hperm.symm

/-- What is recorded of the completed targets. -/
structure Completed (result : ℕ → Except BackendError String) (inp : PhaseInputs)
    (targets : List TargetSpec) (done : List (TargetSpec × ℕ)) (w : World B) : Prop where
  listed : ∀ x ∈ done, x ∈ targets.zipIdx
  once : (done.map Prod.snd).Nodup
  apart : ((done.map (attemptOf result inp)).map fun a =>
    resolveOutputPath inp.runDir a.outputPath).Nodup
  stored : Stored result inp done w

lemma Gathered.completed (h : Gathered result inp targets before done waiting st w) :
    Completed result inp targets done w := by
  have hkeys : (done.map Prod.snd).Nodup := by
    have hall := keys_nodup h.parts
    rw [List.map_append] at hall
    exact hall.of_append_left
  constructor
  · intro x hx
    exact h.parts.mem_iff.mp (List.mem_append_left waiting hx)
  · exact hkeys
  · have hpaths : (done.map (attemptOf result inp)).map
        (fun a => resolveOutputPath inp.runDir a.outputPath) =
        (done.map Prod.snd).map (branchPath inp) := by
      rw [List.map_map, List.map_map]
      rfl
    rw [hpaths]
    exact hkeys.map fun i j => branchPath_inj
  · exact h.stored

/-- The floor decides between the output and the violation that lists every target. -/
def FloorDecides (result : ℕ → Except BackendError String) (inp : PhaseInputs)
    (aggregator : AggregatorName) (targets : List TargetSpec) (minResponses : ℕ)
    (done : List (TargetSpec × ℕ)) (r : Except StrategyError StrategyOutput) : Prop :=
  let output := fanOutput inp aggregator (done.map (attemptOf result inp)) .skipped
  if minResponses ≤ successTotal result targets then
    r = .ok output ∧ minResponses ≤ (done.filter (succeeds result)).length
  else done.Perm targets.zipIdx ∧
    r = .error (.floorViolation (successTotal result targets) minResponses output)

/-- What the fan-out returns and leaves in the run directory. -/
def Fanned (result : ℕ → Except BackendError String) (inp : PhaseInputs)
    (aggregator : AggregatorName) (targets : List TargetSpec) (minResponses : ℕ)
    (before : Option B) (r : Except StrategyError StrategyOutput) (w : World B) : Prop :=
  ∃ done, Completed result inp targets done w ∧
    FloorDecides result inp aggregator targets minResponses done r ∧
    fileAt w.disk (aggregatedPath inp) = before

lemma fanFinished_finishes (hplain : needsAll aggregator = false)
    (h : Settled result inp targets minResponses before st w) :
    Finishes (assigned result)
      (fun output w' => Fanned result inp aggregator targets minResponses before (.ok output) w')
      (fun e w' => Fanned result inp aggregator targets minResponses before (.error e) w')
      (fanFinished eng inp aggregator minResponses st) w := by
  obtain ⟨done, waiting, hgathered, hend⟩ := h
  have htotal := hgathered.total
  have hany : aggregator ≠ .anyFail := by
    rintro rfl
    cases hplain
  have hvote : aggregator ≠ .vote := by
    rintro rfl
    cases hplain
  unfold fanFinished
  rw [if_neg hany]
  by_cases hfew : st.successes < minResponses
  · -- below the floor every target has been waited for
    have hall : waiting = [] := hend.resolve_right (Nat.not_le.mpr hfew)
    subst hall
    have hsame : successTotal result targets = st.successes := by simpa using htotal
    rw [if_pos hfew]
    refine Finishes.throw ⟨done, hgathered.completed, ?_, hgathered.aside⟩
    have hparts := hgathered.parts
    rw [List.append_nil] at hparts
    rw [FloorDecides, if_neg (by omega), hsame, hgathered.attempts]
    exact ⟨hparts, rfl⟩
  · rw [if_neg hfew, if_neg hvote]
    refine Finishes.pure ⟨done, hgathered.completed, ?_, hgathered.aside⟩
    have hsuccesses := hgathered.successes
    rw [FloorDecides, if_pos (by omega), hgathered.attempts]
    exact ⟨rfl, by omega⟩

omit [RunFormat B] in
lemma branchQueries_ok (rendered : String) (hpresent : ∀ t ∈ targets, t.backend ∈ inp.backends) :
    ∃ queries, branchQueries inp rendered targets = .ok queries ∧
      queries.map Query.index = targets.zipIdx.map Prod.snd := by
  have hall : ∀ x ∈ targets.zipIdx, x.1.backend ∈ inp.backends :=
    fun x hx => hpresent x.1 (List.mem_of_getElem? (mem_targets hx))
  unfold branchQueries
  generalize targets.zipIdx = xs at hall
  induction xs with
  | nil => exact ⟨[], rfl, rfl⟩
  | cons x xs ih =>
      obtain ⟨queries, hqueries, hindex⟩ := ih fun y hy => hall y (List.mem_cons_of_mem _ hy)
      have hfind := findBackend_present inp (hall x List.mem_cons_self)
      have hquery : ∃ q, branchQuery inp rendered x = .ok q ∧ q.index = x.2 := by
        rw [branchQuery, hfind]
        exact ⟨_, rfl, rfl⟩
      obtain ⟨q, hq, hidx⟩ := hquery
      refine ⟨q :: queries, mapM_cons_eq_ok.mpr ⟨q, queries, hq, hqueries, rfl⟩, ?_⟩
      rw [List.map_cons, List.map_cons, hindex, hidx]

omit [RunFormat B] in
/-- The queries can be made only when every target has its backend. -/
lemma present_of_branchQueries {rendered : String} {queries : List Query}
    (h : branchQueries inp rendered targets = .ok queries) :
    ∀ t ∈ targets, t.backend ∈ inp.backends := by
  intro t ht
  obtain ⟨i, hi⟩ := List.mem_iff_getElem?.mp ht
  have hx : (t, i) ∈ targets.zipIdx := List.mem_zipIdx_iff_getElem?.mpr hi
  unfold branchQueries at h
  generalize targets.zipIdx = xs at h hx
  induction xs generalizing queries with
  | nil => cases hx
  | cons x xs ih =>
      obtain ⟨q, rest, hfirst, hrest, rfl⟩ := mapM_cons_eq_ok.mp h
      rcases List.mem_cons.mp hx with rfl | hmem
      · unfold branchQuery findBackend at hfirst
        cases hfound : inp.backends.find? (· = t.backend) with
        | none => simp [hfound, Except.map] at hfirst
        | some backend =>
            have hname : backend = t.backend := by simpa using List.find?_some hfound
            rw [← hname]
            exact List.mem_of_find?_eq_some hfound
      · exact ih hrest hmem

omit [RunFormat B] in
lemma backends_present (hne : targets ≠ []) (hpresent : ∀ t ∈ targets, t.backend ∈ inp.backends) :
    ¬ (targets = [] ∨ inp.backends = []) := by
  rintro (hnil | hnil)
  · exact hne hnil
  · obtain ⟨t, ts, rfl⟩ := List.exists_cons_of_ne_nil hne
    have hmem := hpresent t List.mem_cons_self
    rw [hnil] at hmem
    cases hmem

/-- All of the fan-out, once its prompt is rendered. -/
lemma parallelFanOut_finishes {template rendered : String} (minResponses : ℕ)
    (hplain : needsAll aggregator = false)
    (hne : targets ≠ []) (hpresent : ∀ t ∈ targets, t.backend ∈ inp.backends)
    (hrender : eng.template template = .ok rendered) :
    Finishes (assigned result)
      (fun output w' => Fanned result inp aggregator targets minResponses
        (fileAt w.disk (aggregatedPath inp)) (.ok output) w')
      (fun e w' => Fanned result inp aggregator targets minResponses
        (fileAt w.disk (aggregatedPath inp)) (.error e) w')
      (parallelFanOut eng inp aggregator targets minResponses template) w := by
  obtain ⟨queries, hqueries, hindex⟩ := branchQueries_ok rendered hpresent
  have hrendered : (renderPrompt eng template : Run B StrategyError String) = pure rendered := by
    rw [renderPrompt, hrender]
  have hstart : Gathered result inp targets (fileAt w.disk (aggregatedPath inp)) []
      targets.zipIdx ⟨[], 0, []⟩ w :=
    ⟨List.Perm.refl _, rfl, rfl, nofun, rfl⟩
  have hlength : queries.length = targets.zipIdx.length := by
    rw [← List.length_map (f := Query.index), hindex, List.length_map]
  unfold parallelFanOut
  rw [if_neg (backends_present hne hpresent), hrendered]
  apply Finishes.bind
  refine Finishes.pure ?_
  simp only [hqueries]
  apply Finishes.bind
  refine Finishes.mono (collect_finishes hplain queries.length queries hlength hindex hstart)
    (fun st w' hsettled => fanFinished_finishes hplain hsettled) fun e w' hfalse => hfalse.elim

end Collect

section Marks

/-- The started markers are apart from the attempt files and from the aggregated file. -/
lemma startAttempts_keeps {cfg : PhaseConfig} {initialAttempt : ℕ} {is : List ℕ} {p : Path}
    {bytes : Option B} (hp : lastChar p = some 't') (h : fileAt w.disk p = bytes) :
    Achieves perform (fun _ w' => fileAt w'.disk p = bytes)
      (startAttempts cfg inp initialAttempt is) w := by
  have hemits : Emits (fun o : Op B => (∃ q, o = .createDirAll q) ∨
      ∃ n, o = .writeMarker inp.runDir (.started ⟨cfg.phase, n⟩))
      (startAttempts cfg inp initialAttempt is) :=
    marks_emits (Or.inl ⟨_, rfl⟩) fun _ _ => Or.inr ⟨_, rfl⟩
  refine hemits.achieves (fun o s a s' ho hs hact => ?_) h
  rcases perform_effect hact with rfl | heffect
  · exact hs
  rcases ho with ⟨q, rfl⟩ | ⟨n, rfl⟩
  · obtain ⟨t, hcreate, rfl⟩ := Option.map_eq_some_iff.mp heffect
    rw [createDirAll_fileAt hcreate]
    exact hs
  · obtain ⟨t, hwrite, rfl⟩ := Option.map_eq_some_iff.mp heffect
    rw [writeFile_other hwrite (startedPath_ne hp)]
    exact hs

end Marks

end Runs

section Artefact

variable {B : Type} [TextFormat B] {result : ℕ → Except BackendError String} {inp : PhaseInputs}
  {eng : Engines} {done : List (TargetSpec × ℕ)}

/-- The outcome of a completed target as the aggregator is told it. -/
def outcomeOf (result : ℕ → Except BackendError String) (x : (TargetSpec × ℕ) × ℕ) :
    BranchOutcome :=
  match result x.1.2 with
  | .ok stdout => .success x.1.1.backend (x.2 + 1) stdout
  | .error _ => .failure x.1.1.backend (x.2 + 1) "backend error"

def outcomes (result : ℕ → Except BackendError String) (done : List (TargetSpec × ℕ)) :
    List BranchOutcome := done.zipIdx.map (outcomeOf result)

/-- The section of a completed target: its heading and, if it is not blank, its output. -/
def sectionOf (result : ℕ → Except BackendError String) (x : TargetSpec × ℕ) : Option String :=
  match result x.2 with
  | .ok stdout =>
      some (if trim stdout = "" then "## " ++ x.1.backend
        else "## " ++ x.1.backend ++ "\n\n" ++ trim stdout)
  | .error _ => none

/-- The footer with the targets that failed, if there are any. -/
def footer (branches : List BranchOutcome) : List String :=
  let failures := branches.filterMap asFailure
  if failures = [] then [] else [renderErrors failures]

/-- The text of the completed targets: a section for each one that succeeded, in the order of
their completion, and the footer. -/
def concatText (result : ℕ → Except BackendError String) (done : List (TargetSpec × ℕ)) : String :=
  "\n\n".intercalate (done.filterMap (sectionOf result) ++ footer (outcomes result done)) ++ "\n"

lemma headingFrom_backend {backendId family : String} {index : ℕ} :
    headingFrom backendId family index 0 backendField = backendId.toList := by
  have hfield : backendField = '{' :: backendField.tail := by decide
  have hprefix : backendField.isPrefixOf ('{' :: backendField.tail) = true := by decide
  have hlength : backendField.length - 1 = backendField.tail.length := by decide
  have hskipped : headingFrom backendId family index backendField.tail.length backendField.tail =
      [] := by
    have hskip : headingFrom backendId family index _ (backendField.tail ++ []) = _ :=
      headingFrom_skip backendField.tail
    rw [List.append_nil] at hskip
    exact hskip
  rw [hfield, headingFrom, if_pos rfl, if_pos hprefix, hlength, hskipped, List.append_nil]

lemma renderHeading_concat (backendId family : String) (index : ℕ) :
    renderHeading backendId family index concatHeading = "## " ++ backendId := by
  have hheading : concatHeading.toList = '#' :: '#' :: ' ' :: backendField := by decide
  rw [renderHeading, hheading, headingFrom_plain (by decide), headingFrom_plain (by decide),
    headingFrom_plain (by decide), headingFrom_backend, ← String.toList_inj]
  simp

lemma sections_eq (result : ℕ → Except BackendError String) (xs : List ((TargetSpec × ℕ) × ℕ)) :
    ((xs.map (outcomeOf result)).filterMap asSuccess).map (renderSuccess concatHeading) =
      (xs.map Prod.fst).filterMap (sectionOf result) := by
  induction xs with
  | nil => rfl
  | cons x xs ih =>
      cases hres : result x.1.2 with
      | error err =>
          have houtcome : outcomeOf result x =
              .failure x.1.1.backend (x.2 + 1) "backend error" := by rw [outcomeOf, hres]
          have hnone : sectionOf result x.1 = none := by rw [sectionOf, hres]
          simp only [List.map_cons, houtcome, List.filterMap_cons, asSuccess, hnone]
          exact ih
      | ok stdout =>
          have houtcome : outcomeOf result x =
              .success x.1.1.backend (x.2 + 1) stdout := by rw [outcomeOf, hres]
          have hsome : sectionOf result x.1 =
              some (if trim stdout = "" then "## " ++ x.1.1.backend
                else "## " ++ x.1.1.backend ++ "\n\n" ++ trim stdout) := by rw [sectionOf, hres]
          have hsection : renderSuccess concatHeading
              ⟨x.1.1.backend, (familyOf x.1.1.backend).asStr, x.2 + 1, stdout⟩ =
              (if trim stdout = "" then "## " ++ x.1.1.backend
                else "## " ++ x.1.1.backend ++ "\n\n" ++ trim stdout) := by
            simp only [renderSuccess, renderHeading_concat]
          simp only [List.map_cons, houtcome, List.filterMap_cons, asSuccess, hsome, hsection, ih]

lemma concat_outcomes (hne : done ≠ []) :
    aggregateText .concat (outcomes result done) = .ok (concatText result done) := by
  have houtcomes : outcomes result done ≠ [] := by simp [outcomes, hne]
  have hparts : concatParts concatHeading (outcomes result done) =
      done.filterMap (sectionOf result) ++ footer (outcomes result done) := by
    have hsections := sections_eq result done.zipIdx
    rw [List.zipIdx_map_fst] at hsections
    rw [← hsections, concatParts, footer]
    split
    · simp [outcomes]
    · rfl
  rw [aggregateText, aggregate, aggregateConcat, if_neg houtcomes, hparts]
  rfl

/-- The last operation was a read, of a file that is there, and failed. -/
def ReadFailed (s : World B × Option (Event (RunSig B))) : Prop :=
  ∃ p bytes message, fileAt s.1.disk p = some bytes ∧ s.2 = some ⟨.readFile p, .error message⟩

lemma readOr_finishes {s : World B × Option (Event (RunSig B))} {p : Path} {bytes : B}
    (h : fileAt s.1.disk p = some bytes) :
    Finishes (noting perform) (fun x s' => x = bytes ∧ s'.1 = s.1) (fun _ => ReadFailed)
      (readOr p) s := by
  apply Finishes.bind
  refine Finishes.op fun answer s₁ h₁ => ?_
  obtain ⟨⟨hsame, hanswer⟩, hlast⟩ := h₁
  cases hres : (show Except String B from answer) with
  | error message =>
      subst hres
      refine Finishes.throw ⟨p, bytes, message, ?_, hlast⟩
      rw [hsame]
      exact h
  | ok read =>
      subst hres
      have hread := hanswer read rfl
      rw [h] at hread
      cases hread
      exact Finishes.pure ⟨rfl, hsame⟩

/-- Induction on the completed targets that are still to be read. -/
lemma readBranches_finishes {s : World B × Option (Event (RunSig B))}
    (xs : List ((TargetSpec × ℕ) × ℕ)) (h : Stored result inp (xs.map Prod.fst) s.1) :
    Finishes (noting perform) (fun branches s' => branches = xs.map (outcomeOf result) ∧
        s'.1 = s.1) (fun _ => ReadFailed)
      (readBranches inp.runDir (xs.map fun y => (attemptOf result inp y.1, y.2))) s := by
  induction xs generalizing s with
  | nil => exact Finishes.pure ⟨rfl, rfl⟩
  | cons x xs ih =>
      have hrest : Stored result inp (xs.map Prod.fst) s.1 :=
        fun y hy => h y (List.mem_cons_of_mem _ hy)
      have hfirst : Finishes (noting perform)
          (fun branch s' => branch = outcomeOf result x ∧ s'.1 = s.1) (fun _ => ReadFailed)
          (readBranch inp.runDir (attemptOf result inp x.1, x.2)) s := by
        unfold readBranch
        cases hres : result x.1.2 with
        | error err =>
            rw [(attemptOf_error inp hres).1, if_neg (by simp [succeeded, branchAttempt])]
            refine Finishes.pure ⟨?_, rfl⟩
            simp [outcomeOf, hres, branchAttempt]
        | ok stdout =>
            rw [(attemptOf_ok inp hres).1, if_pos (by simp [succeeded, branchAttempt])]
            apply Finishes.bind
            refine Finishes.mono (readOr_finishes (h x.1 List.mem_cons_self stdout hres))
              (fun bytes s' hs' => ?_) fun _ _ => id
            obtain ⟨rfl, hsame⟩ := hs'
            rw [TextFormat.toText_ofText]
            refine Finishes.pure ⟨?_, hsame⟩
            simp [outcomeOf, hres, branchAttempt]
      apply Finishes.bind
      refine Finishes.mono hfirst (fun branch s₁ h₁ => ?_) fun _ _ => id
      obtain ⟨rfl, hsame₁⟩ := h₁
      apply Finishes.bind
      rw [← hsame₁] at hrest
      refine Finishes.mono (ih hrest) (fun branches s₂ h₂ => ?_) fun _ _ => id
      obtain ⟨rfl, hsame₂⟩ := h₂
      exact Finishes.pure ⟨rfl, hsame₂.trans hsame₁⟩

/-- The artefact is the aggregated file if one is there, and else the text of the completed
targets. -/
lemma canonical_finishes {s : World B × Option (Event (RunSig B))} (hne : done ≠ [])
    (hstored : Stored result inp done s.1) (heng : eng.aggregate = aggregateText) :
    Finishes (noting perform)
      (fun x _ => x.1 = (fileAt s.1.disk (aggregatedPath inp)).getD
        (RunFormat.ofText (concatText result done)))
      (fun _ => ReadFailed)
      (canonicalBytes eng inp.runDir
        (fanOutput inp .concat (done.map (attemptOf result inp)) .skipped) .concat) s := by
  unfold canonicalBytes
  apply Finishes.bind
  refine Finishes.op (S := RunSig B) (o := .isFile _) fun there s₁ h₁ => ?_
  obtain ⟨⟨hsame, hthere⟩, -⟩ := h₁
  have hanswer : there = (fileAt s.1.disk (aggregatedPath inp)).isSome := hthere
  cases hfile : fileAt s.1.disk (aggregatedPath inp) with
  | some bytes =>
      rw [hfile] at hanswer
      rw [hanswer, Option.isSome_some, if_pos rfl]
      apply Finishes.bind
      have hfile₁ : fileAt s₁.1.disk (aggregatedPath inp) = some bytes := by rw [hsame, hfile]
      refine Finishes.mono (readOr_finishes hfile₁) (fun x s₂ h₂ => ?_) fun _ _ => id
      obtain ⟨rfl, -⟩ := h₂
      exact Finishes.pure rfl
  | none =>
      rw [hfile] at hanswer
      rw [hanswer, Option.isSome_none, if_neg (by simp)]
      have hattempts : ((done.map (attemptOf result inp)).zipIdx) =
          done.zipIdx.map fun y => (attemptOf result inp y.1, y.2) := by
        rw [List.zipIdx_map]
        rfl
      have hstored₁ : Stored result inp (done.zipIdx.map Prod.fst) s₁.1 := by
        rw [List.zipIdx_map_fst, hsame]
        exact hstored
      apply Finishes.bind
      change Finishes _ _ _ (readBranches inp.runDir (done.map (attemptOf result inp)).zipIdx) s₁
      rw [hattempts]
      refine Finishes.mono (readBranches_finishes _ hstored₁) (fun branches s₂ h₂ => ?_)
        fun _ _ => id
      obtain ⟨rfl, -⟩ := h₂
      rw [heng, show done.zipIdx.map (outcomeOf result) = outcomes result done from rfl,
        concat_outcomes hne]
      exact Finishes.pure rfl

/-- The fan-out succeeds if and only if enough targets do; else all attempts come with the
violation. The completed targets have attempt files of their own. The artefact that the concat
aggregator makes after the started markers has one section for each collected success, if no file
is at the aggregated path, and is that file otherwise. -/
theorem fan_out_floor {aggregator : AggregatorName} {targets : List TargetSpec}
    {minResponses : ℕ} {template : String} {w w₁ : World B} {tr : List (Event (RunSig B))}
    {r : Except StrategyError StrategyOutput}
    (haggregator : aggregator = .first ∨ aggregator = .concat) (hne : targets ≠ [])
    (hpresent : ∀ t ∈ targets, t.backend ∈ inp.backends) (hmin : 0 < minResponses)
    (hrun : Runs (assigned result)
      (parallelFanOut eng inp aggregator targets minResponses template) w tr r w₁) :
    (∀ e, eng.template template = .error e → r = .error (.promptRender e)) ∧
    ∀ rendered, eng.template template = .ok rendered → ∃ done,
      Completed result inp targets done w₁ ∧
      FloorDecides result inp aggregator targets minResponses done r ∧
      (aggregator = .concat → eng.aggregate = aggregateText → ∀ output, r = .ok output →
        ∀ cfg initialAttempt is tr₁ w₂, Runs (ρ := Except PhaseError Unit) perform
          (startAttempts cfg inp initialAttempt is) w₁ tr₁ (.ok ()) w₂ →
        ∀ tr₂ r₂ w₃, Runs (ρ := Except PhaseError (B × ℕ)) perform
          (canonicalBytes eng inp.runDir output aggregator) w₂ tr₂ r₂ w₃ →
        (∀ e, r₂ = .error e → ReadFailed (w₃, tr₂.getLast?)) ∧
        ∀ x, r₂ = .ok x →
          (fileAt w.disk (aggregatedPath inp) = none →
            x.1 = RunFormat.ofText (concatText result done)) ∧
          ∀ bytes, fileAt w.disk (aggregatedPath inp) = some bytes → x.1 = bytes) := by
  have hplain : needsAll aggregator = false := by
    rcases haggregator with rfl | rfl
    · rfl
    · rfl
  constructor
  · intro e hrender
    have hthrow : (renderPrompt eng template : Run B StrategyError String) =
        throw (.promptRender e) := by rw [renderPrompt, hrender]
    rw [parallelFanOut, if_neg (backends_present hne hpresent), hthrow] at hrun
    exact (runs_ret.mp hrun).2.1.symm
  · intro rendered hrender
    obtain ⟨hok, herror⟩ := parallelFanOut_finishes minResponses hplain hne
      hpresent hrender _ _ _ hrun
    have hfanned : Fanned result inp aggregator targets minResponses
        (fileAt w.disk (aggregatedPath inp)) r w₁ := by
      cases r with
      | ok output => exact hok output rfl
      | error e => exact herror e rfl
    obtain ⟨done, hcompleted, hfloor, haside⟩ := hfanned
    refine ⟨done, hcompleted, hfloor, ?_⟩
    rintro rfl heng output rfl cfg initialAttempt is tr₁ w₂ hmarks tr₂ r₂ w₃ hcanonical
    have hmany : minResponses ≤ successTotal result targets := by
      by_contra hfew
      rw [FloorDecides, if_neg hfew] at hfloor
      exact absurd hfloor.2 nofun
    rw [FloorDecides, if_pos hmany] at hfloor
    obtain ⟨houtput, hcollected⟩ := hfloor
    cases houtput
    have hsome : done ≠ [] := by
      rintro rfl
      exact absurd (Nat.lt_of_lt_of_le hmin hcollected) (Nat.lt_irrefl 0)
    have hstored : Stored result inp done w₂ := by
      intro x hx stdout hstdout
      exact startAttempts_keeps (lastChar_branch x.2) (hcompleted.stored x hx stdout hstdout)
        _ _ _ hmarks
    have haside₂ := startAttempts_keeps lastChar_aggregated haside _ _ _ hmarks
    have hnoted := Steps.noting hcanonical none
    rw [Option.or_none] at hnoted
    obtain ⟨hok₂, herror₂⟩ := canonical_finishes (s := (w₂, none)) hsome hstored heng _ _ _ hnoted
    refine ⟨herror₂, fun x hx => ?_⟩
    have hbytes := hok₂ x hx
    rw [haside₂] at hbytes
    constructor
    · intro hnone
      rw [hbytes, hnone]
      rfl
    · intro bytes hsome
      rw [hbytes, hsome]
      rfl

end Artefact

section TwoTargets

open CrashHistories CompletedRuns

def concatEngines : Engines := { plainEngines with aggregate := aggregateText }

def reviewTargets : List TargetSpec := [⟨"claude", none⟩, ⟨"codex", none⟩]

def reviewInputs : PhaseInputs := ⟨["claude", "codex"], none, "review", none, ["run"], "r1"⟩

/-- The first target cannot be reached. -/
def reviewAnswers : ℕ → Except BackendError String
  | 0 => .error (.network "down")
  | _ => .ok "fine"

def reviewScript : Script := ⟨fun q => reviewAnswers q.index, fun _ => .ok .pass⟩

def reviewFanOut : Run Doc StrategyError StrategyOutput :=
  parallelFanOut concatEngines reviewInputs .concat reviewTargets 1 "Go"

def fanned (w : World Doc) :
    List (Event (RunSig Doc)) × Prog (RunSig Doc) (Except StrategyError StrategyOutput) ×
      World Doc :=
  evalFor (handle reviewScript) 4 reviewFanOut w

/-- The attempts of both targets, the one that failed first. -/
def reviewOutput : StrategyOutput :=
  fanOutput reviewInputs .concat
    (reviewTargets.zipIdx.map (attemptOf reviewAnswers reviewInputs)) .skipped

/-- The artefact of that output, as it is computed right after the fan-out. -/
def reviewArtefact (w : World Doc) :
    List (Event (RunSig Doc)) × Except PhaseError (Doc × ℕ) × World Doc :=
  eval (ρ := Except PhaseError (Doc × ℕ)) (handle reviewScript)
    (canonicalBytes concatEngines ["run"] reviewOutput .concat) (fanned w).2.2

lemma reviewArtefact_runs (w : World Doc) :
    Runs (ρ := Except PhaseError (Doc × ℕ)) perform
      (canonicalBytes concatEngines reviewInputs.runDir reviewOutput .concat) (fanned w).2.2
      (reviewArtefact w).1 (reviewArtefact w).2.1 (reviewArtefact w).2.2 :=
  eval_runs (handle_performs _) _ _

lemma fanned_runs : Runs (assigned reviewAnswers) reviewFanOut newRun (fanned newRun).1
    (.ok reviewOutput) (fanned newRun).2.2 := by
  have hadmits : Admits (fun o s => assigned reviewAnswers o s (handle reviewScript o s).1
      (handle reviewScript o s).2) (handle reviewScript) 4 reviewFanOut newRun :=
    ⟨⟨handle_performs _ _ _, rfl⟩, ⟨handle_performs _ _ _, rfl⟩, ⟨handle_performs _ _ _, rfl⟩,
      ⟨handle_performs _ _ _, rfl⟩, trivial⟩
  exact evalFor_steps_of_admits hadmits

/-- In a run directory without a file at the aggregated path the artefact is computed. -/
theorem fan_out_floor_review : ∃ done,
    Completed reviewAnswers reviewInputs reviewTargets done (fanned newRun).2.2 ∧
    ∀ x, (reviewArtefact newRun).2.1 = .ok x →
      x.1 = .text (concatText reviewAnswers done) := by
  obtain ⟨done, hcompleted, _, hartefact⟩ := (fan_out_floor (Or.inr rfl) (by decide) (by decide)
    (by decide) fanned_runs).2 "Go" rfl
  have hcomputed := hartefact rfl rfl _ rfl designPhase 0 [] [] _ .stop _ _ _
    (reviewArtefact_runs newRun)
  exact ⟨done, hcompleted, fun x hx => (hcomputed.2 x hx).1 rfl⟩

/-- A phase before has committed its output at the path of the review's aggregated file. -/
def notesThere : World Doc := (afterAsk "notes" "review/aggregated.txt" "notes" newRun).2.2

theorem stale_aggregate_taken :
    Runs (assigned reviewAnswers) reviewFanOut notesThere (fanned notesThere).1
      (.ok reviewOutput) (fanned notesThere).2.2 ∧
    Runs (ρ := Except PhaseError (Doc × ℕ)) perform
      (canonicalBytes concatEngines reviewInputs.runDir reviewOutput .concat)
      (fanned notesThere).2.2 (reviewArtefact notesThere).1 (.ok (.text "notes", 1))
      (reviewArtefact notesThere).2.2 ∧
    (Doc.text "notes" : Doc) ≠ .text (concatText reviewAnswers reviewTargets.zipIdx) := by
  have hadmits : Admits (fun o s => assigned reviewAnswers o s (handle reviewScript o s).1
      (handle reviewScript o s).2) (handle reviewScript) 4 reviewFanOut notesThere :=
    ⟨⟨handle_performs _ _ _, rfl⟩, ⟨handle_performs _ _ _, rfl⟩, ⟨handle_performs _ _ _, rfl⟩,
      ⟨handle_performs _ _ _, rfl⟩, trivial⟩
  refine ⟨evalFor_steps_of_admits hadmits, ?_, by decide⟩
  exact reviewArtefact_runs notesThere

end TwoTargets

end Loker.FanOut
