import Loker.FanOut
import Loker.RunStages

/-! Which marker a phase run leaves when it ends: the completed one after a success, and when the
failed one after an error. -/

namespace Loker.FailureRecords

open FileTree TextOps Programs RunFiles RunLoad RunOps Dispatch Strategies PhaseRunner RunStages
  FanOut

variable {B : Type} [RunFormat B] {runDir : Path} {cfg : PhaseConfig} {inp : PhaseInputs}
  {eng : Engines} {n : ℕ} {w w' : World B} {ρ : Type} {tr : List (Event (RunSig B))}

section Answers

/-- The answer of the operation is an error. -/
def Failed : (o : Op B) → Answer B o → Prop
  | .createDirAll _, a => ∃ message, a = .error message
  | .writeFile _ _, a => ∃ message, a = .error message
  | .readFile _, a => ∃ message, a = .error message
  | .rename _ _, a => ∃ message, a = .error message
  | .writeMarker _ _, a => ∃ message, a = .error message
  | .loadManifest _, a => ∃ e, a = .error e
  | .writeManifest _ _, a => ∃ message, a = .error message
  | .query _, a => ∃ e, a = .error e
  | .race _, a => ∃ e, a.2 = .error e
  | .verify _, a => ∃ message, a = .error message
  | _, _ => False

/-- An operation of the run has failed. -/
def Refused (tr : List (Event (RunSig B))) : Prop := ∃ ev ∈ tr, Failed ev.op ev.answer

/-- The program fails exactly where one of its operations does. -/
def Checked {ε : Type} (p : Run B ε ρ) : Prop :=
  ∀ w tr r w', Runs (ρ := Except ε ρ) perform p w tr r w' → ((∃ e, r = .error e) ↔ Refused tr)

variable {ε τ : Type} {wrap : String → ε}

lemma Checked.pure (x : ρ) : Checked (pure x : Run B ε ρ) := by
  intro w tr r w' run
  obtain ⟨rfl, rfl, _⟩ := runs_ret.mp run
  refine ⟨?_, ?_⟩
  · rintro ⟨e, he⟩
    cases he
  · rintro ⟨ev, hev, _⟩
    cases hev

lemma Checked.bind {p : Run B ε ρ} {f : ρ → Run B ε τ} (hp : Checked p) (hf : ∀ x, Checked (f x)) :
    Checked (p >>= f) := by
  intro w tr r w' run
  rcases runs_exceptBind run with ⟨e, rfl, hfirst⟩ | ⟨x, tr₁, tr₂, w₁, hfirst, hrest, rfl⟩
  · exact ⟨fun _ => (hp _ _ _ _ hfirst).mp ⟨e, rfl⟩, fun _ => ⟨e, rfl⟩⟩
  · rw [hf x _ _ _ _ hrest]
    have hheld : ¬ Refused tr₁ := fun h => by
      obtain ⟨e, he⟩ := (hp _ _ _ _ hfirst).mpr h
      cases he
    constructor
    · rintro ⟨ev, hev, hfailed⟩
      exact ⟨ev, List.mem_append_right _ hev, hfailed⟩
    · rintro ⟨ev, hev, hfailed⟩
      rcases List.mem_append.mp hev with hev | hev
      · exact absurd ⟨ev, hev, hfailed⟩ hheld
      · exact ⟨ev, hev, hfailed⟩

/-- The answer that is an error ends the program. -/
lemma checked_op {o : Op B} {f : Answer B o → Run B ε ρ}
    (hfailed : ∀ a, Failed o a → ∃ e, f a = throw e) (hheld : ∀ a, ¬ Failed o a → Checked (f a)) :
    Checked (op (S := RunSig B) o >>= f : Run B ε ρ) := by
  intro w tr r w' run
  obtain ⟨a, w₁, tr', _, hrest, rfl⟩ := runs_act run
  by_cases ha : Failed o a
  · obtain ⟨e, he⟩ := hfailed a ha
    have hthrow : Runs (ρ := Except ε ρ) perform (throw e : Run B ε ρ) w₁ tr' r w' := he ▸ hrest
    obtain ⟨_, rfl, _⟩ := runs_ret.mp hthrow
    exact ⟨fun _ => ⟨_, List.mem_cons_self, ha⟩, fun _ => ⟨e, rfl⟩⟩
  · have hiff : (∃ e, r = .error e) ↔ Refused tr' := hheld a ha _ _ _ _ hrest
    rw [hiff]
    constructor
    · rintro ⟨ev, hev, hfail⟩
      exact ⟨ev, List.mem_cons_of_mem _ hev, hfail⟩
    · rintro ⟨ev, hev, hfail⟩
      rcases List.mem_cons.mp hev with rfl | hev
      · exact absurd hfail ha
      · exact ⟨ev, hev, hfail⟩

omit [RunFormat B] in
lemma orThrow_failed {answer : Except String Unit} (h : ∃ message, answer = .error message) :
    ∃ e, (orThrow wrap answer : Run B ε Unit) = throw e := by
  obtain ⟨message, rfl⟩ := h
  exact ⟨wrap message, rfl⟩

lemma orThrow_checked {answer : Except String Unit} (h : ¬ ∃ message, answer = .error message) :
    Checked (orThrow wrap answer : Run B ε Unit) := by
  cases answer with
  | ok _ => exact Checked.pure ()
  | error message => exact absurd ⟨message, rfl⟩ h

lemma createDirOr_checked {p : Path} : Checked (createDirOr wrap p : Run B ε Unit) :=
  checked_op (fun _ => orThrow_failed) fun _ => orThrow_checked

lemma writeFileOr_checked {p : Path} {bytes : B} :
    Checked (writeFileOr wrap p bytes : Run B ε Unit) :=
  checked_op (fun _ => orThrow_failed) fun _ => orThrow_checked

lemma writeMarker_checked {m : Marker} : Checked (writeMarker runDir m : Run B PhaseError Unit) :=
  createDirOr_checked.bind fun _ => checked_op (fun _ => orThrow_failed) fun _ => orThrow_checked

lemma atomicWrite_checked {base : Path} {name : String} {bytes : B}
    (h : namesDirectory name = false) : Checked (atomicWrite base name bytes) := by
  unfold atomicWrite
  rw [h]
  exact writeFileOr_checked

lemma startAttempts_checked (is : List ℕ) :
    Checked (startAttempts cfg inp n is : Run B PhaseError Unit) := by
  induction is with
  | nil => exact Checked.pure ()
  | cons i is ih => exact writeMarker_checked.bind fun _ => ih

lemma recordTerminalFailure_checked {made : ℕ} {errorClass : String} :
    Checked (recordTerminalFailure runDir cfg made errorClass : Run B PhaseError Unit) :=
  createDirOr_checked.bind fun _ =>
    (atomicWrite_checked (by decide)).bind fun _ => writeMarker_checked

lemma callHook_checked {bytes : B} : Checked (callHook bytes) := by
  refine checked_op (fun a ha => ?_) fun a ha => ?_
  · obtain ⟨message, rfl⟩ := ha
    exact ⟨_, rfl⟩
  · cases a with
    | ok result => exact Checked.pure result
    | error message => exact absurd ⟨message, rfl⟩ ha

lemma loadOrNew_checked {runId : String} :
    Checked (loadOrNew runDir runId : Run B PhaseError Manifest) := by
  refine checked_op (o := .occupied (manifestPath runDir)) (fun _ h => False.elim h) fun there _ => ?_
  split
  · refine checked_op (fun a ha => ?_) fun a ha => ?_
    · obtain ⟨e, rfl⟩ := ha
      exact ⟨_, rfl⟩
    · cases a with
      | ok manifest => exact Checked.pure manifest
      | error e => exact absurd ⟨e, rfl⟩ ha
  · exact Checked.pure _

lemma append_checked {manifest : Manifest} {entry : ManifestEntry} :
    Checked (append runDir manifest entry : Run B PhaseError Unit) :=
  checked_op (fun _ => orThrow_failed) fun _ => orThrow_checked

lemma commit_checked {output : StrategyOutput} {verify : Option HookResult} {bytes : B}
    {attempt : ℕ} (h : namesDirectory cfg.artefactName = false) :
    Checked (commit cfg inp output verify bytes attempt) := by
  refine Checked.bind ?_ fun entry => writeMarker_checked.bind fun _ => Checked.pure _
  refine createDirOr_checked.bind fun _ => createDirOr_checked.bind fun _ => ?_
  refine (atomicWrite_checked h).bind fun _ => loadOrNew_checked.bind fun manifest => ?_
  exact append_checked.bind fun _ => Checked.pure _

end Answers

section Markers

/-- The failed marker of the phase is there. -/
def FailedThere (runDir : Path) (p : String) (t : Disk B) : Prop :=
  (fileAt t (join (markersDir runDir) (p ++ ".failed"))).isSome

/-- The completed marker of the phase is there. -/
def CompletedThere (runDir : Path) (p : String) (t : Disk B) : Prop :=
  (fileAt t (join (markersDir runDir) (p ++ ".completed"))).isSome

lemma writeMarker_there {m : Marker} :
    Achieves perform (fun _ w' => fileAt w'.disk (markerPath runDir m) = some m.bytes)
      (writeMarker runDir m : Run B PhaseError Unit) w := by
  apply Achieves.bind
  intro tr x w₁ _
  apply Achieves.bind
  intro tr₁ a w₂ run
  obtain ⟨a', w₃, tr₂, hact, hret, _⟩ := runs_act run
  obtain ⟨_, ha, rfl⟩ := runs_ret.mp hret
  cases ha
  intro tr₃ u w₄ hthrow
  rcases hact with ⟨t', ht', rfl, rfl⟩ | ⟨_, message, rfl⟩
  · obtain ⟨_, _, rfl⟩ := runs_ret.mp hthrow
    exact writeFile_self ht'
  · obtain ⟨_, hu, _⟩ := runs_ret.mp hthrow
    cases hu

lemma recordTerminalFailure_there {made : ℕ} {errorClass : String} :
    Achieves perform (fun _ w' => FailedThere runDir cfg.phase w'.disk)
      (recordTerminalFailure runDir cfg made errorClass : Run B PhaseError Unit) w := by
  apply Achieves.bind
  intro _ _ w₁ _
  apply Achieves.bind
  intro _ _ w₂ _
  refine writeMarker_there.mono fun _ w' hfile => ?_
  exact Option.isSome_iff_exists.mpr ⟨_, hfile⟩

lemma commit_completes {output : StrategyOutput} {verify : Option HookResult} {bytes : B}
    {attempt : ℕ} :
    Achieves perform (fun _ w' => CompletedThere inp.runDir cfg.phase w'.disk)
      (commit cfg inp output verify bytes attempt) w := by
  apply Achieves.bind
  intro _ entry w₁ _
  refine Achieves.bind (writeMarker_there.mono fun _ w₂ hfile => ?_)
  exact Achieves.pure (Option.isSome_iff_exists.mpr ⟨_, hfile⟩)

end Markers

section Untouched

/-- Where the phase's failed marker goes. -/
def failedPath (runDir : Path) (p : String) : Path := join (markersDir runDir) (p ++ ".failed")

/-- Another ending makes another file. -/
lemma ending_ne_failed {base : Path} (a suffix : String) {p : String} (hslash : '/' ∉ suffix.toList)
    (hlen : 2 < suffix.toList.length) (hend : suffix.toList.reverse.take 3 ≠ ['d', 'e', 'l']) :
    join base (a ++ suffix) ≠ failedPath runDir p := by
  intro heq
  obtain ⟨q, b, hq⟩ := join_ending base a hslash hlen
  obtain ⟨q', b', hq'⟩ := join_ending (markersDir runDir) p (show '/' ∉ ".failed".toList by decide)
    (by decide)
  rw [hq, failedPath, hq'] at heq
  have hlast : b ++ suffix = b' ++ ".failed" := List.singleton_inj.mp (List.append_inj' heq rfl).2
  have htake := congrArg (fun s : String => s.toList.reverse.take 3) hlast
  simp only [String.toList_append, List.reverse_append] at htake
  rw [List.take_append_of_le_length (by rw [List.length_reverse]; omega)] at htake
  exact hend htake

/-- Strategies write text and Markdown files. -/
lemma output_ne_failed {name p : String} (h : PhaseOutputName cfg inp name) :
    join runDir name ≠ failedPath runDir p := by
  obtain ⟨strategy, _, hname⟩ := h
  cases strategy with
  | singleModel backend template =>
      obtain rfl : name = singleOutput := hname
      exact ending_ne_failed "attempts/0" ".txt" (by decide) (by decide) (by decide)
  | parallelFanOut targets minResponses template aggregator =>
      rcases hname with ⟨_, rfl⟩ | ⟨idx, _, rfl⟩
      · have hsplit : aggregatedOutput inp.phaseName = inp.phaseName ++ "/aggregated" ++ ".txt" := by
          simp [aggregatedOutput, ← String.toList_inj]
        rw [hsplit]
        exact ending_ne_failed _ ".txt" (by decide) (by decide) (by decide)
      · exact ending_ne_failed _ "-parallel.txt" (by decide) (by decide) (by decide)
  | escalatingRetry rungs template hook context =>
      obtain ⟨idx, _, tier, rfl⟩ := hname
      exact ending_ne_failed _ ".md" (by decide) (by decide) (by decide)

lemma lastChar_failed (runDir : Path) (p : String) : lastChar (failedPath runDir p) = some 'd' :=
  lastChar_join_append (by decide) (by decide)

lemma started_ne_failed {dir : Path} {c : StartedMarker} {p : String} :
    markerPath dir (.started c) ≠ failedPath runDir p := by
  intro heq
  obtain ⟨ch, hch, hdigit⟩ := lastChar_started dir c.phase c.attempt
  rw [heq, lastChar_failed] at hch
  cases hch
  revert hdigit
  decide

lemma manifest_ne_failed {dir : Path} {p : String} : manifestPath dir ≠ failedPath runDir p := by
  intro heq
  have hlast := lastChar_failed runDir p
  rw [← heq, manifestPath, lastChar_concat] at hlast
  revert hlast
  decide

/-- The operation does not write the file. -/
def Spares (q : Path) : Op B → Prop
  | .writeFile p _ => p ≠ q
  | .writeMarker dir m => markerPath dir m ≠ q
  | .writeManifest dir _ => manifestPath dir ≠ q
  | .rename _ _ => False
  | _ => True

lemma spares_same {o : Op B} {a : Answer B o} {q : Path} (ho : Spares q o)
    (hact : perform o w a w') : fileAt w'.disk q = fileAt w.disk q := by
  rcases perform_effect hact with rfl | heffect
  · rfl
  cases o with
  | createDirAll p =>
      obtain ⟨t', ht', rfl⟩ := Option.map_eq_some_iff.mp heffect
      rw [createDirAll_fileAt ht']
  | writeFile p b =>
      obtain ⟨t', ht', rfl⟩ := Option.map_eq_some_iff.mp heffect
      exact writeFile_other ht' (Ne.symm ho)
  | writeMarker dir m =>
      obtain ⟨t', ht', rfl⟩ := Option.map_eq_some_iff.mp heffect
      exact writeFile_other ht' (Ne.symm ho)
  | writeManifest dir m =>
      obtain ⟨t', ht', rfl⟩ := Option.map_eq_some_iff.mp heffect
      exact writeFile_other ht' (Ne.symm ho)
  | rename src dst => exact ho.elim
  | _ => cases heffect

omit [RunFormat B] in
/-- Only the record of a failure writes the failed marker. -/
lemma phaseOp_spares {o : Op B} (ho : PhaseOp cfg inp False o) :
    Spares (failedPath inp.runDir cfg.phase) o := by
  cases o with
  | writeFile q b =>
      rcases ho with ⟨name, hname, rfl⟩ | ⟨hfalse, _⟩
      · exact output_ne_failed hname
      · exact hfalse.elim
  | writeMarker dir m =>
      obtain ⟨rfl, _, ⟨c, rfl⟩ | ⟨hfalse, _⟩⟩ := ho
      · exact started_ne_failed
      · exact hfalse.elim
  | rename src dst => exact ho
  | writeManifest dir m => exact ho.elim
  | _ => trivial

omit [RunFormat B] in
lemma commitOp_spares {o : Op B} (ho : CommitOp cfg inp.runDir o)
    (hapart : join inp.runDir cfg.artefactName ≠ failedPath inp.runDir cfg.phase) :
    Spares (failedPath inp.runDir cfg.phase) o := by
  cases o with
  | writeFile q b =>
      obtain rfl : q = join inp.runDir cfg.artefactName := ho
      exact hapart
  | writeMarker dir m =>
      obtain ⟨rfl, c, rfl, _⟩ := ho
      exact ending_ne_failed _ ".completed" (by decide) (by decide) (by decide)
  | writeManifest dir m => exact manifest_ne_failed
  | rename src dst => exact ho
  | _ => trivial

/-- The failed marker is as it was. -/
def Same (cfg : PhaseConfig) (inp : PhaseInputs) (w w' : World B) : Prop :=
  fileAt w'.disk (failedPath inp.runDir cfg.phase) = fileAt w.disk (failedPath inp.runDir cfg.phase)

omit [RunFormat B] in
lemma Same.trans {w₁ w₂ w₃ : World B} (h₁ : Same cfg inp w₁ w₂) (h₂ : Same cfg inp w₂ w₃) :
    Same cfg inp w₁ w₃ :=
  Eq.trans h₂ h₁

lemma spared_same {p p' : Prog (RunSig B) ρ}
    (hp : Emits (Spares (failedPath inp.runDir cfg.phase)) p) (run : Steps perform p w tr p' w') :
    Same cfg inp w w' :=
  run.invariant (I := Same cfg inp w)
    (hp.meets (fun _ _ _ _ ho hs hact => hs.trans (spares_same ho hact)) rfl) rfl

lemma emits_same {p p' : Prog (RunSig B) ρ} (hp : Emits (PhaseOp cfg inp False) p)
    (run : Steps perform p w tr p' w') : Same cfg inp w w' :=
  spared_same (hp.mono fun _ ho => phaseOp_spares ho) run

lemma commit_same {output : StrategyOutput} {verify : Option HookResult} {bytes : B} {attempt : ℕ}
    {r : Except PhaseError PhaseOutcome}
    (hapart : join inp.runDir cfg.artefactName ≠ failedPath inp.runDir cfg.phase)
    (run : Runs (ρ := Except PhaseError PhaseOutcome) perform
      (commit cfg inp output verify bytes attempt) w tr r w') : Same cfg inp w w' :=
  spared_same (commit_emits.mono fun _ ho => commitOp_spares ho hapart) run

/-- A record that fails has not written its marker. -/
lemma record_same {made : ℕ} {errorClass : String} {e : PhaseError}
    (run : Runs (ρ := Except PhaseError Unit) perform
      (recordTerminalFailure inp.runDir cfg made errorClass) w tr (.error e) w') :
    Same cfg inp w w' := by
  have hdir : ∀ {q : Path} {wrap : String → PhaseError},
      Emits (Spares (failedPath inp.runDir cfg.phase)) (createDirOr wrap q : Run B PhaseError Unit) :=
    createDirOr_emits trivial
  have hsummary : ∀ {q : Path} {bytes : B}, Emits (Spares (failedPath inp.runDir cfg.phase))
      (atomicWrite q "failure-summary.json" bytes : Run B PhaseError Unit) := by
    intro q bytes
    unfold atomicWrite
    split
    · exact Emits.throw _
    · refine writeFileOr_emits ?_
      exact ending_ne_failed "failure-summary" ".json" (by decide) (by decide)
        (by decide)
  unfold recordTerminalFailure at run
  rcases runs_exceptBind run with ⟨_, _, hfirst⟩ | ⟨_, _, _, w₁, hfirst, hrest, _⟩
  · exact spared_same hdir hfirst
  refine (spared_same hdir hfirst).trans ?_
  rcases runs_exceptBind hrest with ⟨_, _, hsecond⟩ | ⟨_, _, _, w₂, hsecond, hrest, _⟩
  · exact spared_same hsummary hsecond
  refine (spared_same hsummary hsecond).trans ?_
  rcases runs_exceptBind hrest with ⟨_, _, hthird⟩ | ⟨_, _, _, w₃, hthird, hrest, _⟩
  · exact spared_same hdir hthird
  refine (spared_same hdir hthird).trans ?_
  obtain ⟨a, w₄, tr₄, hact, hlast, _⟩ := runs_act hrest
  rcases hact with ⟨t', _, _, rfl⟩ | ⟨rfl, message, rfl⟩
  · obtain ⟨_, hok, _⟩ := runs_ret.mp hlast
    cases hok
  · obtain ⟨_, _, rfl⟩ := runs_ret.mp hlast
    rfl

variable {tr₁ tr₂ : List (Event (RunSig B))} {w₁ : World B} {output : StrategyOutput} {x : B × ℕ}

lemma Started.same (h : Started cfg inp n w tr w') : Same cfg inp w w' :=
  emits_same startAttempt_emits h.2

lemma execute_same {strategy : Strategy String} {r : Except StrategyError StrategyOutput}
    (hresolved : resolveStrategy cfg inp.verify = .ok strategy)
    (run : Runs (ρ := Except StrategyError StrategyOutput) perform (execute eng inp strategy) w tr r
      w') : Same cfg inp w w' :=
  emits_same (execute_phaseOp hresolved) run

lemma canonical_same {aggregator : AggregatorName} {r : Except PhaseError (B × ℕ)}
    (run : Runs (ρ := Except PhaseError (B × ℕ)) perform
      (canonicalBytes eng inp.runDir output aggregator) w tr r w') : Same cfg inp w w' :=
  emits_same (canonicalBytes_emits (fun _ => trivial) fun _ => trivial) run

lemma Executed.same (h : Executed eng cfg inp n w tr output w') : Same cfg inp w w' := by
  obtain ⟨strategy, tr₁, tr₂, w₁, hstarted, hresolved, hexecute, _⟩ := h
  exact (Started.same hstarted).trans (execute_same hresolved hexecute)

lemma Marked.same (h : Marked eng cfg inp n w tr output w') : Same cfg inp w w' := by
  obtain ⟨tr₁, tr₂, w₁, hexecuted, hmarks, _⟩ := h
  exact (Executed.same hexecuted).trans (emits_same (startAttempts_emits _) hmarks)

lemma Produced.same (h : Produced eng cfg inp n w tr output x w') : Same cfg inp w w' := by
  obtain ⟨tr₁, tr₂, w₁, hmarked, hcanonical, _⟩ := h
  exact (Marked.same hmarked).trans (canonical_same hcanonical)

lemma Accepted.same {verify : Option HookResult}
    (h : Accepted eng cfg inp n w tr output verify x w') : Same cfg inp w w' := by
  obtain ⟨tr₁, tr₂, w₁, hproduced, hverify, _⟩ := h
  have hkept : Same cfg inp w₁ w' := runVerify_achieves (I := Same cfg inp w₁)
    (fun _ _ _ _ ho hs hact => Same.trans hs (spares_same (phaseOp_spares ho) hact)) rfl _ _ _ hverify
  exact (Produced.same hproduced).trans hkept

lemma Fails.same {made : ℕ} {e : PhaseError} (h : Fails eng cfg inp n w tr made e w') :
    Same cfg inp w w' := by
  cases h with
  | strategy started resolved failed => exact (Started.same started).trans (execute_same resolved failed)
  | canonical marked failed => exact (Marked.same marked).trans (canonical_same failed)
  | verdict produced hooked judged rejected =>
      exact (Produced.same produced).trans (emits_same (callHook_emits fun _ => trivial) judged)

end Untouched

section Recorded

variable {r : Except PhaseError PhaseOutcome} {tr₁ tr₂ : List (Event (RunSig B))} {w₁ : World B}

/-- A run to success writes no failed marker. -/
lemma run_unfailed :
    Achieves perform (fun _ w' => ∀ c, .failed c ∈ w'.log → .failed c ∈ w.log)
      (PhaseRunner.run eng cfg inp n) w := by
  have hstep : ∀ (o : Op B) (s : World B) (a : Answer B o) (s' : World B),
      (∀ dir m, o = .writeMarker dir m → ∀ c, m ≠ .failed c) →
      (∀ c, .failed c ∈ s.log → .failed c ∈ w.log) → perform o s a s' →
      ∀ c, .failed c ∈ s'.log → .failed c ∈ w.log := by
    intro o s a s' ho hs hact c hc
    rcases log_step hact with hlog | ⟨dir, m, hm, hlog⟩
    · exact hs c (hlog ▸ hc)
    · rw [hlog] at hc
      rcases List.mem_cons.mp hc with heq | hmem
      · exact absurd heq.symm (ho dir m hm c)
      · exact hs c hmem
  apply Achieves.bind
  refine (attemptPhase_achieves (fun o s a s' ho hs hact => hstep o s a s' ?_ hs hact)
    fun _ h => h).mono fun chosen w₁ hw₁ => ?_
  · rintro dir m rfl c rfl
    rcases ho with ⟨_, _, ⟨_, hm⟩ | ⟨hfalse, _⟩⟩
    · cases hm
    · exact hfalse
  · refine commit_emits.achieves (fun o s a s' ho hs hact => hstep o s a s' ?_ hs hact) hw₁
    rintro dir m rfl c rfl
    obtain ⟨_, c', hm, _⟩ := ho
    cases hm

/-- No operation of a run takes a file away. -/
lemma run_keeps {q : Path} {p : Prog (RunSig B) (Except PhaseError PhaseOutcome)}
    (hsteps : Steps perform (PhaseRunner.run eng cfg inp n) w tr p w')
    (h : (fileAt w.disk q).isSome) : (fileAt w'.disk q).isSome := by
  have hwrite : ∀ {t t' : Disk B} {q' : Path} {b : B}, writeFile t q' b = some t' →
      (fileAt t q).isSome → (fileAt t' q).isSome := by
    intro t t' q' b ht hq
    rw [writeFile_fileAt ht]
    by_cases heq : q = q'
    · simp [heq]
    · rwa [Function.update_of_ne heq]
  have hemits : Emits (fun o => PhaseOp (B := B) cfg inp True o ∨ CommitOp cfg inp.runDir o)
      (PhaseRunner.run eng cfg inp n) := run_emits
  refine hsteps.invariant (I := fun s => (fileAt s.disk q).isSome)
    (hemits.meets (fun o s a s' ho hs hact => ?_) h) h
  rcases perform_effect hact with rfl | heffect
  · exact hs
  cases o with
  | createDirAll p =>
      obtain ⟨t', ht', rfl⟩ := Option.map_eq_some_iff.mp heffect
      rwa [createDirAll_fileAt ht']
  | writeFile p b =>
      obtain ⟨t', ht', rfl⟩ := Option.map_eq_some_iff.mp heffect
      exact hwrite ht' hs
  | writeMarker dir m =>
      obtain ⟨t', ht', rfl⟩ := Option.map_eq_some_iff.mp heffect
      exact hwrite ht' hs
  | writeManifest dir m =>
      obtain ⟨t', ht', rfl⟩ := Option.map_eq_some_iff.mp heffect
      exact hwrite ht' hs
  | rename src dst =>
      rcases ho with ho | ho
      · cases ho
      · cases ho
  | _ => cases heffect

/-- The event of the attempt's started marker. -/
def startedEvent (cfg : PhaseConfig) (inp : PhaseInputs) (n : ℕ) : Event (RunSig B) :=
  ⟨.writeMarker inp.runDir (.started ⟨cfg.phase, n⟩), .ok ()⟩

/-- A success has its completed marker and no new failed one, and an error after the started marker
its failed marker. -/
def Records (cfg : PhaseConfig) (inp : PhaseInputs) (n : ℕ) (w : World B)
    (tr : List (Event (RunSig B))) (r : Except PhaseError PhaseOutcome) (w' : World B) : Prop :=
  (∀ outcome, r = .ok outcome → CompletedThere inp.runDir cfg.phase w'.disk ∧
      ∀ c, .failed c ∈ w'.log → .failed c ∈ w.log) ∧
    ∀ e, r = .error e → startedEvent cfg inp n ∈ tr → FailedThere inp.runDir cfg.phase w'.disk

/-- What goes wrong after the started marker without a record of it: no strategy can be made of the
configuration, a further started marker is refused, the hook is missing or its call fails, a step
of the record itself is refused, or the artefact's name is none of a file or a step of the commit
is refused. -/
inductive Mishap (eng : Engines) (cfg : PhaseConfig) (inp : PhaseInputs) (n : ℕ) (w : World B) :
    List (Event (RunSig B)) → Except PhaseError PhaseOutcome → World B → Prop
  | unresolved {tr e w'} (started : Started cfg inp n w tr w')
      (failed : resolveStrategy cfg inp.verify = .error e) :
      Mishap eng cfg inp n w tr (.error (dispatchError e)) w'
  | unmarked {tr₁ tr₂ r e output w₁ w'} (executed : Executed eng cfg inp n w tr₁ output w₁)
      (marks : Runs (ρ := Except PhaseError Unit) perform
        (startAttempts cfg inp n (furtherAttempts output)) w₁ tr₂ r w')
      (refused : Refused tr₂) : Mishap eng cfg inp n w (tr₁ ++ tr₂) (.error e) w'
  | unhooked {tr output x e w'} (produced : Produced eng cfg inp n w tr output x w')
      (judged : cfg.verify ≠ .none) (missing : resolveVerifyHook cfg inp = .error e) :
      Mishap eng cfg inp n w tr (.error e) w'
  | unanswered {tr₁ tr₂ r e output x w₁ w'} (produced : Produced eng cfg inp n w tr₁ output x w₁)
      (hooked : Hooked cfg inp)
      (call : Runs (ρ := Except PhaseError HookResult) perform (callHook x.1) w₁ tr₂ r w')
      (refused : Refused tr₂) : Mishap eng cfg inp n w (tr₁ ++ tr₂) (.error e) w'
  | unrecorded {tr₁ tr₂ r made e w₁ w'} (fails : Fails eng cfg inp n w tr₁ made e w₁)
      (record : Runs (ρ := Except PhaseError Unit) perform
        (recordTerminalFailure inp.runDir cfg made (errorClass e)) w₁ tr₂ r w')
      (refused : Refused tr₂) : Mishap eng cfg inp n w (tr₁ ++ tr₂) (.error e) w'
  | uncommitted {tr₁ tr₂ e output verify x w₁ w'}
      (accepted : Accepted eng cfg inp n w tr₁ output verify x w₁)
      (commit : Runs (ρ := Except PhaseError PhaseOutcome) perform
        (commit cfg inp output verify x.1 (n + x.2)) w₁ tr₂ (.error e) w')
      (refused : namesDirectory cfg.artefactName = true ∨ Refused tr₂) :
      Mishap eng cfg inp n w (tr₁ ++ tr₂) (.error e) w'

omit [RunFormat B] in
lemma orThrow_run {ε : Type} {wrap : String → ε} {answer : Except String Unit}
    {sem : Semantics (RunSig B) (World B)} {r : Except ε Unit}
    (run : Runs (ρ := Except ε Unit) sem (orThrow wrap answer : Run B ε Unit) w tr r w') :
    tr = [] ∧ (r = .ok () ↔ answer = .ok ()) := by
  cases answer with
  | ok u =>
      obtain ⟨rfl, rfl, _⟩ := runs_ret.mp run
      exact ⟨rfl, iff_of_true rfl rfl⟩
  | error e =>
      obtain ⟨rfl, rfl, _⟩ := runs_ret.mp run
      exact ⟨rfl, by simp⟩

/-- The started marker's event is the last one of a start that succeeds. -/
lemma startAttempt_mem {r : Except PhaseError Unit}
    (run : Runs (ρ := Except PhaseError Unit) perform (startAttempt inp.runDir cfg.phase n) w tr r
      w') : startedEvent cfg inp n ∈ tr ↔ r = .ok () := by
  have hdir : ∀ {tr r w₁}, Runs (ρ := Except PhaseError Unit) perform
      (createDirOr .marker (markersDir inp.runDir)) w tr r w₁ → startedEvent (B := B) cfg inp n ∉ tr := by
    intro tr r w₁ hfirst hmem
    obtain ⟨a, w₂, tr', _, hrest, rfl⟩ := runs_act hfirst
    rw [(orThrow_run hrest).1, List.mem_singleton] at hmem
    cases hmem
  rcases runs_exceptBind run with ⟨e, rfl, hfirst⟩ | ⟨_, tr₃, tr₄, w₁, hfirst, hrest, rfl⟩
  · exact iff_of_false (hdir hfirst) (by simp)
  · obtain ⟨a, w₂, tr₅, _, hthrow, rfl⟩ := runs_act hrest
    obtain ⟨rfl, hok⟩ := orThrow_run hthrow
    rw [hok]
    constructor
    · intro hmem
      rcases List.mem_append.mp hmem with hmem | hmem
      · exact absurd hmem (hdir hfirst)
      · cases List.mem_singleton.mp hmem
        rfl
    · intro ha
      obtain rfl : a = .ok () := ha
      exact List.mem_append_right _ List.mem_cons_self

lemma Executed.mem {output : StrategyOutput} (h : Executed eng cfg inp n w tr output w') :
    startedEvent cfg inp n ∈ tr := by
  obtain ⟨strategy, tr₁, tr₂, w₁, hstarted, _, _, rfl⟩ := h
  exact List.mem_append_left _ ((startAttempt_mem hstarted.2).mpr rfl)

lemma Produced.mem {output : StrategyOutput} {x : B × ℕ}
    (h : Produced eng cfg inp n w tr output x w') : startedEvent cfg inp n ∈ tr := by
  obtain ⟨tr₁, tr₂, w₁, ⟨tr₃, tr₄, w₂, hexecuted, _, rfl⟩, _, rfl⟩ := h
  exact List.mem_append_left _ (List.mem_append_left _ (Executed.mem hexecuted))

lemma Accepted.mem {output : StrategyOutput} {verify : Option HookResult} {x : B × ℕ}
    (h : Accepted eng cfg inp n w tr output verify x w') : startedEvent cfg inp n ∈ tr := by
  obtain ⟨tr₁, tr₂, w₁, hproduced, _, rfl⟩ := h
  exact List.mem_append_left _ (Produced.mem hproduced)

lemma Fails.mem {made : ℕ} {e : PhaseError} (h : Fails eng cfg inp n w tr made e w') :
    startedEvent cfg inp n ∈ tr := by
  cases h with
  | strategy started resolved failed =>
      exact List.mem_append_left _ ((startAttempt_mem started.2).mpr rfl)
  | canonical marked failed =>
      obtain ⟨tr₃, tr₄, w₂, hexecuted, _, rfl⟩ := marked
      exact List.mem_append_left _ (List.mem_append_left _ (Executed.mem hexecuted))
  | verdict produced hooked judged rejected => exact List.mem_append_left _ (Produced.mem produced)

/-- A mishap comes after the started marker and leaves no failed marker. -/
lemma Mishap.unrecorded_error
    (hapart : join inp.runDir cfg.artefactName ≠ failedPath inp.runDir cfg.phase)
    (h : Mishap eng cfg inp n w tr r w') :
    (∃ e, r = .error e) ∧ startedEvent cfg inp n ∈ tr ∧ Same cfg inp w w' := by
  cases h with
  | unresolved started failed =>
      exact ⟨⟨_, rfl⟩, (startAttempt_mem started.2).mpr rfl, Started.same started⟩
  | unmarked executed marks refused =>
      exact ⟨⟨_, rfl⟩, List.mem_append_left _ (Executed.mem executed),
        (Executed.same executed).trans (emits_same (startAttempts_emits _) marks)⟩
  | unhooked produced judged missing => exact ⟨⟨_, rfl⟩, Produced.mem produced, Produced.same produced⟩
  | unanswered produced hooked call refused =>
      exact ⟨⟨_, rfl⟩, List.mem_append_left _ (Produced.mem produced),
        (Produced.same produced).trans (emits_same (callHook_emits fun _ => trivial) call)⟩
  | unrecorded fails record refused =>
      obtain ⟨e', rfl⟩ := (recordTerminalFailure_checked _ _ _ _ record).mpr refused
      exact ⟨⟨_, rfl⟩, List.mem_append_left _ (Fails.mem fails),
        (Fails.same fails).trans (record_same record)⟩
  | uncommitted accepted commit refused =>
      exact ⟨⟨_, rfl⟩, List.mem_append_left _ (Accepted.mem accepted),
        (Accepted.same accepted).trans (commit_same hapart commit)⟩

/-- A run that ends in an error after its started marker, without a mishap, has recorded it. -/
lemma Ends.recorded {e : PhaseError} (h : Ends eng cfg inp n w tr (.error e) w')
    (hmishap : ¬ Mishap eng cfg inp n w tr (.error e) w') (hstarted : startedEvent cfg inp n ∈ tr) :
    FailedThere inp.runDir cfg.phase w'.disk := by
  cases h with
  | invalid invalid => cases hstarted
  | unstarted valid failed => cases (startAttempt_mem failed).mp hstarted
  | unresolved started failed => exact absurd (.unresolved started failed) hmishap
  | unmarked executed failed =>
      exact absurd (.unmarked executed failed ((startAttempts_checked _ _ _ _ _ failed).mp ⟨_, rfl⟩))
        hmishap
  | unhooked produced judged missing => exact absurd (.unhooked produced judged missing) hmishap
  | unanswered produced hooked failed =>
      exact absurd (.unanswered produced hooked failed ((callHook_checked _ _ _ _ failed).mp ⟨_, rfl⟩))
        hmishap
  | @failed tr₁ tr₂ made _ r₁ w₁ _ fails record =>
      cases r₁ with
      | ok u => exact recordTerminalFailure_there _ _ _ record
      | error e' =>
          have hrefused := (recordTerminalFailure_checked _ _ _ _ record).mp ⟨e', rfl⟩
          exact absurd (.unrecorded fails record hrefused) hmishap
  | committed accepted commit =>
      refine absurd (.uncommitted accepted commit ?_) hmishap
      by_cases hname : namesDirectory cfg.artefactName = true
      · exact Or.inl hname
      · exact Or.inr ((commit_checked (by simpa using hname) _ _ _ _ commit).mp ⟨e, rfl⟩)

end Recorded

section Unrecorded

open CrashHistories

/-- A run in which the backend cannot be reached. -/
def unreached (cfg : PhaseConfig) (w : World Doc) :
    List (Event (RunSig Doc)) × Except PhaseError PhaseOutcome × World Doc :=
  eval (handle ⟨fun _ => .error (.network "down"), fun _ => .ok .pass⟩)
    (PhaseRunner.run plainEngines cfg designInputs 0) w

lemma unreached_runs (cfg : PhaseConfig) (w : World Doc) :
    Runs perform (PhaseRunner.run plainEngines cfg designInputs 0) w (unreached cfg w).1
      (unreached cfg w).2.1 (unreached cfg w).2.2 :=
  eval_runs (handle_performs _) _ _

/-- The event of the first started marker of the phase `design`. -/
def designStarted : Event (RunSig Doc) :=
  ⟨.writeMarker ["run"] (.started ⟨"design", 0⟩), .ok ()⟩

/-- An escalating phase whose hook is not there. -/
def unhookedPhase : PhaseConfig :=
  { designPhase with
    strategy := .escalatingRetry
    producer := .escalating
    rungs := [⟨.cheap, "claude"⟩] }

/-- A run directory with a file where the phase's archive should be. -/
def blockedRun : World Doc :=
  ⟨(writeFile newRun.disk ["run", "attempts", "design"] (.text "")).getD Disk.empty, []⟩

end Unrecorded

end Loker.FailureRecords
