import Loker.FailureRecords
import Loker.MarkerNames

/-! A phase whose last run recorded its failure: the number its resume gets, the place in the archive
that the record has taken, and when the resumed run is reached. -/

namespace Loker.FailedAttempts

open FileTree TextOps TextSearch Programs RunFiles RunLoad LoadSpec RunOps Dispatch Strategies
  PhaseRunner Resume CommitProtocol RunLayout CrashHistories Resumability RunStages AttemptNumbers
  MarkerNames

variable {B : Type} [RunFormat B] {runDir : Path} {phases : List PhaseConfig} {p : String} {k : ℕ}
  {t t' : Disk B} {w w' : World B} {cfg : PhaseConfig} {inp : PhaseInputs} {eng : Engines}

section Numbers

/-- Every attempt of the phase that the scan counts has a smaller number. -/
def Below (runDir : Path) (p : String) (k : ℕ) (t : Disk B) : Prop :=
  ∀ a, Counted t runDir p a → a < k

/-- What an operation that leaves no attempt from `k` on, and moves none, may do. -/
def CountsBelow (runDir : Path) (p : String) (k : ℕ) : Op B → Prop
  | .createDirAll q => ∀ s a, attemptsDir runDir p ++ [s] <+: q → parseU32 s = some a → a < k
  | .writeFile q _ => ¬ markersDir runDir <+: q
  | .rename src dst => (∀ name, ¬ dst <+: markersDir runDir ++ [name]) ∧
      ∀ s, ¬ dst <+: attemptsDir runDir p ++ [s] ∧ (src <+: attemptsDir runDir p ++ [s] → src <+: dst)
  | .writeMarker dir m => dir = runDir ∧ '/' ∉ m.phase.toList ∧
      (startsWith m.fileName (p ++ ".started.") = true → ∃ c, m = .started c ∧ c.attempt < k)
  | .writeManifest dir _ => dir = runDir
  | _ => True

/-- What is counted after a step is small or was counted before it. -/
lemma Below.step (h : Below runDir p k t)
    (hmarkers : ∀ name a, startsWith name (p ++ ".started.") = true →
      attemptIn t' runDir name = some a → a < k ∨ attemptIn t runDir name = some a)
    (hdirs : ∀ s a, isDir t' (attemptsDir runDir p ++ [s]) = true → parseU32 s = some a →
      a < k ∨ isDir t (attemptsDir runDir p ++ [s]) = true) : Below runDir p k t' := by
  rintro a (hstarted | hdir)
  · obtain ⟨name, hstart, hattempt⟩ := mem_startedAttempts.mp hstarted
    rcases hmarkers name a hstart hattempt with hlt | hold
    · exact hlt
    · exact h a (Or.inl (mem_startedAttempts.mpr ⟨name, hstart, hold⟩))
  · obtain ⟨s, hisDir, hparse⟩ := mem_dirAttempts.mp hdir
    rcases hdirs s a hisDir hparse with hlt | hold
    · exact hlt
    · exact h a (Or.inr (mem_dirAttempts.mpr ⟨s, hold, hparse⟩))

lemma attemptIn_congr {name : String}
    (h : fileAt t' (markersDir runDir ++ [name]) = fileAt t (markersDir runDir ++ [name])) :
    attemptIn t' runDir name = attemptIn t runDir name := by
  rw [attemptIn, attemptIn, h]

omit [RunFormat B] in
lemma isDir_of_writeFile {q r : Path} {b : B} (h : writeFile t q b = some t')
    (hr : isDir t' r = true) : isDir t r = true := by
  rw [isDir, writeFile_node h] at hr
  by_cases heq : r = q
  · simp [heq] at hr
  · rwa [if_neg heq] at hr

lemma below_createDirAll {q : Path}
    (hq : ∀ s a, attemptsDir runDir p ++ [s] <+: q → parseU32 s = some a → a < k)
    (h : createDirAll t q = some t') (hw : Below runDir p k t) : Below runDir p k t' := by
  refine hw.step (fun name a _ hattempt => Or.inr ?_) fun s a hdir hparse => ?_
  · have hfile : fileAt t' (markersDir runDir ++ [name]) = fileAt t (markersDir runDir ++ [name]) := by
      rw [createDirAll_fileAt h]
    rwa [attemptIn_congr hfile] at hattempt
  · by_cases hpre : attemptsDir runDir p ++ [s] <+: q
    · exact Or.inl (hq s a hpre hparse)
    · rw [isDir, createDirAll_node h, if_neg hpre] at hdir
      exact Or.inr hdir

lemma below_writeFile {q : Path} {b : B} (hq : ¬ markersDir runDir <+: q)
    (h : writeFile t q b = some t') (hw : Below runDir p k t) : Below runDir p k t' := by
  refine hw.step (fun name a _ hattempt => Or.inr ?_) fun s a hdir _ =>
    Or.inr (isDir_of_writeFile h hdir)
  have hne : markersDir runDir ++ [name] ≠ q := fun heq => hq ⟨[name], heq⟩
  rwa [attemptIn_congr (writeFile_other h hne)] at hattempt

lemma below_rename {src dst : Path} (hmarkers : ∀ name, ¬ dst <+: markersDir runDir ++ [name])
    (hattempts : ∀ s, ¬ dst <+: attemptsDir runDir p ++ [s]) (h : rename t src dst = some t')
    (hw : Below runDir p k t) : Below runDir p k t' := by
  refine hw.step (fun name a _ hattempt => Or.inr ?_) fun s a hdir _ => Or.inr ?_
  · rcases rename_eq_none_or h (hmarkers name) with hnone | hsame
    · have hfile : fileAt t' (markersDir runDir ++ [name]) = none := fileAt_eq_none.mpr (Or.inl hnone)
      simp [attemptIn, hfile] at hattempt
    · rwa [attemptIn_congr (fileAt_congr hsame)] at hattempt
  · rcases rename_eq_none_or h (hattempts s) with hnone | hsame
    · simp [isDir, hnone] at hdir
    · rwa [isDir, hsame] at hdir

lemma below_marker {m : Marker} (hslash : '/' ∉ m.phase.toList)
    (hm : startsWith m.fileName (p ++ ".started.") = true → ∃ c, m = .started c ∧ c.attempt < k)
    (h : writeFile t (markerPath runDir m) m.bytes = some t') (hw : Below runDir p k t) :
    Below runDir p k t' := by
  rw [markerPath_eq (isName_fileName hslash)] at h
  refine hw.step (fun name a hstart hattempt => ?_) fun s a hdir _ =>
    Or.inr (isDir_of_writeFile h hdir)
  by_cases heq : name = m.fileName
  · subst heq
    obtain ⟨c, rfl, hlt⟩ := hm hstart
    have hread : RunFormat.readStarted (Marker.started c).bytes = some c :=
      RunFormat.readStarted_ofStarted (B := B) c
    rw [attemptIn, writeFile_self h, Option.bind_some, hread, Option.map_some] at hattempt
    cases hattempt
    exact Or.inl hlt
  · have hne : markersDir runDir ++ [name] ≠ markersDir runDir ++ [m.fileName] := by simpa using heq
    rw [attemptIn_congr (writeFile_other h hne)] at hattempt
    exact Or.inr hattempt

lemma below_step {o : Op B} {a : Answer B o} (ho : CountsBelow runDir p k o)
    (hw : Below runDir p k w.disk) (h : perform o w a w') : Below runDir p k w'.disk := by
  rcases perform_effect h with rfl | heffect
  · exact hw
  cases o with
  | createDirAll q =>
      obtain ⟨t', ht', rfl⟩ := Option.map_eq_some_iff.mp heffect
      exact below_createDirAll ho ht' hw
  | writeFile q b =>
      obtain ⟨t', ht', rfl⟩ := Option.map_eq_some_iff.mp heffect
      exact below_writeFile ho ht' hw
  | rename src dst =>
      obtain ⟨t', ht', rfl⟩ := Option.map_eq_some_iff.mp heffect
      exact below_rename ho.1 (fun s => (ho.2 s).1) ht' hw
  | writeMarker dir m =>
      obtain ⟨rfl, hslash, hm⟩ := ho
      obtain ⟨t', ht', rfl⟩ := Option.map_eq_some_iff.mp heffect
      exact below_marker hslash hm ht' hw
  | writeManifest dir m =>
      obtain rfl : dir = runDir := ho
      obtain ⟨t', ht', rfl⟩ := Option.map_eq_some_iff.mp heffect
      refine below_writeFile ?_ ht' hw
      simp [manifestPath, markersDir, List.prefix_append_right_inj]
  | _ => cases heffect

/-- An attempt in the archive stays where it is. -/
lemma archived_step {o : Op B} {a : Answer B o} {s : String} (ho : CountsBelow runDir p k o)
    (hw : isDir w.disk (attemptsDir runDir p ++ [s]) = true) (h : perform o w a w') :
    isDir w'.disk (attemptsDir runDir p ++ [s]) = true := by
  rcases perform_effect h with rfl | heffect
  · exact hw
  cases o with
  | createDirAll q =>
      obtain ⟨t', ht', rfl⟩ := Option.map_eq_some_iff.mp heffect
      exact createDirAll_isDir_of ht' hw
  | writeFile q b =>
      obtain ⟨t', ht', rfl⟩ := Option.map_eq_some_iff.mp heffect
      exact writeFile_isDir ht' hw
  | rename src dst =>
      obtain ⟨t', ht', rfl⟩ := Option.map_eq_some_iff.mp heffect
      obtain ⟨hmovable, _⟩ := rename_eq_some.mp ht'
      obtain ⟨hdst, hsrc⟩ := ho.2 s
      rw [isDir_iff] at hw ⊢
      rw [rename_node ht' (fun hle => hmovable.not_inside (hsrc hle)) hdst, hw]
  | writeMarker dir m =>
      obtain ⟨t', ht', rfl⟩ := Option.map_eq_some_iff.mp heffect
      exact writeFile_isDir ht' hw
  | writeManifest dir m =>
      obtain ⟨t', ht', rfl⟩ := Option.map_eq_some_iff.mp heffect
      exact writeFile_isDir ht' hw
  | _ => cases heffect

end Numbers

section Operations

lemma not_attempt_short {q : Path} (hp : IsName p) (hlen : q.length ≤ runDir.length + 2) (s : String) :
    ¬ attemptsDir runDir p ++ [s] <+: q := by
  intro hle
  have hlong := hle.length_le
  rw [attemptsDir_eq hp] at hlong
  simp only [List.length_append, List.length_cons, List.length_nil] at hlong
  omega

omit [RunFormat B] in
/-- A strategy's outputs are no markers, and the directories made for them no attempts. -/
lemma output_countsBelow (hapart : MarkersApart runDir phases p) (hmem : cfg ∈ phases) (hp : IsName p)
    {strategy : Strategy String} {name : String} (houtput : OutputName cfg.phase strategy name)
    (b : B) : CountsBelow runDir p k (.createDirAll (B := B) (join runDir name).dropLast) ∧
      CountsBelow runDir p k (.writeFile (join runDir name) b) := by
  obtain ⟨hphase, hmarkers⟩ := hapart.phase_name cfg hmem
  have hplace : join runDir name = runDir ++ ["attempts", "0.txt"] ∨
      join runDir name = runDir ++ [cfg.phase, "aggregated.txt"] ∨
      ∃ s, join runDir name = runDir ++ [cfg.phase, "attempts", s] := join_outputName hphase houtput
  rcases hplace with heq | heq | ⟨s, heq⟩
  · rw [heq, List.dropLast_append_of_ne_nil (by simp)]
    exact ⟨fun s a hle => absurd hle (not_attempt_short hp (by simp) s),
      not_markers_below (by decide)⟩
  · rw [heq, List.dropLast_append_of_ne_nil (by simp)]
    exact ⟨fun s a hle => absurd hle (not_attempt_short hp (by simp) s),
      not_markers_below hmarkers⟩
  · rw [heq, List.dropLast_append_of_ne_nil (by simp)]
    exact ⟨fun s a hle => absurd hle (not_attempt_short hp (by simp) s),
      not_markers_below hmarkers⟩

omit [RunFormat B] in
lemma markersDir_countsBelow (hp : IsName p) :
    CountsBelow runDir p k (.createDirAll (B := B) (markersDir runDir)) :=
  fun s _ hle => absurd hle (not_attempt_short hp (by simp [markersDir]) s)

omit [RunFormat B] in
/-- Only a started marker of the phase itself is counted. -/
lemma marker_countsBelow (hapart : MarkersApart runDir phases p) (hmem : cfg ∈ phases) {m : Marker}
    (hphase : m.phase = cfg.phase) (hstarted : ∀ c, m = .started c → p = cfg.phase → c.attempt < k) :
    CountsBelow runDir p k (.writeMarker (B := B) runDir m) := by
  refine ⟨rfl, ?_, fun hstart => ?_⟩
  · rw [hphase]
    exact (hapart.phase_name cfg hmem).1.no_slash
  · rcases scanned_fileName hstart with hname | ⟨heq, c, hc⟩
    · obtain ⟨r, hr⟩ := startsWith_iff.mp hname
      have hfalse := (hapart.marker_name cfg hmem).1
      have hsplit : cfg.phase ++ ".completed" = cfg.phase ++ "." ++ "completed" := by
        simp [← String.toList_inj]
      rw [hsplit, ← hphase, hr, String.append_assoc] at hfalse
      have htrue : startsWith (p ++ ".started." ++ (r ++ "completed")) (p ++ ".started.") = true :=
        startsWith_iff.mpr ⟨_, rfl⟩
      rw [htrue] at hfalse
      cases hfalse
    · exact ⟨c, hc, hstarted c hc (heq.trans hphase)⟩

omit [RunFormat B] in
/-- Another phase has its own archive. -/
lemma archive_countsBelow (hphase : IsName cfg.phase) (hp : IsName p) (hne : cfg.phase ≠ p) (n : ℕ) :
    CountsBelow runDir p k (.createDirAll (B := B) (archivePath runDir cfg.phase n)) := by
  intro s a hle _
  rw [archivePath_eq hphase, attemptsDir_eq hp, List.append_assoc, List.prefix_append_right_inj] at hle
  simp only [List.cons_append, List.nil_append, List.cons_prefix_cons] at hle
  exact absurd hle.2.1.symm hne

/-- Whatever a run or a resume of another phase does leaves the attempts of the phase alone. -/
lemma action_countsBelow (hapart : MarkersApart runDir phases p) (hmem : cfg ∈ phases)
    (hparent : ¬ attemptsDir runDir p <+: parentOf runDir cfg.artefactName) (hp : IsName p)
    (hne : cfg.phase ≠ p) (hdir : inp.runDir = runDir) (hname : inp.phaseName = cfg.phase) {o : Op B}
    (ho : ActionOp cfg inp o) : CountsBelow runDir p k o := by
  subst hdir
  obtain ⟨hphase, hmarkers⟩ := hapart.phase_name cfg hmem
  have hother : ∀ {m : Marker}, m.phase = cfg.phase →
      CountsBelow inp.runDir p k (.writeMarker (B := B) inp.runDir m) :=
    fun hm => marker_countsBelow hapart hmem hm fun _ _ heq => absurd heq.symm hne
  cases o with
  | createDirAll q =>
      rcases ho with (rfl | ⟨name, ⟨strategy, _, houtput⟩, rfl⟩ | ⟨_, n, rfl⟩) |
        (rfl | rfl | rfl) | (rfl | rfl)
      · exact markersDir_countsBelow hp
      · exact (output_countsBelow hapart hmem hp (hname ▸ houtput) (RunFormat.ofText "")).1
      · exact archive_countsBelow hphase hp hne n
      · exact fun s a hle => absurd hle (not_attempt_short hp (by simp) s)
      · exact fun s a hle => absurd ((List.prefix_append _ _).trans hle) hparent
      · exact markersDir_countsBelow hp
      · refine fun s a hle => absurd hle (not_attempt_short hp ?_ s)
        rw [join_of_isName hphase]
        simp
      · exact fun s a hle => absurd hle (not_attempt_short hp (by simp) s)
  | writeFile q b =>
      rcases ho with (⟨name, ⟨strategy, _, houtput⟩, rfl⟩ | ⟨_, n, rfl⟩) | rfl | rfl
      · exact (output_countsBelow hapart hmem hp (hname ▸ houtput) b).2
      · rw [CountsBelow, join_of_isName (by decide), archivePath_eq hphase, List.append_assoc]
        exact not_markers_below (by decide)
      · exact (hapart.output cfg hmem).1
      · rw [CountsBelow, lockPath_eq hphase.no_slash]
        exact not_markers_below (by decide)
  | writeMarker dir m =>
      rcases ho with ⟨rfl, hm, _⟩ | ⟨rfl, c, rfl, hm⟩ | hfalse
      · exact hother hm
      · exact hother hm
      · exact hfalse.elim
  | writeManifest dir m =>
      rcases ho with hfalse | hdir | hfalse
      · exact hfalse.elim
      · exact hdir
      · exact hfalse.elim
  | rename src dst =>
      rcases ho with hfalse | hfalse | ⟨rfl, n, rfl⟩
      · exact hfalse.elim
      · exact hfalse.elim
      · rw [join_of_isName hphase, show archiveDest inp.runDir cfg.phase n =
          archivePath inp.runDir cfg.phase n from rfl, archivePath_eq hphase]
        refine ⟨fun name => ?_, fun s => ⟨?_, fun hsrc => ?_⟩⟩
        · simp [markersDir, List.prefix_append_right_inj, List.cons_prefix_cons]
        · rw [attemptsDir_eq hp, List.append_assoc, List.prefix_append_right_inj]
          simp [List.cons_prefix_cons, hne]
        · rw [attemptsDir_eq hp, List.append_assoc, List.prefix_append_right_inj] at hsrc
          rw [List.prefix_append_right_inj]
          simp only [List.cons_append, List.cons_prefix_cons] at hsrc ⊢
          exact ⟨hsrc.1, List.nil_prefix⟩
  | _ => trivial

end Operations

section Failing

variable {n made : ℕ} {tr tr₁ tr₂ : List (Event (RunSig B))} {output : StrategyOutput} {x : B × ℕ}
  {ρ : Type}

lemma below_emits {prog prog' : Prog (RunSig B) ρ} (hp : Emits (CountsBelow runDir p k) prog)
    (hrun : Steps perform prog w tr prog' w') (hw : Below runDir p k w.disk) :
    Below runDir p k w'.disk :=
  hrun.invariant (I := fun s => Below runDir p k s.disk)
    (hp.meets (fun _ _ _ _ ho hs hact => below_step ho hs hact) hw) hw

lemma archived_emits {prog prog' : Prog (RunSig B) ρ} {s : String}
    (hp : Emits (CountsBelow runDir p k) prog) (hrun : Steps perform prog w tr prog' w')
    (hw : isDir w.disk (attemptsDir runDir p ++ [s]) = true) :
    isDir w'.disk (attemptsDir runDir p ++ [s]) = true :=
  hrun.invariant (I := fun st => isDir st.disk (attemptsDir runDir p ++ [s]) = true)
    (hp.meets (fun _ _ _ _ ho hs hact => archived_step ho hs hact) hw) hw

omit [RunFormat B] in
lemma started_countsBelow (hapart : MarkersApart inp.runDir phases cfg.phase) (hmem : cfg ∈ phases)
    {i : ℕ} (hi : i < k) :
    CountsBelow inp.runDir cfg.phase k (.writeMarker (B := B) inp.runDir (.started ⟨cfg.phase, i⟩)) := by
  refine marker_countsBelow hapart hmem rfl fun c hc _ => ?_
  cases hc
  exact hi

lemma Started.below (hapart : MarkersApart inp.runDir phases cfg.phase) (hmem : cfg ∈ phases)
    (hn : n < k) (h : Started cfg inp n w tr w') (hw : Below inp.runDir cfg.phase k w.disk) :
    Below inp.runDir cfg.phase k w'.disk := by
  have hphase := (hapart.phase_name cfg hmem).1
  refine below_emits (Emits.exceptBind (createDirOr_emits (markersDir_countsBelow hphase)) fun _ => ?_)
    h.2 hw
  exact Emits.exceptBind (Emits.op (started_countsBelow hapart hmem hn)) fun _ => orThrow_emits

lemma execute_below (hapart : MarkersApart inp.runDir phases cfg.phase) (hmem : cfg ∈ phases)
    (hname : inp.phaseName = cfg.phase) {strategy : Strategy String}
    {r : Except StrategyError StrategyOutput}
    (h : Runs (ρ := Except StrategyError StrategyOutput) perform (execute eng inp strategy) w tr r w')
    (hw : Below inp.runDir cfg.phase k w.disk) : Below inp.runDir cfg.phase k w'.disk := by
  have hphase := (hapart.phase_name cfg hmem).1
  refine below_emits ((execute_emits strategy).mono fun o ho => ?_) h hw
  cases o with
  | createDirAll q =>
      obtain ⟨name, houtput, rfl⟩ := ho
      exact (output_countsBelow hapart hmem hphase (hname ▸ houtput) (RunFormat.ofText "")).1
  | writeFile q b =>
      obtain ⟨name, houtput, rfl⟩ := ho
      exact (output_countsBelow hapart hmem hphase (hname ▸ houtput) b).2
  | rename src dst => exact ho.elim
  | writeMarker dir m => exact ho.elim
  | writeManifest dir m => exact ho.elim
  | _ => trivial

lemma Executed.below (hapart : MarkersApart inp.runDir phases cfg.phase) (hmem : cfg ∈ phases)
    (hname : inp.phaseName = cfg.phase) (hn : n < k) (h : Executed eng cfg inp n w tr output w')
    (hw : Below inp.runDir cfg.phase k w.disk) : Below inp.runDir cfg.phase k w'.disk := by
  obtain ⟨strategy, tr₁, tr₂, w₁, hstarted, _, hexecute, _⟩ := h
  exact execute_below hapart hmem hname hexecute (Started.below hapart hmem hn hstarted hw)

lemma Marked.below (hapart : MarkersApart inp.runDir phases cfg.phase) (hmem : cfg ∈ phases)
    (hname : inp.phaseName = cfg.phase) (hn : attemptsMade n output ≤ k)
    (h : Marked eng cfg inp n w tr output w') (hw : Below inp.runDir cfg.phase k w.disk) :
    Below inp.runDir cfg.phase k w'.disk := by
  have hphase := (hapart.phase_name cfg hmem).1
  obtain ⟨tr₁, tr₂, w₁, hexecuted, hmarks, _⟩ := h
  unfold attemptsMade at hn
  refine below_emits (marks_emits (markersDir_countsBelow hphase) fun i hi => ?_) hmarks
    (Executed.below hapart hmem hname (by omega) hexecuted hw)
  obtain ⟨j, hj, rfl⟩ := List.mem_range'.mp hi
  exact started_countsBelow hapart hmem (by omega)

lemma Produced.below (hapart : MarkersApart inp.runDir phases cfg.phase) (hmem : cfg ∈ phases)
    (hname : inp.phaseName = cfg.phase) (hn : attemptsMade n output ≤ k)
    (h : Produced eng cfg inp n w tr output x w') (hw : Below inp.runDir cfg.phase k w.disk) :
    Below inp.runDir cfg.phase k w'.disk := by
  obtain ⟨tr₁, tr₂, w₁, hmarked, hcanonical, _⟩ := h
  exact below_emits (canonicalBytes_emits (fun _ => trivial) fun _ => trivial) hcanonical
    (Marked.below hapart hmem hname hn hmarked hw)

/-- When the run goes on to record its failure, no attempt from the number of those made on is
counted. -/
lemma Fails.below (hapart : MarkersApart inp.runDir phases cfg.phase) (hmem : cfg ∈ phases)
    (hname : inp.phaseName = cfg.phase) {e : PhaseError} (h : Fails eng cfg inp n w tr made e w')
    (hw : Below inp.runDir cfg.phase n w.disk) : n < made ∧ Below inp.runDir cfg.phase made w'.disk := by
  have hweaken : ∀ {k}, n < k → Below inp.runDir cfg.phase k w.disk :=
    fun hk a ha => (hw a ha).trans hk
  cases h with
  | strategy started resolved failed =>
      have hk : n < n + 1 := Nat.lt_succ_self n
      exact ⟨hk, execute_below hapart hmem hname failed 
        (Started.below hapart hmem hk started (hweaken hk))⟩
  | @canonical _ _ output _ _ _ marked failed =>
      have hk : n < attemptsMade n output := by unfold attemptsMade; omega
      exact ⟨hk, below_emits (canonicalBytes_emits (fun _ => trivial) fun _ => trivial) failed
        (Marked.below hapart hmem hname le_rfl marked (hweaken hk))⟩
  | @verdict _ _ output _ _ _ _ produced hooked judged rejected =>
      have hk : n < attemptsMade n output := by unfold attemptsMade; omega
      exact ⟨hk, below_emits (callHook_emits fun _ => trivial) judged
        (Produced.below hapart hmem hname le_rfl produced (hweaken hk))⟩

/-- The record makes the archive of the last attempt made. -/
lemma record_archives (hapart : MarkersApart runDir phases cfg.phase) (hmem : cfg ∈ phases)
    {errorClass : String} (hmade : 0 < made) (hrange : made ≤ 2 ^ 32)
    (h : Runs (ρ := Except PhaseError Unit) perform (recordTerminalFailure runDir cfg made errorClass)
      w tr (.ok ()) w') (hw : Below runDir cfg.phase made w.disk) :
    Below runDir cfg.phase made w'.disk ∧
      isDir w'.disk (archivePath runDir cfg.phase (made - 1)) = true ∧
      ∃ c, .failed c ∈ w'.log ∧ c.phase = cfg.phase := by
  have hphase := (hapart.phase_name cfg hmem).1
  have hpath : archivePath runDir cfg.phase (made - 1) =
      attemptsDir runDir cfg.phase ++ [(made - 1).repr] := join_of_isName (isName_repr _)
  have hcreate : CountsBelow runDir cfg.phase made
      (.createDirAll (B := B) (archivePath runDir cfg.phase (made - 1))) := by
    intro s a hle hparse
    obtain rfl : s = (made - 1).repr := by
      rw [hpath, List.prefix_append_right_inj] at hle
      simpa using hle
    rw [parseU32_repr (by omega)] at hparse
    cases hparse
    omega
  have hrest : Emits (CountsBelow runDir cfg.phase made) (do
      atomicWrite (archivePath runDir cfg.phase (made - 1)) "failure-summary.json"
        (RunFormat.ofSummary (failureSummary cfg (made - 1) errorClass))
      writeMarker runDir (.failed ⟨cfg.phase, made, errorClass,
        displayPath (archivePath runDir cfg.phase (made - 1))⟩) : Run B PhaseError Unit) := by
    refine Emits.exceptBind ?_ fun _ => ?_
    · unfold atomicWrite
      split
      · exact Emits.throw _
      · refine writeFileOr_emits ?_
        rw [CountsBelow, join_of_isName (by decide), archivePath_eq hphase, List.append_assoc]
        exact not_markers_below (by decide)
    · refine Emits.exceptBind (createDirOr_emits (markersDir_countsBelow hphase)) fun _ => ?_
      refine Emits.exceptBind (Emits.op (marker_countsBelow hapart hmem rfl ?_)) fun _ => orThrow_emits
      rintro c hc
      cases hc
  unfold recordTerminalFailure at h
  rcases runs_exceptBind h with ⟨_, he, _⟩ | ⟨_, tr₁, tr₂, w₁, hfirst, hnext, rfl⟩
  · cases he
  have hbelow := below_emits (createDirOr_emits hcreate) hfirst hw
  have hdir : isDir w₁.disk (archivePath runDir cfg.phase (made - 1)) = true := by
    obtain ⟨a, w₂, tr₃, hact, hret, _⟩ := runs_act hfirst
    rcases hact with ⟨t', ht', rfl, rfl⟩ | ⟨_, message, rfl⟩
    · obtain ⟨_, _, rfl⟩ := runs_ret.mp hret
      exact createDirAll_isDir ht'
    · obtain ⟨_, hok, _⟩ := runs_ret.mp hret
      cases hok
  refine ⟨below_emits hrest hnext hbelow, ?_, ?_⟩
  · rw [hpath] at hdir ⊢
    exact archived_emits hrest hnext hdir
  · rcases runs_exceptBind hnext with ⟨_, he, _⟩ | ⟨_, _, _, w₂, _, hmarker, _⟩
    · cases he
    rcases runs_exceptBind hmarker with ⟨_, he, _⟩ | ⟨_, _, _, w₃, _, hwrite, _⟩
    · cases he
    obtain ⟨a, w₄, tr₄, hact, hret, _⟩ := runs_act hwrite
    rcases hact with ⟨t', _, rfl, rfl⟩ | ⟨_, message, rfl⟩
    · obtain ⟨_, _, rfl⟩ := runs_ret.mp hret
      exact ⟨_, List.mem_cons_self, rfl⟩
    · obtain ⟨_, hok, _⟩ := runs_ret.mp hret
      cases hok

end Failing

section Histories

/-- The last run of the phase was one at a new number that ended through the record of its failure;
since then its lock was released, and other phases have run and were resumed. -/
inductive FailedLast (runDir : Path) (phases : List PhaseConfig) (p : String) : World B → Prop
  | failed {w w₁ w' : World B} {eng cfg inp n tr₁ tr₂ made e}
      (before : Reached perform runDir phases w) (mem : cfg ∈ phases) (phase : cfg.phase = p)
      (dir : inp.runDir = runDir) (name : inp.phaseName = cfg.phase)
      (fresh : Below runDir p n w.disk) (range : made < 2 ^ 32)
      (run : Runs (ρ := Except PhaseError PhaseOutcome) perform (PhaseRunner.run eng cfg inp n) w
        (tr₁ ++ tr₂) (.error e) w')
      (fails : Fails eng cfg inp n w tr₁ made e w₁)
      (record : Runs (ρ := Except PhaseError Unit) perform
        (recordTerminalFailure runDir cfg made (errorClass e)) w₁ tr₂ (.ok ()) w') :
      FailedLast runDir phases p w'
  | released {w w' : World B} {tr q} (before : FailedLast runDir phases p w)
      (steps : Steps perform (releaseLock (B := B) runDir p) w tr q w') : FailedLast runDir phases p w'
  | run {w w' : World B} {eng cfg inp attempt tr q} (before : FailedLast runDir phases p w)
      (mem : cfg ∈ phases) (other : cfg.phase ≠ p) (dir : inp.runDir = runDir)
      (name : inp.phaseName = cfg.phase)
      (steps : Steps perform (PhaseRunner.run eng cfg inp attempt) w tr q w') :
      FailedLast runDir phases p w'
  | resume {w w' : World B} {eng cfg inp lockBody action tr q} (before : FailedLast runDir phases p w)
      (mem : cfg ∈ phases) (other : cfg.phase ≠ p) (dir : inp.runDir = runDir)
      (name : inp.phaseName = cfg.phase)
      (steps : Steps perform (executeAction eng cfg inp lockBody action) w tr q w') :
      FailedLast runDir phases p w'

/-- The failure is logged, the attempt before `k` is the last one that counts, and it has its archive. -/
structure LastArchived (runDir : Path) (p : String) (k : ℕ) (w : World B) : Prop where
  positive : 0 < k
  range : k < 2 ^ 32
  below : Below runDir p k w.disk
  archived : isDir w.disk (archivePath runDir p (k - 1)) = true
  logged : ∃ c, .failed c ∈ w.log ∧ c.phase = p

lemma log_mono {ρ : Type} {prog prog' : Prog (RunSig B) ρ} {tr : List (Event (RunSig B))}
    (h : Steps perform prog w tr prog' w') : ∀ m ∈ w.log, m ∈ w'.log := by
  induction h with
  | stop => exact fun m hm => hm
  | act first _ ih =>
      intro m hm
      refine ih m ?_
      rcases log_step first with hlog | ⟨_, _, _, hlog⟩
      · rwa [hlog]
      · rw [hlog]
        exact List.mem_cons_of_mem _ hm

lemma LastArchived.step {ρ : Type} {prog prog' : Prog (RunSig B) ρ} {tr : List (Event (RunSig B))}
    (h : LastArchived runDir p k w) (hprog : Emits (CountsBelow runDir p k) prog)
    (hsteps : Steps perform prog w tr prog' w') : LastArchived runDir p k w' where
  positive := h.positive
  range := h.range
  below := below_emits hprog hsteps h.below
  archived := by
    have hpath : archivePath runDir p (k - 1) = attemptsDir runDir p ++ [(k - 1).repr] :=
      join_of_isName (isName_repr _)
    rw [hpath]
    exact archived_emits hprog hsteps (hpath ▸ h.archived)
  logged := by
    obtain ⟨c, hc, hphase⟩ := h.logged
    exact ⟨c, log_mono hsteps _ hc, hphase⟩

lemma FailedLast.phase (h : FailedLast runDir phases p w) : ∃ cfg ∈ phases, cfg.phase = p := by
  induction h with
  | failed before mem phase dir name fresh range run fails record => exact ⟨_, mem, phase⟩
  | released before steps ih => exact ih
  | run before mem other dir name steps ih => exact ih
  | resume before mem other dir name steps ih => exact ih

lemma FailedLast.isName (hapart : MarkersApart runDir phases p) (h : FailedLast runDir phases p w) :
    IsName p := by
  obtain ⟨cfg, hmem, rfl⟩ := h.phase
  exact (hapart.phase_name cfg hmem).1

lemma FailedLast.lastArchived (hapart : MarkersApart runDir phases p)
    (hparent : ∀ cfg ∈ phases, ¬ attemptsDir runDir p <+: parentOf runDir cfg.artefactName)
    (h : FailedLast runDir phases p w) : ∃ k, LastArchived runDir p k w := by
  have hp := h.isName hapart
  induction h with
  | @failed w w₁ w' eng cfg inp n tr₁ tr₂ made e before mem phase dir name fresh range run fails record =>
      subst phase dir
      obtain ⟨hlt, hbelow⟩ := Fails.below hapart mem name fails fresh
      have hpos : 0 < made := Nat.zero_lt_of_lt hlt
      obtain ⟨hbelow, hdir, hlog⟩ := record_archives hapart mem hpos range.le record hbelow
      exact ⟨made, hpos, range, hbelow, hdir, hlog⟩
  | released before steps ih =>
      obtain ⟨k, hk⟩ := ih
      refine ⟨k, hk.step (Emits.exceptBind (Emits.op ?_) fun _ => Emits.pure _) steps⟩
      rw [CountsBelow, lockPath_eq hp.no_slash]
      exact not_markers_below (by decide)
  | run before mem other dir name steps ih =>
      obtain ⟨k, hk⟩ := ih
      refine ⟨k, hk.step (run_emits.mono fun o ho => ?_) steps⟩
      exact action_countsBelow hapart mem (hparent _ mem) hp other dir name (ho.imp_right Or.inl)
  | @resume w w' eng cfg inp lockBody action tr q before mem other dir name steps ih =>
      obtain ⟨k, hk⟩ := ih
      refine ⟨k, hk.step ((executeAction_emits action).mono fun o ho => ?_) steps⟩
      exact action_countsBelow hapart mem (hparent _ mem) hp other dir name ho

lemma FailedLast.tracked (hapart : MarkersApart runDir phases p) (h : FailedLast runDir phases p w) :
    Tracked runDir p w := by
  induction h with
  | failed before mem phase dir name fresh range run fails record =>
      have hw := Reached.tracked hapart before
      exact (run_tracked hapart mem dir name hw).invariant run hw
  | released before steps ih =>
      obtain ⟨cfg, hmem, rfl⟩ := before.phase
      exact (emits_tracked releaseLock_emits (fun o ho => hapart.resumeOp hmem ho) ih).invariant steps ih
  | run before mem other dir name steps ih => exact (run_tracked hapart mem dir name ih).invariant steps ih
  | resume before mem other dir name steps ih =>
      exact (executeAction_tracked hapart mem dir name _ ih).invariant steps ih

end Histories

section Resume

/-- What a failed phase is promised: the plan resumes it, its directory can go to its place in the
archive, which nothing has taken, and its lock can be taken. -/
structure Resumable (script : Script) (runDir : Path) (p lockBody : String) (status : StatusMap)
    (w : World B) (n : ℕ) : Prop where
  resumes : Resumes script runDir p lockBody status w n
  free : occupied w.disk (archiveDest runDir p (previousAttempt n)) = false

/-- The attempt that is resumed is the one after the last that was made, and the place for that one is
taken by its record. -/
lemma LastArchived.taken {status : StatusMap} {n : ℕ} (h : LastArchived runDir p k w)
    (hplanned : planPhase w.disk runDir status p = some (.resume n)) :
    n = k ∧ occupied w.disk (archiveDest runDir p (previousAttempt n)) = true := by
  have hpos := h.positive
  have hrange := h.range
  have hpath : archivePath runDir p (k - 1) = attemptsDir runDir p ++ [(k - 1).repr] :=
    join_of_isName (isName_repr _)
  have hcounted : Counted w.disk runDir p (k - 1) :=
    Or.inr (mem_dirAttempts.mpr ⟨_, hpath ▸ h.archived, parseU32_repr (by omega)⟩)
  have hk : n = k := by
    rcases nextAttempt_spec (nextAttempt_of_planned hplanned)
      (fun a ha => (Nat.succ_le_of_lt (h.below a ha)).trans_lt hrange) with ⟨hnone, _⟩ | ⟨a, ha, hn, hmax⟩
    · exact absurd hcounted (hnone _)
    · have hle := hmax _ hcounted
      have hlt := h.below a ha
      omega
  subst hk
  have hprevious : previousAttempt n = n - 1 := by
    unfold previousAttempt
    omega
  exact ⟨rfl, by rw [hprevious]; exact occupied_of_isDir h.archived⟩

/-- After a recorded failure the place in the archive is always taken. The phase is still planned to
resume if it never completed, and its run is reached exactly when the strategy left the phase no
directory and the lock takes the phase's name. -/
theorem failed_phase_resumes (script : Script) (lockBody : String) (hapart : MarkersApart runDir phases p)
    (hparent : ∀ cfg ∈ phases, ¬ attemptsDir runDir p <+: parentOf runDir cfg.artefactName)
    (h : FailedLast runDir phases p w) :
    (∀ status n, ¬ Resumable script runDir p lockBody status w n) ∧
    ∀ now ttlSeconds state, (∀ c, .completed c ∈ w.log → c.phase ≠ p) →
      load w.disk runDir now ttlSeconds = .ok state →
      ∃ n, planPhase w.disk runDir state.phaseStatus p = some (.resume n) ∧
        (Resumes script runDir p lockBody state.phaseStatus w n ↔
          occupied w.disk (join runDir p) = false ∧ validatePhaseName p = true) ∧
        (Resumes script runDir p lockBody state.phaseStatus w n →
          ∀ eng cfg inp, inp.runDir = runDir → cfg.phase = p → ∃ tr w',
            Steps (following (handle script)) (resumePhase eng cfg inp lockBody n) w tr
              (lockedRun eng cfg inp n) w') := by
  obtain ⟨k, hk⟩ := h.lastArchived hapart hparent
  have hname := h.isName hapart
  have hw := h.tracked hapart
  constructor
  · rintro status n ⟨hresumes, hfree⟩
    rw [(hk.taken hresumes.planned).2] at hfree
    cases hfree
  · intro now ttlSeconds state hnot hload
    obtain ⟨hdir, n, hplanned⟩ := hw.planned hname hk.logged hnot hload
    refine ⟨n, hplanned, hw.resumes_iff hdir hplanned (hk.taken hplanned).2, ?_⟩
    rintro hresumes eng cfg inp rfl rfl
    exact hresumes.reaches_run

/-- Backends that all fail leave nothing to archive. -/
def failing : Script := ⟨fun _ => .error (.timeout "late"), fun _ => .ok .pass⟩

/-- The one run of `design`, whose backend fails. -/
def failedRun : List (Event (RunSig Doc)) × Except PhaseError PhaseOutcome × World Doc :=
  eval (handle failing) (PhaseRunner.run plainEngines designPhase designInputs 0) newRun

def startedRun : List (Event (RunSig Doc)) × Except PhaseError Unit × World Doc :=
  eval (handle failing) (startAttempt ["run"] "design" 0) newRun

def executedRun : List (Event (RunSig Doc)) × Except StrategyError StrategyOutput × World Doc :=
  eval (handle failing) (execute plainEngines designInputs (.singleModel "claude" "Go")) startedRun.2.2

def recordedRun : List (Event (RunSig Doc)) × Except PhaseError Unit × World Doc :=
  eval (handle failing) (recordTerminalFailure ["run"] designPhase 1 "strategy_failed") executedRun.2.2

lemma failedRun_eq : failedRun = (startedRun.1 ++ executedRun.1 ++ recordedRun.1,
    .error (.strategyFailed (.backend (.timeout "late"))), recordedRun.2.2) := by rfl

lemma failedRun_last : FailedLast ["run"] [designPhase] "design" failedRun.2.2 := by
  have hfresh : Below ["run"] "design" 0 newRun.disk := by
    have hstarted : startedAttempts newRun.disk ["run"] "design" = [] := by decide
    have hdirs : dirAttempts newRun.disk ["run"] "design" = [] := by decide
    intro a ha
    simp [Counted, hstarted, hdirs] at ha
  have hstarted : Started designPhase designInputs 0 newRun startedRun.1 startedRun.2.2 := by
    refine ⟨rfl, ?_⟩
    rw [show (Except.ok () : Except PhaseError Unit) = startedRun.2.1 from rfl]
    exact eval_runs (handle_performs failing) _ _
  have hexecuted : Runs perform (execute plainEngines designInputs (.singleModel "claude" "Go"))
      startedRun.2.2 executedRun.1 executedRun.2.1 executedRun.2.2 :=
    eval_runs (handle_performs failing) _ _
  rw [show executedRun.2.1 = .error (.backend (.timeout "late")) by rfl] at hexecuted
  have hrecord : Runs perform (recordTerminalFailure ["run"] designPhase 1 "strategy_failed")
      executedRun.2.2 recordedRun.1 recordedRun.2.1 recordedRun.2.2 :=
    eval_runs (handle_performs failing) _ _
  rw [show recordedRun.2.1 = .ok () by rfl] at hrecord
  have hrun : Runs perform (PhaseRunner.run plainEngines designPhase designInputs 0) newRun failedRun.1
      failedRun.2.1 failedRun.2.2 := eval_runs (handle_performs failing) _ _
  rw [failedRun_eq] at hrun ⊢
  have hfails : Fails plainEngines designPhase designInputs 0 newRun (startedRun.1 ++ executedRun.1) 1
      (strategyError (.backend (.timeout "late"))) executedRun.2.2 := .strategy hstarted rfl hexecuted
  exact .failed (newRun_reached perform) List.mem_cons_self rfl rfl rfl hfresh (by decide) hrun hfails
    hrecord

theorem failed_phase_resumes_design :
    (∀ status n, ¬ Resumable failing ["run"] "design" "lock" status failedRun.2.2 n) ∧
      ∃ n, Resumes failing ["run"] "design" "lock" [("design", .failed)] failedRun.2.2 n := by
  have hapart : MarkersApart ["run"] [designPhase] "design" :=
    ⟨by decide, by decide, by decide, by decide⟩
  have hload : load failedRun.2.2.disk ["run"] 0 60 =
      .ok ⟨"r1", [], [], [("design", .failed)], none⟩ := by decide
  have hlog : failedRun.2.2.log = [.failed ⟨"design", 1, "strategy_failed", "/run/attempts/design/0"⟩,
    .started ⟨"design", 0⟩] := by decide
  obtain ⟨hnever, hresumes⟩ := failed_phase_resumes failing "lock" hapart
    (by decide) failedRun_last
  obtain ⟨n, _, hiff, _⟩ := hresumes _ _ _ (fun c hc => by rw [hlog] at hc; simp at hc) hload
  exact ⟨hnever, n, hiff.mpr ⟨by decide, by decide⟩⟩

def pollPhase : PhaseConfig where
  phase := "poll"
  strategy := .parallel
  aggregator := .concat
  verify := .none
  artefactName := "poll.md"
  artefactKind := .designMd
  producer := .parallel
  promptTemplate := "Go"
  backend := none
  targets := [⟨"claude", none⟩, ⟨"codex", none⟩]
  minResponses := 2
  rungs := []
  passFailureContext := false

def pollInputs : PhaseInputs := ⟨["claude", "codex"], none, "poll", none, ["run"], "r1"⟩

/-- The first branch answers and the second one fails. -/
def halfFailing : Script where
  answer q := if q.index = 0 then .ok "one" else .error (.timeout "late")
  verdict _ := .ok .pass

/-- A fan-out below its floor leaves a branch output in the phase's directory, and the record of
the failure has already taken the place in the archive. -/
theorem failed_fanOut_not_resumed : ∃ w : World Doc, ∃ state,
    Reached perform ["run"] [pollPhase] w ∧ (∃ c, .failed c ∈ w.log ∧ c.phase = "poll") ∧
      load w.disk ["run"] 0 60 = .ok state ∧
      (eval (handle halfFailing) (archiveCurrentAttempt ["run"] "poll" 0) w).2.1 =
        .error (.io "archive destination already exists: /run/attempts/poll/0") ∧
      ¬ ∃ n, Resumes halfFailing ["run"] "poll" "lock" state.phaseStatus w n := by
  have hreached : Reached perform ["run"] [pollPhase] (eval (handle halfFailing)
      (PhaseRunner.run plainEngines pollPhase pollInputs 0) newRun).2.2 :=
    Reached.run (.created (show createRunDir Disk.empty ["run"] "r1" "design" =
      some newRun.disk from rfl)) List.mem_cons_self rfl rfl
      (eval_runs (handle_performs halfFailing)
        (PhaseRunner.run plainEngines pollPhase pollInputs 0) newRun)
  refine ⟨_, ⟨"r1", [], [], [("poll", .failed)], none⟩, hreached,
    ⟨⟨"poll", 1, "strategy_failed", "/run/attempts/poll/0"⟩, by decide, rfl⟩, by decide,
    by decide, ?_⟩
  rintro ⟨n, hplanned, harchived, _⟩
  have hplan : planPhase (eval (handle halfFailing)
      (PhaseRunner.run plainEngines pollPhase pollInputs 0) newRun).2.2.disk ["run"]
        [("poll", .failed)] "poll" = some (.resume 1) := by decide
  obtain rfl : n = 1 := by
    rw [hplan] at hplanned
    cases hplanned
    rfl
  exact absurd harchived (by decide)

end Resume

end Loker.FailedAttempts
