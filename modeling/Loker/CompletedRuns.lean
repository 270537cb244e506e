import Loker.CrashHistories
import Loker.PhaseBridge

/-! Runs in which every phase of a workflow succeeds, and the layouts of output paths under which
their run directory loads. -/

namespace Loker.CompletedRuns

open FileTree TextOps Programs RunFiles RunLoad LoadSpec RunOps Dispatch Strategies PhaseRunner
  PhaseBridge CommitProtocol RunLayout CrashHistories

variable {B : Type} [RunFormat B] {runDir : Path} {done phases : List Grammar.Phase}
  {phase : Grammar.Phase} {prompt : String} {eng : Engines} {inp : PhaseInputs} {t t' : Disk B}
  {w w' : World B}

section Layout

/-- The files that the phase's strategy may write, relative to the run directory. -/
def Writes (phase : Grammar.Phase) (name : String) : Prop :=
  match phase.strategy with
  | .single => name = singleOutput
  | .parallelFanOut _ => ∃ idx < phase.backends.length, name = branchOutput phase.name idx
  | .escalatingRetry _ =>
      ∃ idx < phase.backends.length, ∃ tier, name = rungOutput phase.name idx tier

lemma writes_of_phaseOutput (hname : inp.phaseName = phase.name) {name : String}
    (h : PhaseOutputName (configOf phase prompt) inp name) : Writes phase name := by
  obtain ⟨strategy, hresolve, houtput⟩ := h
  rw [hname] at houtput
  unfold Writes
  unfold resolveStrategy at hresolve
  cases hstrategy : phase.strategy with
  | single =>
      simp only [configOf, strategyName, hstrategy] at hresolve
      split at hresolve
      · cases hresolve
        exact houtput
      · cases hresolve
  | parallelFanOut minResponses =>
      simp only [configOf, strategyName, hstrategy, newParallelFanOut, minResponsesOf,
        aggregatorName, targetsOf] at hresolve
      split at hresolve
      · cases hresolve
        rcases houtput with ⟨hvote, _⟩ | ⟨idx, hidx, rfl⟩
        · cases hvote
        · exact ⟨idx, by simpa using hidx, rfl⟩
      · cases hresolve
  | escalatingRetry passFailureContext =>
      simp only [configOf, strategyName, hstrategy, rungsOf, passFailureContextOf] at hresolve
      split at hresolve
      · cases hresolve
        obtain ⟨idx, hidx, tier, rfl⟩ := houtput
        exact ⟨idx, by simpa using hidx, tier, rfl⟩
      · cases hresolve

/-- The path is none of the protocol's files that loading reads. -/
abbrev ProtocolClear (runDir : Path) : Path → Prop := FileClear runDir fun _ => False

/-- The artefact of the first phase is none of the files that the second one writes. -/
structure NotOverwritten (runDir : Path) (earlier later : Grammar.Phase) : Prop where
  artefact : join runDir earlier.output ≠ join runDir later.output
  started : ∀ n : ℕ, join runDir earlier.output ≠
    markersDir runDir ++ [later.name ++ ".started." ++ n.repr]
  strategy : ∀ name, Writes later name → join runDir earlier.output ≠ join runDir name

/-- No path that a phase writes is one of the protocol's files or an artefact of an earlier phase,
and no heartbeat directory comes into being. -/
structure Unclashing (runDir : Path) (phases : List Grammar.Phase) : Prop where
  name : ∀ p ∈ phases, '/' ∉ p.name.toList
  output : ∀ p ∈ phases, ProtocolClear runDir (join runDir p.output) ∧
    ¬ heartbeatPath runDir <+: parentOf runDir p.output
  strategy : ∀ p ∈ phases, ∀ name, Writes p name → ProtocolClear runDir (join runDir name) ∧
    ¬ heartbeatPath runDir <+: (join runDir name).dropLast
  later : phases.Pairwise (NotOverwritten runDir)

/-- The outputs of these phases, and where they are. -/
def OutputIn (done : List Grammar.Phase) (name : String) : Prop := ∃ p ∈ done, name = p.output

def TakenBy (runDir : Path) (done : List Grammar.Phase) (q : Path) : Prop :=
  ∃ p ∈ done, q = join runDir p.output

lemma taken_of_output {name : String} (h : OutputIn done name) :
    TakenBy runDir done (join runDir name) := by
  obtain ⟨p, hp, rfl⟩ := h
  exact ⟨p, hp, rfl⟩

lemma FileClear.with_free {taken : Path → Prop} {q : Path} (h : ProtocolClear runDir q)
    (hfree : ¬ taken q) : FileClear runDir taken q :=
  ⟨h.not_manifest, h.not_markers, h.not_completed, h.not_heartbeat, hfree⟩

/-- The outputs of these phases are none of the protocol's files. -/
def AllClear (runDir : Path) (done : List Grammar.Phase) : Prop :=
  ∀ p ∈ done, ProtocolClear runDir (join runDir p.output)

/-- What a phase needs of the paths when the phases of the first list are done. -/
structure Fits (runDir : Path) (done : List Grammar.Phase) (phase : Grammar.Phase) : Prop where
  name : '/' ∉ phase.name.toList
  output : ProtocolClear runDir (join runDir phase.output)
  parent : ¬ heartbeatPath runDir <+: parentOf runDir phase.output
  strategy : ∀ name, Writes phase name → ProtocolClear runDir (join runDir name) ∧
    ¬ heartbeatPath runDir <+: (join runDir name).dropLast
  done_clear : AllClear runDir done
  kept : ∀ p ∈ done, NotOverwritten runDir p phase

lemma Unclashing.fits {rest : List Grammar.Phase} (h : Unclashing runDir (done ++ phase :: rest)) :
    Fits runDir done phase := by
  have hmem : phase ∈ done ++ phase :: rest := by simp
  have hpairs := List.pairwise_append.mp h.later
  exact ⟨h.name phase hmem, (h.output phase hmem).1, (h.output phase hmem).2,
    h.strategy phase hmem, fun p hp => (h.output p (List.mem_append_left _ hp)).1,
    fun p hp => hpairs.2.2 p hp phase List.mem_cons_self⟩

end Layout

section Steps

/-- Each of the phases is completed, and its artefact is as it was committed. -/
def Kept (runDir : Path) (done : List Grammar.Phase) (w : World B) : Prop :=
  ∀ p ∈ done, ∃ c b, .completed c ∈ w.log ∧ c.phase = p.name ∧
    fileAt w.disk (join runDir p.output) = some b ∧ RunFormat.sha256Hex b = c.manifestEntrySha256

/-- A safe run directory whose manifest has only the artefacts of the done phases. -/
structure Done (runDir : Path) (done : List Grammar.Phase) (w : World B) : Prop where
  safe : Safe runDir (OutputIn done) w
  kept : Kept runDir done w
/-- A file at a taken path stays as it is, and the log only grows. -/
lemma taken_file_step {taken : Path → Prop} {o : Op B} {a : Answer B o} {q : Path} {b : B}
    (hclear : Clears runDir taken o)
    (hmarkers : ∀ m, ¬ taken (markersDir runDir ++ [m ++ ".completed"])) (hq : taken q) (hb : fileAt w.disk q = some b) (h : perform o w a w') :
    fileAt w'.disk q = some b ∧ ∀ m ∈ w.log, m ∈ w'.log := by
  have hchanged : ∀ {next : Option (Disk B)} {log : List Marker} {a : Except String Unit},
      Changed next log w a w' → (∀ m ∈ w.log, m ∈ log) →
      (∀ t', next = some t' → fileAt t' q = fileAt w.disk q) →
      fileAt w'.disk q = some b ∧ ∀ m ∈ w.log, m ∈ w'.log := by
    intro next log a h hlog hnext
    rcases h with ⟨t', ht', rfl, _⟩ | ⟨rfl, _⟩
    · exact ⟨by rw [hnext t' ht', hb], hlog⟩
    · exact ⟨hb, fun _ hm => hm⟩
  have hfree : ∀ p, FileClear runDir taken p → q ≠ p := by
    rintro p hp rfl
    exact hp.free hq
  have hsame : fileAt w.disk q = some b ∧ ∀ m ∈ w.log, m ∈ w.log := ⟨hb, fun _ hm => hm⟩
  cases o with
  | createDirAll p =>
      exact hchanged h (fun _ hm => hm) fun t' ht' => by rw [createDirAll_fileAt ht']
  | writeFile p b =>
      exact hchanged h (fun _ hm => hm) fun t' ht' => writeFile_other ht' (hfree p hclear)
  | rename src dst =>
      exact hchanged h (fun _ hm => hm) fun t' ht' =>
        fileAt_congr (rename_node ht' (hclear.free q hq) (not_dst_of_file ht' hb))
  | writeManifest dir m =>
      obtain ⟨rfl, hmanifest⟩ := hclear
      refine hchanged h (fun _ hm => hm) fun t' ht' => writeFile_other ht' ?_
      rintro rfl
      exact hmanifest hq
  | writeMarker dir m =>
      refine hchanged h (fun _ hm => List.mem_cons_of_mem _ hm) fun t' ht' => writeFile_other ht' ?_
      cases m with
      | started c => exact hfree _ hclear
      | failed c => exact hfree _ hclear
      | completed c =>
          obtain ⟨rfl, hslash, _⟩ := hclear
          have hpath : markerPath dir (.completed c) = _ := markerPath_eq (isName_completed hslash)
          rw [hpath]
          rintro rfl
          exact hmarkers c.phase hq
  | readFile p => exact h.1 ▸ hsame
  | isFile p => exact h.1 ▸ hsame
  | isDir p => exact h.1 ▸ hsame
  | occupied p => exact h.1 ▸ hsame
  | loadManifest dir => exact h.1 ▸ hsame
  | query q =>
      obtain rfl : w' = w := h
      exact hsame
  | race pending => exact h.1 ▸ hsame
  | verify text =>
      obtain rfl : w' = w := h
      exact hsame
  | lockBusy p =>
      obtain rfl : w' = w := h
      exact hsame

lemma AllClear.marker (h : AllClear runDir done) (m : String) :
    ¬ TakenBy runDir done (markersDir runDir ++ [m ++ ".completed"]) := by
  rintro ⟨p, hp, heq⟩
  exact (h p hp).not_completed _ (endsWith_append m ".completed") heq.symm

lemma AllClear.manifest (h : AllClear runDir done) : ¬ TakenBy runDir done (manifestPath runDir) := by
  rintro ⟨p, hp, heq⟩
  exact (h p hp).not_manifest heq.symm

lemma Kept.step (hall : AllClear runDir done) {o : Op B} {a : Answer B o}
    (hclear : Clears runDir (TakenBy runDir done) o) (hw : Kept runDir done w)
    (h : perform o w a w') : Kept runDir done w' := by
  intro p hp
  obtain ⟨c, b, hlog, hphase, hfile, hsha⟩ := hw p hp
  obtain ⟨hfile', hlog'⟩ := taken_file_step hclear hall.marker ⟨p, hp, rfl⟩ hfile h
  exact ⟨c, b, hlog' _ hlog, hphase, hfile', hsha⟩

lemma Done.step (hall : AllClear runDir done) {o : Op B} {a : Answer B o}
    (ho : ¬ Committing o) (hclear : Clears runDir (TakenBy runDir done) o)
    (hw : Done runDir done w) (h : perform o w a w') : Done runDir done w' where
  safe := safe_step ho (hclear.harmless hw.safe fun _ => taken_of_output) hw.safe h
  kept := hw.kept.step hall hclear h

omit [RunFormat B] in
/-- What a phase does before its commit is clear of the earlier artefacts. -/
lemma Fits.phaseOp (hfits : Fits runDir done phase) (hdir : inp.runDir = runDir)
    (hname : inp.phaseName = phase.name) {o : Op B}
    (ho : PhaseOp (configOf phase prompt) inp False o) : Clears runDir (TakenBy runDir done) o := by
  subst hdir
  have houtput : ∀ name, PhaseOutputName (configOf phase prompt) inp name →
      FileClear inp.runDir (TakenBy inp.runDir done) (join inp.runDir name) ∧
        ¬ heartbeatPath inp.runDir <+: (join inp.runDir name).dropLast := by
    intro name hphase
    have hwrites := writes_of_phaseOutput hname hphase
    refine ⟨FileClear.with_free (hfits.strategy name hwrites).1 ?_, (hfits.strategy name hwrites).2⟩
    rintro ⟨p, hp, heq⟩
    exact (hfits.kept p hp).strategy name hwrites heq.symm
  cases o with
  | createDirAll q =>
      rcases ho with rfl | ⟨name, hphase, rfl⟩ | ⟨hfalse, _⟩
      · exact not_heartbeat_below (by decide)
      · exact (houtput name hphase).2
      · exact hfalse.elim
  | writeFile q b =>
      rcases ho with ⟨name, hphase, rfl⟩ | ⟨hfalse, _⟩
      · exact (houtput name hphase).1
      · exact hfalse.elim
  | writeMarker dir m =>
      obtain ⟨rfl, hphase, ⟨c, rfl⟩ | ⟨hfalse, _⟩⟩ := ho
      · have hcphase : c.phase = phase.name := hphase
        have hslash : '/' ∉ (Marker.started c).phase.toList := by
          rw [show (Marker.started c).phase = phase.name from hcphase]
          exact hfits.name
        refine FileClear.with_free (markerPath_clear hslash nofun fun _ h => h) ?_
        rintro ⟨p, hp, heq⟩
        have hpath : markerPath inp.runDir (.started c) =
            markersDir inp.runDir ++ [c.phase ++ ".started." ++ c.attempt.repr] :=
          markerPath_eq (isName_started hslash _)
        refine (hfits.kept p hp).started c.attempt ?_
        rw [← heq, hpath, hcphase]
      · exact hfalse.elim
  | rename src dst => cases ho
  | writeManifest dir m => cases ho
  | _ => trivial

end Steps

section Commit

variable {bytes : B} {attempt : ℕ}

lemma createDir_achieves {wrap : String → PhaseError} {p : Path} (hall : AllClear runDir done)
    (hp : ¬ heartbeatPath runDir <+: p) (hw : Done runDir done w) :
    Achieves perform (fun _ => Done runDir done) (createDirOr wrap p) w :=
  (createDirOr_emits (P := fun o => ¬ Committing o ∧ Clears runDir (TakenBy runDir done) o)
    ⟨not_false, hp⟩).achieves (fun _ _ _ _ ho hs hact => hs.step hall ho.1 ho.2 hact) hw

/-- Between the write of the artefact and its completed marker. -/
structure Appended (runDir : Path) (done : List Grammar.Phase) (phase : Grammar.Phase) (bytes : B)
    (w : World B) : Prop where
  recorded : AllRecorded runDir (OutputIn (done ++ [phase])) w
  kept : Kept runDir done w
  artefact : fileAt w.disk (join runDir phase.output) = some bytes

lemma Fits.all_clear (h : Fits runDir done phase) : AllClear runDir (done ++ [phase]) := by
  intro p hp
  rcases List.mem_append.mp hp with hp | hp
  · exact h.done_clear p hp
  · rw [List.mem_singleton.mp hp]
    exact h.output

lemma Fits.free (h : Fits runDir done phase) :
    FileClear runDir (TakenBy runDir done) (join runDir phase.output) := by
  refine FileClear.with_free h.output ?_
  rintro ⟨p, hp, heq⟩
  exact (h.kept p hp).artefact heq.symm

lemma atomicWrite_achieves (hfits : Fits runDir done phase) (hw : Done runDir done w) :
    Achieves perform (fun _ w' => Done runDir done w' ∧
      fileAt w'.disk (join runDir phase.output) = some bytes)
      (atomicWrite runDir phase.output bytes) w := by
  unfold atomicWrite
  split
  · exact Achieves.throw
  · refine Secures.achieves (I := fun _ => True) (Secures.bind (Secures.op fun answer w' hact => ?_))
    have hdone : Done runDir done w' :=
      hw.step (o := .writeFile _ bytes) hfits.done_clear not_false hfits.free hact
    refine ⟨trivial, orThrow_secures trivial fun hanswer => ⟨hdone, ?_⟩⟩
    rcases hact with ⟨t', hwrite, rfl, _⟩ | ⟨_, message, hfailed⟩
    · exact writeFile_self hwrite
    · rw [hanswer] at hfailed
      cases hfailed

/-- What keeps every entry on disk and is clear of the outputs keeps the rest too. -/
lemma Appended.step (hall : AllClear runDir (done ++ [phase])) {o : Op B} {a : Answer B o}
    (hclear : Clears runDir (TakenBy runDir (done ++ [phase])) o)
    (hw : Appended runDir done phase bytes w) (h : perform o w a w')
    (hrecorded : AllRecorded runDir (OutputIn (done ++ [phase])) w') :
    Appended runDir done phase bytes w' := by
  have hfile : ∀ p ∈ done ++ [phase], ∀ b, fileAt w.disk (join runDir p.output) = some b →
      fileAt w'.disk (join runDir p.output) = some b ∧ ∀ m ∈ w.log, m ∈ w'.log :=
    fun p hp b hb => taken_file_step hclear hall.marker ⟨p, hp, rfl⟩ hb h
  refine ⟨hrecorded, fun p hp => ?_, (hfile phase (by simp) bytes hw.artefact).1⟩
  obtain ⟨c, b, hlog, hphase, hb, hsha⟩ := hw.kept p hp
  obtain ⟨hb', hlog'⟩ := hfile p (List.mem_append_left _ hp) b hb
  exact ⟨c, b, hlog' _ hlog, hphase, hb', hsha⟩

lemma Fits.appended {carried : Manifest} {entry : ManifestEntry} (hfits : Fits runDir done phase)
    (hname : entry.name = phase.output) (hsha : entry.sha256 = RunFormat.sha256Hex bytes)
    (hversion : entry.schemaVersion = 1) (hkind : entry.kind ≠ .changesDir)
    (hw : Done runDir done w) (hfile : fileAt w.disk (join runDir phase.output) = some bytes)
    (hcarried : Carried runDir w carried)
    (h : perform (.writeManifest runDir { carried with entries := carried.entries ++ [entry] })
      w (.ok ()) w') : Appended runDir done phase bytes w' := by
  have hnames : ∀ name, OutputIn done name → OutputIn (done ++ [phase]) name := by
    rintro name ⟨p, hp, rfl⟩
    exact ⟨p, List.mem_append_left _ hp, rfl⟩
  have hguard : ∀ m, manifestAt w.disk runDir = some m → ∀ e ∈ m.entries,
      SweepKeeps w.disk runDir e → join runDir e.name ≠ manifestPath runDir := by
    intro m hm e he _ heq
    exact hfits.done_clear.manifest (heq ▸ taken_of_output (hw.safe.listed m hm e he))
  have hnew : OutputIn (done ++ [phase]) entry.name := ⟨phase, by simp, hname⟩
  have hon : Recorded w.disk runDir entry := ⟨bytes, by rw [hname, hfile], hsha.symm⟩
  have hpath : join runDir entry.name ≠ manifestPath runDir := hname ▸ hfits.output.not_manifest
  have hclear : ∀ taken, ¬ taken (manifestPath runDir) → Clears runDir taken
      (.writeManifest runDir { carried with entries := carried.entries ++ [entry] } : Op B) :=
    fun _ h => ⟨rfl, h⟩
  rcases append_step hw.safe hnames hnew hcarried hon hversion hkind hpath hguard h with
    ⟨_, _, hrecorded⟩ | ⟨_, hne⟩
  · refine ⟨hrecorded, hw.kept.step hfits.done_clear (hclear _ hfits.done_clear.manifest) h, ?_⟩
    exact (taken_file_step (hclear _ hfits.all_clear.manifest) hfits.all_clear.marker
      ⟨phase, by simp, rfl⟩ hfile h).1
  · exact absurd rfl hne

lemma append_achieves {carried : Manifest} {entry : ManifestEntry} (hfits : Fits runDir done phase)
    (hname : entry.name = phase.output) (hsha : entry.sha256 = RunFormat.sha256Hex bytes)
    (hversion : entry.schemaVersion = 1) (hkind : entry.kind ≠ .changesDir)
    (hw : Done runDir done w) (hfile : fileAt w.disk (join runDir phase.output) = some bytes)
    (hcarried : Carried runDir w carried) :
    Achieves perform (fun _ => Appended runDir done phase bytes) (append runDir carried entry) w := by
  refine Secures.achieves (I := fun _ => True) (Secures.bind (Secures.op fun answer w' hact => ?_))
  refine ⟨trivial, orThrow_secures trivial fun hok => ?_⟩
  subst hok
  exact hfits.appended hname hsha hversion hkind hw hfile hcarried hact

lemma commitSuccess_achieves {cfg : PhaseConfig} {runId : String} (hfits : Fits runDir done phase)
    (houtput : cfg.artefactName = phase.output) (hkind : cfg.artefactKind ≠ .changesDir)
    (hw : Done runDir done w) :
    Achieves perform (fun entry w' => entry.sha256 = RunFormat.sha256Hex bytes ∧
        Appended runDir done phase bytes w')
      (commitSuccess runDir cfg bytes attempt runId) w := by
  have hall := hfits.done_clear
  unfold commitSuccess
  rw [houtput]
  refine Achieves.bind ((createDir_achieves hall not_heartbeat_runDir hw).mono fun _ w₁ hw₁ => ?_)
  refine Achieves.bind ((createDir_achieves hall hfits.parent hw₁).mono fun _ w₂ hw₂ => ?_)
  refine Achieves.bind ((atomicWrite_achieves hfits hw₂).mono fun _ w₃ hw₃ => ?_)
  have hload : Secures perform (Safe runDir (OutputIn done))
      (fun carried w' => w' = w₃ ∧ Carried runDir w₃ carried) (loadOrNew runDir runId) w₃ :=
    loadOrNew_secures (fun h => h) hw₃.1.safe
  refine Achieves.bind (hload.achieves.mono fun carried w₄ hcarried => ?_)
  obtain ⟨rfl, hcarried⟩ := hcarried
  have happend : Achieves perform (fun _ => Appended runDir done phase bytes)
      (append runDir carried (fromPayload cfg attempt bytes)) w₄ :=
    append_achieves hfits houtput rfl rfl hkind hw₃.1 hw₃.2 hcarried
  exact Achieves.bind (happend.mono fun _ w₅ hw₅ => Achieves.pure ⟨rfl, hw₅⟩)

/-- The completed marker ends the phase. -/
lemma completedMarker_achieves {c : CompletedMarker} (hfits : Fits runDir done phase)
    (hphase : c.phase = phase.name) (hsha : c.manifestEntrySha256 = RunFormat.sha256Hex bytes)
    (hw : Appended runDir done phase bytes w) :
    Achieves perform (fun _ => Done runDir (done ++ [phase]))
      (writeMarker runDir (.completed c)) w := by
  have hall := hfits.all_clear
  have hdir : ∀ {answer : Except String Unit} {w' : World B},
      perform (.createDirAll (markersDir runDir)) w answer w' →
      Appended runDir done phase bytes w' := by
    intro answer w' hact
    have hclear : ¬ heartbeatPath runDir <+: markersDir runDir := not_heartbeat_below (by decide)
    refine hw.step (o := .createDirAll (markersDir runDir)) hall hclear hact
      (createDir_recorded hw.recorded hclear hact)
  refine Secures.achieves (I := fun _ => True) (Secures.bind (Secures.bind
    (Secures.op fun _ w₁ hact₁ => ⟨trivial, orThrow_secures trivial fun _ => ?_⟩)))
  refine Secures.bind (Secures.op fun _ w₂ hact₂ => ⟨trivial, orThrow_secures trivial fun hok => ?_⟩)
  have hw₁ := hdir hact₁
  have hslash : '/' ∉ c.phase.toList := hphase ▸ hfits.name
  have hguard : CompletedSafe runDir w₁.disk c := by
    refine ⟨hslash, fun m hm e he _ => ?_⟩
    obtain ⟨p, hp, heq⟩ := hw₁.recorded.safe.listed m hm e he
    rw [heq]
    exact (hall p hp).not_completed _ (endsWith_completed c.phase)
  have hsafe := completed_step hw₁.recorded hguard hact₂
  have hclear : Clears runDir (TakenBy runDir (done ++ [phase]))
      (.writeMarker runDir (.completed c) : Op B) := ⟨rfl, hslash, hall.marker c.phase⟩
  have hfile := taken_file_step hclear hall.marker ⟨phase, by simp, rfl⟩ hw₁.artefact hact₂
  have hlog : .completed c ∈ w₂.log := by
    rcases hact₂ with ⟨t', _, rfl, _⟩ | ⟨_, message, hfailed⟩
    · exact List.mem_cons_self
    · rw [hok] at hfailed
      cases hfailed
  refine ⟨hsafe, fun p hp => ?_⟩
  rcases List.mem_append.mp hp with hp | hp
  · have hclear' : Clears runDir (TakenBy runDir done)
        (.writeMarker runDir (.completed c) : Op B) := ⟨rfl, hslash, hfits.done_clear.marker c.phase⟩
    exact hw₁.kept.step hfits.done_clear hclear' hact₂ p hp
  · rw [List.mem_singleton.mp hp]
    exact ⟨c, bytes, hlog, hphase, hfile.1, hsha.symm⟩

lemma commit_achieves {cfg : PhaseConfig} {output : StrategyOutput} {verify : Option HookResult}
    (hfits : Fits inp.runDir done phase) (hphase : cfg.phase = phase.name)
    (houtput : cfg.artefactName = phase.output) (hkind : cfg.artefactKind ≠ .changesDir)
    (hw : Done inp.runDir done w) :
    Achieves perform (fun _ => Done inp.runDir (done ++ [phase]))
      (commit cfg inp output verify bytes attempt) w := by
  refine Achieves.bind ((commitSuccess_achieves hfits houtput hkind hw).mono fun entry w₁ hw₁ => ?_)
  have hmarker := completedMarker_achieves (c := ⟨cfg.phase, attempt, entry.sha256,
    [cfg.artefactName]⟩) hfits hphase hw₁.1 hw₁.2
  exact Achieves.bind (hmarker.mono fun _ w₂ hw₂ => Achieves.pure hw₂)

lemma configOf_kind : (configOf phase prompt).artefactKind ≠ .changesDir := by
  have hkind := kindFromFilename_ne_changesDir phase.output
  simpa only [configOf] using hkind

/-- A phase that runs to success joins the done ones. -/
lemma run_achieves {cfg : PhaseConfig} (hcfg : cfg = configOf phase prompt)
    (hfits : Fits runDir done phase) (hdir : inp.runDir = runDir)
    (hname : inp.phaseName = phase.name) (hw : Done runDir done w) :
    Achieves perform (fun _ => Done runDir (done ++ [phase]))
      (PhaseRunner.run eng cfg inp attempt) w := by
  subst hdir
  have hclears : ∀ o : Op B, PhaseOp cfg inp False o →
      Clears inp.runDir (TakenBy inp.runDir done) o := by
    rw [hcfg]
    exact fun o ho => hfits.phaseOp rfl hname ho
  have hphase : cfg.phase = phase.name := by rw [hcfg, configOf]
  have houtput : cfg.artefactName = phase.output := by rw [hcfg, configOf]
  have hkind : cfg.artefactKind ≠ .changesDir := by
    rw [hcfg]
    exact configOf_kind
  refine Achieves.bind ((attemptPhase_achieves (I := Done inp.runDir done) ?_ hw).mono
    fun x w₁ hw₁ => ?_)
  · intro o s a s' ho hs hact
    exact hs.step hfits.done_clear (not_committing ho) (hclears o ho) hact
  · exact commit_achieves hfits hphase houtput hkind hw₁

end Commit

section Completed

/-- The phases run to success one after the other. -/
inductive RanAll (runDir : Path) : List Grammar.Phase → World B → World B → Prop
  | done {w : World B} : RanAll runDir [] w w
  | phase {phase : Grammar.Phase} {phases : List Grammar.Phase} {w w₁ w' : World B}
      {eng : Engines} {prompt : String} {inp : PhaseInputs} {attempt : ℕ}
      {tr : List (Event (RunSig B))} {outcome : PhaseOutcome} (dir : inp.runDir = runDir)
      (name : inp.phaseName = phase.name)
      (run : Runs perform (PhaseRunner.run eng (configOf phase prompt) inp attempt) w tr
        (.ok outcome) w₁)
      (rest : RanAll runDir phases w₁ w') : RanAll runDir (phase :: phases) w w'

lemma RanAll.allDone (h : RanAll runDir phases w w') (hlayout : Unclashing runDir (done ++ phases))
    (hw : Done runDir done w) : Done runDir (done ++ phases) w' := by
  induction h generalizing done with
  | done => simpa using hw
  | @phase phase phases w w₁ w' eng prompt inp attempt tr outcome dir name run _ ih =>
      have hw₁ := run_achieves rfl hlayout.fits dir name hw tr outcome w₁ run
      have happend : done ++ phase :: phases = (done ++ [phase]) ++ phases := by simp
      rw [happend] at hlayout ⊢
      exact ih hlayout hw₁

variable {wf : Grammar.Workflow}

end Completed

section TwoPhases

def askPhase (name output : String) : Grammar.Phase :=
  ⟨name, .single, ["claude/"], "Go", [], output⟩

def askInputs (name : String) : PhaseInputs := ⟨["claude"], none, name, none, ["run"], "r1"⟩

/-- The phase run by itself, with its backend answering as told. -/
def afterAsk (name output answer : String) (w : World Doc) :
    List (Event (RunSig Doc)) × Except PhaseError PhaseOutcome × World Doc :=
  eval (handle ⟨fun _ => .ok answer, fun _ => .ok .pass⟩)
    (PhaseRunner.run plainEngines (configOf (askPhase name output) "Go") (askInputs name) 0) w

/-- Two phases with one output each. -/
def twoPhases (output output' : String) : Grammar.Workflow :=
  ⟨"design", [askPhase "design" output, askPhase "review" output']⟩

def afterTwo (output output' : String) : World Doc :=
  (afterAsk "review" output' "two" (afterAsk "design" output "one" newRun).2.2).2.2

/-- Both phases succeed if their results say so. -/
lemma afterTwo_ran {output output' : String} {first second : PhaseOutcome}
    (hfirst : (afterAsk "design" output "one" newRun).2.1 = .ok first)
    (hsecond : (afterAsk "review" output' "two" (afterAsk "design" output "one" newRun).2.2).2.1 =
      .ok second) :
    RanAll ["run"] (twoPhases output output').phases newRun (afterTwo output output') := by
  have hruns : ∀ name output answer w outcome, (afterAsk name output answer w).2.1 = .ok outcome →
      Runs perform (PhaseRunner.run plainEngines (configOf (askPhase name output) "Go")
        (askInputs name) 0) w (afterAsk name output answer w).1 (.ok outcome)
        (afterAsk name output answer w).2.2 := by
    intro name output answer w outcome hok
    rw [← hok]
    exact eval_runs (handle_performs _) _ _
  exact .phase rfl rfl (hruns _ _ _ _ _ hfirst) (.phase rfl rfl (hruns _ _ _ _ _ hsecond) .done)

lemma newRun_create :
    createRunDir Disk.empty ["run"] "r1" (twoPhases "a.md" "b.md").name = some newRun.disk := rfl

lemma unclashing_design_review :
    Unclashing ["run"] (twoPhases "design.md" "review.md").phases := by
  have hclear : ∀ s rest, s ∉ ["manifest.json", "heartbeat.json", "markers"] →
      ProtocolClear ["run"] (["run"] ++ s :: rest) := fun s rest hs => fileClear_below hs not_false
  have hwrites : ∀ p ∈ (twoPhases "design.md" "review.md").phases, ∀ name, Writes p name →
      name = singleOutput := by
    intro p hp name hname
    simp only [twoPhases, List.mem_cons, List.not_mem_nil, or_false] at hp
    rcases hp with rfl | rfl
    · exact hname
    · exact hname
  refine ⟨by decide, fun p hp => ?_, fun p hp name hname => ?_, ?_⟩
  · simp only [twoPhases, List.mem_cons, List.not_mem_nil, or_false] at hp
    rcases hp with rfl | rfl
    · exact ⟨hclear "design.md" [] (by decide), by decide⟩
    · exact ⟨hclear "review.md" [] (by decide), by decide⟩
  · rw [hwrites p hp name hname]
    exact ⟨hclear "attempts" _ (by decide), by decide⟩
  · refine List.pairwise_pair.mpr ⟨by decide, fun n => ?_, fun name hname => ?_⟩
    · have hpath : join ["run"] (askPhase "design" "design.md").output = ["run", "design.md"] := rfl
      rw [hpath]
      simp [markersDir]
    · rw [hwrites _ (by simp [twoPhases]) name hname]
      decide

end TwoPhases

end Loker.CompletedRuns
