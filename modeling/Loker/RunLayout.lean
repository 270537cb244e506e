import Loker.CommitProtocol

/-! Which paths of a run directory the operations of a phase touch, and when names alone keep
them apart from the files that loading depends on. -/

namespace Loker.RunLayout

open FileTree TextOps Programs RunFiles RunLoad LoadSpec RunOps Dispatch Strategies PhaseRunner
  Resume CommitProtocol

variable {B : Type} {runDir : Path} {taken : Path → Prop}

section Clear

/-- The path is none of the protocol's files that loading reads and is not taken. -/
structure FileClear (runDir : Path) (taken : Path → Prop) (p : Path) : Prop where
  not_manifest : p ≠ manifestPath runDir
  not_markers : p ≠ markersDir runDir
  not_completed : ∀ name, endsWith name ".completed" = true → p ≠ markersDir runDir ++ [name]
  not_heartbeat : p ≠ heartbeatPath runDir
  free : ¬ taken p

/-- Moving `src` to `dst` leaves those files in place. -/
structure MoveClear (runDir : Path) (taken : Path → Prop) (src dst : Path) : Prop where
  manifest : ¬ src <+: manifestPath runDir ∧ ¬ dst <+: manifestPath runDir
  markers : ∀ name, ¬ src <+: markersDir runDir ++ [name] ∧ ¬ dst <+: markersDir runDir ++ [name]
  heartbeat : ¬ src <+: heartbeatPath runDir ∧ ¬ dst <+: heartbeatPath runDir
  free : ∀ q, taken q → ¬ src <+: q

/-- The operation is harmless in every state whose manifest lists only files at taken paths. -/
def Clears (runDir : Path) (taken : Path → Prop) : Op B → Prop
  | .createDirAll p => ¬ heartbeatPath runDir <+: p
  | .writeFile p _ => FileClear runDir taken p
  | .rename src dst => MoveClear runDir taken src dst
  | .writeMarker dir (.completed m) => dir = runDir ∧ '/' ∉ m.phase.toList ∧
      ¬ taken (markersDir runDir ++ [m.phase ++ ".completed"])
  | .writeMarker dir m => FileClear runDir taken (markerPath dir m)
  | .writeManifest dir _ => dir = runDir ∧ ¬ taken (manifestPath runDir)
  | _ => True

variable [RunFormat B] {names : String → Prop} {w : World B}

lemma FileClear.fileSafe {p : Path} (h : FileClear runDir taken p) (hw : Safe runDir names w)
    (hnames : ∀ name, names name → taken (join runDir name)) (b : B) :
    FileSafe runDir w.disk p b where
  not_manifest := h.not_manifest
  not_markers := h.not_markers
  not_completed := h.not_completed
  heartbeat hp := absurd hp h.not_heartbeat
  kept m hm e he _ hp := absurd (hp ▸ hnames e.name (hw.listed m hm e he)) h.free

lemma Clears.harmless {o : Op B} (h : Clears runDir taken o) (hw : Safe runDir names w)
    (hnames : ∀ name, names name → taken (join runDir name)) : Harmless runDir o w := by
  have htaken : ∀ m, manifestAt w.disk runDir = some m → ∀ e ∈ m.entries,
      taken (join runDir e.name) := fun m hm e he => hnames e.name (hw.listed m hm e he)
  cases o with
  | createDirAll p => exact h
  | writeFile p b => exact h.fileSafe hw hnames b
  | rename src dst =>
      exact ⟨h.manifest, h.markers, h.heartbeat, fun m hm e he _ => h.free _ (htaken m hm e he)⟩
  | writeManifest dir m =>
      exact ⟨h.1, fun m hm e he _ hp => h.2 (hp ▸ htaken m hm e he)⟩
  | writeMarker dir m =>
      cases m with
      | started c => exact FileClear.fileSafe h hw hnames _
      | failed c => exact FileClear.fileSafe h hw hnames _
      | completed c =>
          obtain ⟨hdir, hslash, hfree⟩ := h
          exact ⟨hdir, hslash, fun m hm e he _ hp => hfree (hp ▸ htaken m hm e he)⟩
  | _ => trivial

end Clear

section Paths

/-- A path below one entry of the run directory is clear of the entries that loading reads. -/
lemma fileClear_below {s : String} {rest : Path}
    (hs : s ∉ ["manifest.json", "heartbeat.json", "markers"])
    (hfree : ¬ taken (runDir ++ s :: rest)) : FileClear runDir taken (runDir ++ s :: rest) := by
  simp only [List.mem_cons, List.not_mem_nil, or_false, not_or] at hs
  obtain ⟨hmanifest, hheartbeat, hmarkers⟩ := hs
  refine ⟨?_, ?_, fun name _ => ?_, ?_, hfree⟩
  · simp [manifestPath, hmanifest]
  · simp [markersDir, hmarkers]
  · simp [markersDir, hmarkers]
  · simp [heartbeatPath, hheartbeat]

lemma not_heartbeat_below {s : String} {rest : Path} (hs : s ≠ "heartbeat.json") :
    ¬ heartbeatPath runDir <+: runDir ++ s :: rest := by
  rw [heartbeatPath, List.prefix_append_right_inj, List.cons_prefix_cons]
  exact fun h => hs h.1.symm

lemma not_heartbeat_runDir : ¬ heartbeatPath runDir <+: runDir := by
  intro h
  have hlen := h.length_le
  rw [heartbeatPath, List.length_append, List.length_singleton] at hlen
  omega

lemma endsWith_suffix {s a b : String} (ha : endsWith s a = true) (hb : endsWith s b = true)
    (hlen : a.toList.length ≤ b.toList.length) : endsWith b a = true := by
  rw [endsWith, List.isSuffixOf_iff_suffix] at *
  exact List.suffix_of_suffix_length_le ha hb hlen

lemma not_completed_failed (phase : String) : endsWith (phase ++ ".failed") ".completed" = false := by
  by_contra h
  rw [Bool.not_eq_false] at h
  exact absurd (endsWith_suffix (endsWith_append phase ".failed") h (by decide)) (by decide)

/-- A started marker's name ends in a digit. -/
lemma not_endsWith_started {suffix : String} {c : Char} (hlast : suffix.toList.getLast? = some c)
    (hc : c.isDigit = false) (phase : String) (n : ℕ) :
    endsWith (phase ++ ".started." ++ n.repr) suffix = false := by
  by_contra h
  rw [Bool.not_eq_false, endsWith, List.isSuffixOf_iff_suffix] at h
  have hne : n.repr.toList ≠ [] := by
    intro hempty
    exact (isName_repr n).ne_empty (by rw [← String.toList_inj, hempty]; rfl)
  have hsuffix : suffix.toList ≠ [] := by
    rintro hempty
    simp [hempty] at hlast
  obtain ⟨init, hinit⟩ := h
  have hends := congrArg List.getLast? hinit
  rw [String.toList_append, List.getLast?_append_of_ne_nil _ hsuffix,
    List.getLast?_append_of_ne_nil _ hne, hlast] at hends
  have hdigit := isDigit_of_mem_repr (List.mem_of_getLast? hends.symm)
  rw [hc] at hdigit
  cases hdigit

lemma not_completed_started (phase : String) (n : ℕ) :
    endsWith (phase ++ ".started." ++ n.repr) ".completed" = false :=
  not_endsWith_started (c := 'd') (by decide) (by decide) phase n

lemma isName_started {phase : String} (h : '/' ∉ phase.toList) (n : ℕ) :
    IsName (phase ++ ".started." ++ n.repr) := by
  have hrest : '/' ∉ (".started." ++ n.repr).toList := by
    simpa using slash_not_mem_repr n
  rw [String.append_assoc]
  exact isName_append h hrest (by simp)

lemma isName_failed {phase : String} (h : '/' ∉ phase.toList) : IsName (phase ++ ".failed") :=
  isName_append h (by decide) (by decide)

/-- Started and failed markers are clear of the completed ones. -/
lemma markerPath_clear {m : Marker} (h : '/' ∉ m.phase.toList) (hm : ∀ c, m ≠ .completed c)
    (hfree : ∀ name, ¬ taken (markersDir runDir ++ [name])) :
    FileClear runDir taken (markerPath runDir m) := by
  have hclear : ∀ name, IsName name → endsWith name ".completed" = false →
      FileClear runDir taken (join (markersDir runDir) name) := by
    intro name hname hnot
    rw [join_of_isName hname]
    refine ⟨by simp [markersDir, manifestPath], by simp, fun other hother heq => ?_,
      by simp [markersDir, heartbeatPath], hfree name⟩
    obtain rfl : name = other := by simpa using heq
    rw [hnot] at hother
    cases hother
  cases m with
  | started c => exact hclear _ (isName_started h _) (not_completed_started _ _)
  | failed c => exact hclear _ (isName_failed h) (not_completed_failed _)
  | completed c => exact absurd rfl (hm c)

lemma archivePath_eq {phase : String} (h : IsName phase) (n : ℕ) :
    archivePath runDir phase n = runDir ++ ["attempts", phase, n.repr] := by
  rw [archivePath, join_of_isName h, join_of_isName (isName_repr n)]
  simp

lemma lockPath_eq {phase : String} (h : '/' ∉ phase.toList) :
    lockPath runDir phase = runDir ++ ["locks", phase ++ ".lock"] := by
  rw [lockPath, join_of_isName (isName_append h (by decide) (by decide))]
  simp

end Paths

section Phases

variable {cfg : PhaseConfig} {inp : PhaseInputs}

/-- The phase has a plain name, and nothing taken is in the trees that it or its archive uses. -/
structure PhaseClear (runDir : Path) (taken : Path → Prop) (phase : String) : Prop where
  isName : IsName phase
  not_protocol : phase ∉ ["manifest.json", "heartbeat.json", "markers"]
  apart : ∀ s ∈ ["manifest.json", "markers", "attempts", "locks", phase], ∀ q, taken q →
    ¬ runDir ++ [s] <+: q

lemma PhaseClear.free (h : PhaseClear runDir taken cfg.phase) {s : String} {rest : Path}
    (hs : s ∈ ["manifest.json", "markers", "attempts", "locks", cfg.phase]) :
    ¬ taken (runDir ++ s :: rest) := by
  intro htaken
  refine h.apart s hs _ htaken ?_
  rw [List.prefix_append_right_inj]
  simp

lemma PhaseClear.below (h : PhaseClear runDir taken cfg.phase) {s : String} {rest : Path}
    (hs : s ∈ ["attempts", "locks", cfg.phase]) : FileClear runDir taken (runDir ++ s :: rest) := by
  simp only [List.mem_cons, List.not_mem_nil, or_false] at hs
  rcases hs with rfl | rfl | rfl
  · exact fileClear_below (by decide) (h.free (by simp))
  · exact fileClear_below (by decide) (h.free (by simp))
  · exact fileClear_below h.not_protocol (h.free (by simp))

lemma PhaseClear.marker (h : PhaseClear runDir taken cfg.phase) (name : String) :
    ¬ taken (markersDir runDir ++ [name]) := by
  rw [markersDir, List.append_assoc]
  exact h.free (by simp)

lemma PhaseClear.ne_heartbeat (h : PhaseClear runDir taken cfg.phase) :
    cfg.phase ≠ "heartbeat.json" := fun heq => h.not_protocol (by simp [heq])

/-- The files of a phase's strategy are clear, and so are the directories above them. -/
lemma PhaseClear.output (h : PhaseClear runDir taken cfg.phase) (hphase : inp.phaseName = cfg.phase)
    {name : String} (hname : PhaseOutputName cfg inp name) :
    FileClear runDir taken (join runDir name) ∧
      ¬ heartbeatPath runDir <+: (join runDir name).dropLast := by
  obtain ⟨strategy, _, houtput⟩ := hname
  rw [hphase] at houtput
  rcases join_outputName h.isName houtput with heq | heq | ⟨s, heq⟩
  · rw [heq, List.dropLast_append_of_ne_nil (by simp)]
    exact ⟨h.below (by simp), not_heartbeat_below (by decide)⟩
  · rw [heq, List.dropLast_append_of_ne_nil (by simp)]
    exact ⟨h.below (by simp), not_heartbeat_below h.ne_heartbeat⟩
  · rw [heq, List.dropLast_append_of_ne_nil (by simp)]
    exact ⟨h.below (by simp), not_heartbeat_below h.ne_heartbeat⟩

lemma PhaseClear.phaseOp (h : PhaseClear runDir taken cfg.phase) (hdir : inp.runDir = runDir)
    (hphase : inp.phaseName = cfg.phase) {fails : Prop} {o : Op B} (ho : PhaseOp cfg inp fails o) :
    Clears runDir taken o := by
  subst hdir
  cases o with
  | createDirAll p =>
      rcases ho with rfl | ⟨name, hname, rfl⟩ | ⟨_, n, rfl⟩
      · exact not_heartbeat_below (by decide)
      · exact (h.output hphase hname).2
      · rw [Clears, archivePath_eq h.isName]
        exact not_heartbeat_below (by decide)
  | writeFile p b =>
      rcases ho with ⟨name, hname, rfl⟩ | ⟨_, n, rfl⟩
      · exact (h.output hphase hname).1
      · rw [Clears, join_of_isName (by decide), archivePath_eq h.isName, List.append_assoc]
        exact h.below (by simp)
  | writeMarker dir m =>
      obtain ⟨rfl, hmarker, hkind⟩ := ho
      have hslash : '/' ∉ m.phase.toList := by
        rw [hmarker]
        exact h.isName.no_slash
      rcases hkind with ⟨c, rfl⟩ | ⟨_, c, rfl⟩
      · exact markerPath_clear hslash nofun h.marker
      · exact markerPath_clear hslash nofun h.marker
  | rename src dst => cases ho
  | writeManifest dir m => cases ho
  | _ => trivial

lemma PhaseClear.resumeOp (h : PhaseClear runDir taken cfg.phase) {o : Op B}
    (ho : ResumeOp runDir cfg.phase o) : Clears runDir taken o := by
  cases o with
  | createDirAll p =>
      rcases ho with rfl | rfl
      · rw [Clears, join_of_isName h.isName, List.append_assoc]
        exact not_heartbeat_below (by decide)
      · exact not_heartbeat_below (by decide)
  | writeFile p b =>
      obtain rfl : p = lockPath runDir cfg.phase := ho
      rw [Clears, lockPath_eq h.isName.no_slash]
      exact h.below (by simp)
  | rename src dst =>
      obtain ⟨rfl, n, rfl⟩ := ho
      have hprotocol := h.not_protocol
      simp only [List.mem_cons, List.not_mem_nil, or_false, not_or] at hprotocol
      rw [Clears, join_of_isName h.isName, show archiveDest runDir cfg.phase n =
        archivePath runDir cfg.phase n from rfl, archivePath_eq h.isName]
      refine ⟨?_, fun name => ?_, ?_, fun q hq => h.apart _ (by simp) q hq⟩
      · simp [manifestPath, List.prefix_append_right_inj, hprotocol.1]
      · simp [markersDir, List.prefix_append_right_inj, hprotocol.2.2]
      · simp [heartbeatPath, List.prefix_append_right_inj, hprotocol.2.1]
  | writeMarker dir m => cases ho
  | writeManifest dir m => cases ho
  | _ => trivial

/-- The commit is clear too, but for the write of the artefact itself. -/
lemma PhaseClear.commitOp (h : PhaseClear runDir taken cfg.phase)
    (hparent : ¬ heartbeatPath runDir <+: parentOf runDir cfg.artefactName) {o : Op B}
    (ho : CommitOp cfg runDir o) (hnot : ∀ b, o ≠ .writeFile (join runDir cfg.artefactName) b) :
    Clears runDir taken o := by
  cases o with
  | createDirAll p =>
      rcases ho with rfl | rfl | rfl
      · exact not_heartbeat_runDir
      · exact hparent
      · exact not_heartbeat_below (by decide)
  | writeFile p b =>
      obtain rfl : p = join runDir cfg.artefactName := ho
      exact absurd rfl (hnot b)
  | writeMarker dir m =>
      obtain ⟨rfl, c, rfl, hphase⟩ := ho
      refine ⟨rfl, by rw [hphase]; exact h.isName.no_slash, h.marker _⟩
  | writeManifest dir m => exact ⟨ho, h.free (by simp)⟩
  | rename src dst => cases ho
  | _ => trivial

end Phases

end Loker.RunLayout
