import Loker.MarkerNames
import Loker.ResumeDecision

/-! The summary of a run and its run state: both read the markers directory, and for which phases
they come to the same result. -/

namespace Loker.SummaryAgreement

open FileTree TextOps Programs RunFiles RunLoad LoadSpec RunOps Dispatch Strategies PhaseRunner
  Resume CommitProtocol RunLayout CrashHistories Resumability MarkerNames AttemptNumbers
open Summary (SummaryFormat PhaseSummary phaseSummary collectPhases computeRunStatus terminalName
  attemptsOf)

section Written

variable {B : Type} [RunFormat B] {runDir : Path} {phases : List PhaseConfig} {t t' : Disk B}
  {w w' : World B} {cfg : PhaseConfig} {inp : PhaseInputs}

/-- Every file among the markers is a marker of one of the phases, under its own name. -/
structure Written (runDir : Path) (phases : List PhaseConfig) (t : Disk B) : Prop where
  directory : fileAt t (markersDir runDir) = none
  files : ∀ name, t.node (markersDir runDir ++ [name]) ≠ none → ∃ m : Marker, m.fileName = name ∧
    (∃ cfg ∈ phases, m.phase = cfg.phase) ∧
    t.node (markersDir runDir ++ [name]) = some (.file m.bytes)

/-- The markers directory is left to the markers, and the phases' names are plain ones. -/
structure Reserved (runDir : Path) (phases : List PhaseConfig) : Prop where
  phase_name : ∀ cfg ∈ phases, PlainName cfg.phase ∧ IsName cfg.phase ∧ cfg.phase ≠ "markers"
  output : ∀ cfg ∈ phases, ¬ markersDir runDir <+: join runDir cfg.artefactName
  parent : ∀ cfg ∈ phases, ∀ name,
    ¬ markersDir runDir ++ [name] <+: parentOf runDir cfg.artefactName

/-- The operation puts nothing but markers of the phases among the markers. -/
def Reserves (runDir : Path) (phases : List PhaseConfig) : Op B → Prop
  | .createDirAll q => ∀ name, ¬ markersDir runDir ++ [name] <+: q
  | .writeFile q _ => ¬ markersDir runDir <+: q
  | .rename src dst => ∀ name, ¬ src <+: markersDir runDir ++ [name] ∧
      ¬ dst <+: markersDir runDir ++ [name]
  | .writeMarker dir m => dir = runDir ∧ ∃ cfg ∈ phases, m.phase = cfg.phase
  | .writeManifest dir _ => dir = runDir
  | _ => True

lemma Written.congr (h : Written runDir phases t)
    (hdirectory : fileAt t' (markersDir runDir) = fileAt t (markersDir runDir))
    (hfiles : ∀ name, t'.node (markersDir runDir ++ [name]) = t.node (markersDir runDir ++ [name])) :
    Written runDir phases t' where
  directory := by rw [hdirectory, h.directory]
  files name hnode := by
    rw [hfiles name] at hnode ⊢
    exact h.files name hnode

lemma Written.writeFile {q : Path} {b : B} (h : Written runDir phases t)
    (hq : ¬ markersDir runDir <+: q) (hwrite : writeFile t q b = some t') :
    Written runDir phases t' := by
  have hdir : markersDir runDir ≠ q := by
    rintro rfl
    exact hq List.prefix_rfl
  have hfile : ∀ name, markersDir runDir ++ [name] ≠ q := by
    rintro name rfl
    exact hq (List.prefix_append _ _)
  exact h.congr (writeFile_other hwrite hdir) fun name => by
    rw [writeFile_node hwrite, if_neg (hfile name)]

lemma written_step (hreserved : Reserved runDir phases) {o : Op B} {a : Answer B o}
    (ho : Reserves runDir phases o) (hw : Written runDir phases w.disk) (h : perform o w a w') :
    Written runDir phases w'.disk := by
  rcases perform_effect h with rfl | heffect
  · exact hw
  cases o with
  | createDirAll q =>
      obtain ⟨t', ht', rfl⟩ := Option.map_eq_some_iff.mp heffect
      have hfiles : ∀ name, t'.node (markersDir runDir ++ [name]) =
          w.disk.node (markersDir runDir ++ [name]) := by
        intro name
        rw [createDirAll_node ht', if_neg (ho name)]
      exact hw.congr (by rw [createDirAll_fileAt ht']) hfiles
  | writeFile q b =>
      obtain ⟨t', ht', rfl⟩ := Option.map_eq_some_iff.mp heffect
      exact hw.writeFile ho ht'
  | rename src dst =>
      obtain ⟨t', ht', rfl⟩ := Option.map_eq_some_iff.mp heffect
      have hdir : t'.node (markersDir runDir) = w.disk.node (markersDir runDir) := by
        have hpre := List.prefix_append (markersDir runDir) [""]
        exact rename_node ht' (fun hs => (ho "").1 (hs.trans hpre)) fun hd => (ho "").2 (hd.trans hpre)
      exact hw.congr (fileAt_congr hdir) fun name => rename_node ht' (ho name).1 (ho name).2
  | writeManifest dir m =>
      obtain rfl : dir = runDir := ho
      obtain ⟨t', ht', rfl⟩ := Option.map_eq_some_iff.mp heffect
      have hmanifest : ¬ markersDir dir <+: manifestPath dir := not_markers_below (by decide)
      exact hw.writeFile hmanifest ht'
  | writeMarker dir m =>
      obtain ⟨rfl, cfg, hmem, hphase⟩ := ho
      obtain ⟨t', ht', rfl⟩ := Option.map_eq_some_iff.mp heffect
      have hslash : '/' ∉ m.phase.toList := hphase ▸ (hreserved.phase_name cfg hmem).1.no_slash
      rw [markerPath_eq (isName_fileName hslash)] at ht'
      refine ⟨by rw [writeFile_other ht' (by simp), hw.directory], fun name hnode => ?_⟩
      by_cases hname : name = m.fileName
      · refine ⟨m, hname.symm, ⟨cfg, hmem, hphase⟩, ?_⟩
        rw [writeFile_node ht', if_pos (by rw [hname])]
      · have hother : t'.node (markersDir dir ++ [name]) = w.disk.node (markersDir dir ++ [name]) := by
          rw [writeFile_node ht', if_neg (by simpa using hname)]
        rw [hother] at hnode ⊢
        exact hw.files name hnode
  | _ => cases heffect

omit [RunFormat B] in
lemma Reserved.output_reserves (h : Reserved runDir phases) (hmem : cfg ∈ phases)
    (hname : inp.phaseName = cfg.phase) {name : String} (houtput : PhaseOutputName cfg inp name) :
    ¬ markersDir runDir <+: join runDir name := by
  obtain ⟨_, hphase, hmarkers⟩ := h.phase_name cfg hmem
  obtain ⟨strategy, _, houtput⟩ := houtput
  rw [hname] at houtput
  rcases join_outputName hphase houtput with heq | heq | ⟨s, heq⟩
  · rw [heq]
    exact not_markers_below (by decide)
  · rw [heq]
    exact not_markers_below hmarkers
  · rw [heq]
    exact not_markers_below hmarkers

lemma not_marker_le_markers (name : String) : ¬ markersDir runDir ++ [name] <+: markersDir runDir := by
  intro h
  have hlen := h.length_le
  rw [List.length_append] at hlen
  exact absurd hlen (Nat.not_le.mpr (Nat.lt_add_of_pos_right (by simp)))

omit [RunFormat B] in
lemma Reserved.phaseOp (h : Reserved runDir phases) (hmem : cfg ∈ phases)
    (hdir : inp.runDir = runDir) (hname : inp.phaseName = cfg.phase) {o : Op B}
    (ho : PhaseOp cfg inp True o) : Reserves runDir phases o := by
  subst hdir
  have hphase := (h.phase_name cfg hmem).2.1
  cases o with
  | createDirAll q =>
      rcases ho with rfl | ⟨name, houtput, rfl⟩ | ⟨_, n, rfl⟩
      · exact not_marker_le_markers
      · intro other hle
        have houtside := not_marker_of_not_markers (h.output_reserves hmem hname houtput) other
        exact houtside (hle.trans (List.dropLast_prefix _))
      · rw [archivePath_eq hphase]
        exact not_marker_below (by decide)
  | writeFile q b =>
      rcases ho with ⟨name, houtput, rfl⟩ | ⟨_, n, rfl⟩
      · exact h.output_reserves hmem hname houtput
      · rw [Reserves, join_of_isName (by decide), archivePath_eq hphase, List.append_assoc]
        exact not_markers_below (by decide)
  | writeMarker dir m => exact ⟨ho.1, cfg, hmem, ho.2.1⟩
  | rename src dst => cases ho
  | writeManifest dir m => cases ho
  | _ => trivial

omit [RunFormat B] in
lemma Reserved.commitOp (h : Reserved runDir phases) (hmem : cfg ∈ phases) {o : Op B}
    (ho : CommitOp cfg runDir o) : Reserves runDir phases o := by
  cases o with
  | createDirAll q =>
      rcases ho with rfl | rfl | rfl
      · intro name hle
        have hmarkers : q <+: markersDir q := List.prefix_append _ _
        exact not_marker_le_markers name (hle.trans hmarkers)
      · exact h.parent cfg hmem
      · exact not_marker_le_markers
  | writeFile q b =>
      obtain rfl : q = join runDir cfg.artefactName := ho
      exact h.output cfg hmem
  | writeMarker dir m =>
      obtain ⟨rfl, c, rfl, hphase⟩ := ho
      exact ⟨rfl, cfg, hmem, hphase⟩
  | writeManifest dir m => exact ho
  | rename src dst => cases ho
  | _ => trivial

omit [RunFormat B] in
lemma Reserved.resumeOp (h : Reserved runDir phases) (hmem : cfg ∈ phases) {o : Op B}
    (ho : ResumeOp runDir cfg.phase o) : Reserves runDir phases o := by
  obtain ⟨hplain, hphase, hmarkers⟩ := h.phase_name cfg hmem
  cases o with
  | createDirAll q =>
      rcases ho with rfl | rfl
      · rw [join_of_isName hphase, List.append_assoc]
        exact not_marker_below (by decide)
      · exact not_marker_below (by decide)
  | writeFile q b =>
      obtain rfl : q = lockPath runDir cfg.phase := ho
      rw [lockPath_eq hplain.no_slash]
      exact not_markers_below (by decide)
  | rename src dst =>
      obtain ⟨rfl, n, rfl⟩ := ho
      rw [join_of_isName hphase, show archiveDest runDir cfg.phase n =
        archivePath runDir cfg.phase n from rfl, archivePath_eq hphase]
      refine fun name => ⟨?_, ?_⟩
      · simp [markersDir, List.prefix_append_right_inj, List.cons_prefix_cons, hmarkers]
      · simp [markersDir, List.prefix_append_right_inj, List.cons_prefix_cons]
  | writeMarker dir m => cases ho
  | writeManifest dir m => cases ho
  | _ => trivial

omit [RunFormat B] in
lemma Reserved.actionOp (h : Reserved runDir phases) (hmem : cfg ∈ phases)
    (hdir : inp.runDir = runDir) (hname : inp.phaseName = cfg.phase) {o : Op B}
    (ho : ActionOp cfg inp o) : Reserves runDir phases o := by
  rcases ho with hphase | hcommit | hresume
  · exact h.phaseOp hmem hdir hname hphase
  · exact h.commitOp hmem (hdir ▸ hcommit)
  · exact h.resumeOp hmem (hdir ▸ hresume)

lemma createRunDir_written {runId workflowName : String}
    (h : createRunDir t runDir runId workflowName = some t') : Written runDir phases t' := by
  have hnone : ∀ q, t'.node (markersDir runDir ++ q) = none := by
    intro q
    rw [markersDir, List.append_assoc, createRunDir_node h (by simp), if_neg (by simp),
      if_neg (by simp)]
  have hdir : t'.node (markersDir runDir) = none := by
    have h := hnone []
    rwa [List.append_nil] at h
  exact ⟨fileAt_eq_none.mpr (Or.inl hdir), fun name hnode => absurd (hnone [name]) hnode⟩

/-- In every reachable run directory the markers are those that the phases have written. -/
lemma Reached.written (hreserved : Reserved runDir phases)
    (h : Reached perform runDir phases w) : Written runDir phases w.disk := by
  have hsteps : ∀ {ε ρ : Type} {p : Run B ε ρ} {p' : Prog (RunSig B) (Except ε ρ)} {cfg inp tr}
      {s s' : World B}, cfg ∈ phases → inp.runDir = runDir → inp.phaseName = cfg.phase →
      Emits (ActionOp (B := B) cfg inp) p → Steps perform p s tr p' s' →
      Written runDir phases s.disk → Written runDir phases s'.disk := by
    intro ε ρ p p' cfg inp tr s s' mem dir name hemits steps hs
    have hstep : ∀ (o : Op B) (s : World B) (a : Answer B o) (s' : World B), ActionOp cfg inp o →
        Written runDir phases s.disk → perform o s a s' → Written runDir phases s'.disk :=
      fun o s a s' ho hs hact => written_step hreserved (hreserved.actionOp mem dir name ho) hs hact
    exact steps.invariant (I := fun s => Written runDir phases s.disk)
      (hemits.meets hstep hs) hs
  induction h with
  | created create => exact createRunDir_written create
  | run _ mem dir name steps ih =>
      exact hsteps mem dir name (Emits.mono run_emits fun _ ho => ho.imp_right Or.inl) steps ih
  | resume _ mem dir name steps ih =>
      exact hsteps mem dir name (executeAction_emits _) steps ih

end Written

section Agreement

variable {B : Type} [SummaryFormat B] {runDir : Path} {phases : List PhaseConfig} {t : Disk B}
  {w : World B} {p : String} {m : Marker}

/-- What the summary shows of a phase with the given status: a started phase is left out. -/
def reported : Option PhaseStatus → List Summary.PhaseStatus
  | some .completed => [.completed]
  | some .failed => [.failed]
  | _ => []

/-- The statuses with which the summary lists the phase. -/
def listed (t : Disk B) (runDir : Path) (p : String) : List Summary.PhaseStatus :=
  ((collectPhases t runDir).filter (·.phase = p)).map PhaseSummary.status

def Holds (t : Disk B) (runDir : Path) (name : String) : Prop :=
  (fileAt t (markersDir runDir ++ [name])).isSome

/-- The phase has two terminal markers. -/
def BothEnds (t : Disk B) (runDir : Path) (p : String) : Prop :=
  Holds t runDir (p ++ ".completed") ∧ Holds t runDir (p ++ ".failed")

lemma Written.marker (h : Written runDir phases t) {name : String}
    (hname : name ∈ readDir t (markersDir runDir)) : ∃ m : Marker, m.fileName = name ∧
      (∃ cfg ∈ phases, m.phase = cfg.phase) ∧
      fileAt t (markersDir runDir ++ [name]) = some m.bytes := by
  obtain ⟨m, hm, hphase, hnode⟩ := h.files name (mem_readDir.mp hname)
  exact ⟨m, hm, hphase, fileAt_eq_some.mpr hnode⟩

/-- The name of a terminal marker of the phase, with what the summary makes of it. -/
lemma terminalName_fileName (hplain : PlainName m.phase) {s : Summary.PhaseStatus}
    (h : terminalName m.fileName = some (p, s)) :
    m.phase = p ∧ (m.fileName = p ++ ".completed" ∧ s = .completed ∨
      m.fileName = p ++ ".failed" ∧ s = .failed) := by
  cases m with
  | started c =>
      have hnone := hplain.identified.not_terminal c.attempt
      have hsome : terminalName (Marker.started ⟨c.phase, c.attempt⟩).fileName = some (p, s) := h
      rw [show (Marker.started c).phase = c.phase from rfl] at hnone
      rw [hnone] at hsome
      cases hsome
  | completed c =>
      have hread : terminalName (c.phase ++ ".completed") = some (c.phase, .completed) :=
        hplain.identified.completed
      obtain ⟨rfl, rfl⟩ := Prod.mk.inj (Option.some.inj (hread.symm.trans h))
      exact ⟨rfl, Or.inl ⟨rfl, rfl⟩⟩
  | failed c =>
      have hread : terminalName (c.phase ++ ".failed") = some (c.phase, .failed) :=
        hplain.identified.failed
      obtain ⟨rfl, rfl⟩ := Prod.mk.inj (Option.some.inj (hread.symm.trans h))
      exact ⟨rfl, Or.inr ⟨rfl, rfl⟩⟩

lemma nodup_readDir {β : Type} {t : Disk β} {q : Path} : (readDir t q).Nodup :=
  (List.nodup_dedup _).filter _

lemma collectPhases_perm (h : fileAt t (markersDir runDir) = none) :
    (collectPhases t runDir).Perm
      ((readDir t (markersDir runDir)).filterMap (phaseSummary t (markersDir runDir))) := by
  unfold collectPhases
  dsimp only
  rcases absent_or_dir h with ⟨habsent, hempty⟩ | hdir
  · have hnot : isDir t (markersDir runDir) = false := by
      by_contra hdir
      rw [Bool.not_eq_false] at hdir
      rw [occupied_of_isDir hdir] at habsent
      cases habsent
    simp [hnot, hempty]
  · rw [if_pos hdir]
    exact List.perm_insertionSort _ _

/-- Where only one name can give an element, the list is that element, if it is there. -/
lemma filterMap_single {α β : Type} {f : α → Option β} {xs : List α} {x : α} {y : β}
    (hnodup : xs.Nodup) (hx : x ∈ xs) (hy : f x = some y) (hother : ∀ z ∈ xs, z ≠ x → f z = none) :
    xs.filterMap f = [y] := by
  induction xs with
  | nil => simp at hx
  | cons z xs ih =>
      obtain ⟨hnot, hnodup⟩ := List.nodup_cons.mp hnodup
      have hrest : ∀ z' ∈ xs, z' ≠ x → f z' = none :=
        fun z' hz' => hother z' (List.mem_cons_of_mem _ hz')
      rcases List.mem_cons.mp hx with rfl | hmem
      · have hnil : xs.filterMap f = [] := by
          rw [List.filterMap_eq_nil_iff]
          intro z' hz'
          apply hrest z' hz'
          rintro rfl
          exact hnot hz'
        rw [List.filterMap_cons_some hy, hnil]
      · have hz : z ≠ x := by
          rintro rfl
          exact hnot hmem
        rw [List.filterMap_cons_none (hother z List.mem_cons_self hz)]
        exact ih hnodup hmem hrest

/-- The status that the file name gives the phase. -/
def statusFor (p name : String) : Option Summary.PhaseStatus :=
  (terminalName name).bind fun x => if x.1 = p then some x.2 else none

lemma listed_perm (h : fileAt t (markersDir runDir) = none) :
    (listed t runDir p).Perm ((readDir t (markersDir runDir)).filterMap (statusFor p)) := by
  have hperm := ((collectPhases_perm h).filter (·.phase = p)).map PhaseSummary.status
  have heq : (((readDir t (markersDir runDir)).filterMap
      (phaseSummary t (markersDir runDir))).filter (·.phase = p)).map PhaseSummary.status =
      (readDir t (markersDir runDir)).filterMap (statusFor p) := by
    rw [List.filter_filterMap, List.map_filterMap]
    apply List.filterMap_congr
    intro name _
    unfold phaseSummary statusFor
    cases terminalName name with
    | none => rfl
    | some x =>
        by_cases hx : x.1 = p
        · simp [hx]
        · simp [hx]
  exact heq ▸ hperm

lemma statusFor_of_marker (hreserved : Reserved runDir phases) (hw : Written runDir phases t)
    {name : String} {s : Summary.PhaseStatus} (hname : name ∈ readDir t (markersDir runDir))
    (h : statusFor p name = some s) :
    name = p ++ ".completed" ∧ s = .completed ∨ name = p ++ ".failed" ∧ s = .failed := by
  obtain ⟨m, rfl, ⟨cfg, hmem, hphase⟩, _⟩ := hw.marker hname
  have hplain : PlainName m.phase := hphase ▸ (hreserved.phase_name cfg hmem).1
  obtain ⟨x, hx, hs⟩ := Option.bind_eq_some_iff.mp h
  by_cases hp : x.1 = p
  · rw [if_pos hp] at hs
    have hterminal : terminalName m.fileName = some (p, s) := by
      rw [hx, ← hp, ← Option.some.inj hs]
    exact (terminalName_fileName hplain hterminal).2
  · rw [if_neg hp] at hs
    cases hs

lemma not_failed_completed (p : String) : endsWith (p ++ ".completed") ".failed" = false := by
  by_contra h
  rw [Bool.not_eq_false] at h
  have hends := endsWith_suffix h (endsWith_append p ".completed") (by decide)
  exact absurd hends (by decide)

lemma fileName_completed (h : m.fileName = p ++ ".completed") :
    ∃ c, m = .completed c ∧ c.phase = p := by
  have hends : endsWith m.fileName ".completed" = true := h ▸ endsWith_append p ".completed"
  cases m with
  | started c =>
      have hnot := not_completed_started c.phase c.attempt
      rw [Marker.fileName, hnot] at hends
      cases hends
  | completed c => exact ⟨c, rfl, by simpa [Marker.fileName] using h⟩
  | failed c =>
      have hnot := not_completed_failed c.phase
      rw [Marker.fileName, hnot] at hends
      cases hends

lemma fileName_failed (h : m.fileName = p ++ ".failed") : ∃ c, m = .failed c ∧ c.phase = p := by
  have hends : endsWith m.fileName ".failed" = true := h ▸ endsWith_append p ".failed"
  cases m with
  | started c =>
      have hnot : endsWith (c.phase ++ ".started." ++ c.attempt.repr) ".failed" = false :=
        not_endsWith_started (c := 'd') (by decide) (by decide) c.phase c.attempt
      rw [Marker.fileName, hnot] at hends
      cases hends
  | completed c =>
      have hnot := not_failed_completed c.phase
      rw [Marker.fileName, hnot] at hends
      cases hends
  | failed c => exact ⟨c, rfl, by simpa [Marker.fileName] using h⟩

lemma holds_iff (hw : Written runDir phases t) {name : String} :
    Holds t runDir name ↔ name ∈ readDir t (markersDir runDir) := by
  constructor
  · intro h
    obtain ⟨b, hb⟩ := Option.isSome_iff_exists.mp h
    exact mem_readDir_of_fileAt hb
  · intro h
    obtain ⟨m, _, _, hfile⟩ := hw.marker h
    exact Option.isSome_iff_exists.mpr ⟨m.bytes, hfile⟩

/-- A completed marker is read as one by both. -/
lemma completed_read (hreserved : Reserved runDir phases) (hw : Written runDir phases t)
    (h : Holds t runDir (p ++ ".completed")) :
    statusFor p (p ++ ".completed") = some .completed ∧
      (scanOf t (markersDir runDir)).phaseStatus.lookup p = some .completed := by
  obtain ⟨m, hm, ⟨cfg, hmem, hphase⟩, hfile⟩ := hw.marker ((holds_iff hw).mp h)
  obtain ⟨c, rfl, rfl⟩ := fileName_completed hm
  have hplain : PlainName c.phase := by
    rw [show c.phase = cfg.phase from hphase]
    exact (hreserved.phase_name cfg hmem).1
  have hread : terminalName (c.phase ++ ".completed") = some (c.phase, .completed) :=
    hplain.identified.completed
  have hcompleted : CompletedOnDisk t (markersDir runDir) c.phase :=
    ⟨_, _, hfile, RunFormat.readCompleted_ofCompleted c⟩
  exact ⟨by simp [statusFor, hread], hcompleted.status⟩

lemma failed_read (hreserved : Reserved runDir phases) (hw : Written runDir phases t)
    (h : Holds t runDir (p ++ ".failed")) (hnot : ¬ Holds t runDir (p ++ ".completed")) :
    statusFor p (p ++ ".failed") = some .failed ∧
      (scanOf t (markersDir runDir)).phaseStatus.lookup p = some .failed := by
  obtain ⟨m, hm, ⟨cfg, hmem, hphase⟩, _⟩ := hw.marker ((holds_iff hw).mp h)
  obtain ⟨c, rfl, rfl⟩ := fileName_failed hm
  have hplain : PlainName c.phase := by
    rw [show c.phase = cfg.phase from hphase]
    exact (hreserved.phase_name cfg hmem).1
  have hread : terminalName (c.phase ++ ".failed") = some (c.phase, .failed) :=
    hplain.identified.failed
  have hnone : fileAt t (markersDir runDir ++ [c.phase ++ ".completed"]) = none := by
    simpa [Holds] using hnot
  exact ⟨by simp [statusFor, hread], scanOf_failed h hnone⟩

lemma statusOf_eq_failed {name : String} {dir : Path}
    (h : statusOf t dir name = some (p, .failed)) :
    name = p ++ ".failed" ∧ (fileAt t (dir ++ [name])).isSome := by
  have hphase := statusOf_phase h
  unfold statusOf at h
  obtain ⟨bytes, hfile, h⟩ := Option.bind_eq_some_iff.mp h
  split at h
  · obtain ⟨_, _, heq⟩ := Option.map_eq_some_iff.mp h
    cases heq
  split at h
  · next hends =>
    obtain ⟨q, rfl⟩ := endsWith_iff.mp hends
    rw [markerPhase_failed] at hphase
    rw [hphase] at hfile ⊢
    exact ⟨rfl, by rw [hfile]; rfl⟩
  split at h
  · cases h
  · cases h

/-- The summary shows a phase as the run state has it, unless the phase has two ends. -/
lemma listed_eq_reported (hreserved : Reserved runDir phases) (hw : Written runDir phases t)
    (hone : ¬ BothEnds t runDir p) :
    listed t runDir p = reported ((scanOf t (markersDir runDir)).phaseStatus.lookup p) := by
  have hperm := listed_perm (p := p) hw.directory
  have hend : ∀ name ∈ readDir t (markersDir runDir), ∀ s, statusFor p name = some s →
      name = p ++ ".completed" ∧ s = .completed ∨ name = p ++ ".failed" ∧ s = .failed :=
    fun name hname s hs => statusFor_of_marker hreserved hw hname hs
  by_cases hcompleted : Holds t runDir (p ++ ".completed")
  · obtain ⟨hstatus, hlookup⟩ := completed_read hreserved hw hcompleted
    have hlist : (readDir t (markersDir runDir)).filterMap (statusFor p) = [.completed] := by
      refine filterMap_single nodup_readDir ((holds_iff hw).mp hcompleted) hstatus ?_
      intro name hname hne
      rw [Option.eq_none_iff_forall_ne_some]
      intro s hs
      rcases hend name hname s hs with ⟨heq, _⟩ | ⟨rfl, _⟩
      · exact hne heq
      · exact hone ⟨hcompleted, (holds_iff hw).mpr hname⟩
    rw [hlist] at hperm
    rw [hlookup, List.perm_singleton.mp hperm]
    rfl
  · by_cases hfailed : Holds t runDir (p ++ ".failed")
    · obtain ⟨hstatus, hlookup⟩ := failed_read hreserved hw hfailed hcompleted
      have hlist : (readDir t (markersDir runDir)).filterMap (statusFor p) = [.failed] := by
        refine filterMap_single nodup_readDir ((holds_iff hw).mp hfailed) hstatus ?_
        intro name hname hne
        rw [Option.eq_none_iff_forall_ne_some]
        intro s hs
        rcases hend name hname s hs with ⟨rfl, _⟩ | ⟨heq, _⟩
        · exact hcompleted ((holds_iff hw).mpr hname)
        · exact hne heq
      rw [hlist] at hperm
      rw [hlookup, List.perm_singleton.mp hperm]
      rfl
    · have hlist : (readDir t (markersDir runDir)).filterMap (statusFor p) = [] := by
        rw [List.filterMap_eq_nil_iff]
        intro name hname
        rw [Option.eq_none_iff_forall_ne_some]
        intro s hs
        rcases hend name hname s hs with ⟨rfl, _⟩ | ⟨rfl, _⟩
        · exact hcompleted ((holds_iff hw).mpr hname)
        · exact hfailed ((holds_iff hw).mpr hname)
      rw [hlist] at hperm
      rw [hperm.eq_nil]
      cases hlookup : (scanOf t (markersDir runDir)).phaseStatus.lookup p with
      | none => rfl
      | some s =>
          obtain ⟨⟨name, hname⟩, _⟩ := scanOf_status_eq_some hlookup
          cases s with
          | none => rfl
          | started => rfl
          | failed =>
              obtain ⟨rfl, hfile⟩ := statusOf_eq_failed hname
              exact absurd hfile hfailed
          | completed =>
              obtain ⟨rfl, hfile⟩ := statusOf_completed hname
              exact absurd hfile hcompleted

lemma mem_listed {s : PhaseSummary} (h : s ∈ collectPhases t runDir) :
    s.status ∈ listed t runDir s.phase :=
  List.mem_map_of_mem (List.mem_filter.mpr ⟨h, by simp⟩)

lemma exists_of_listed {s : Summary.PhaseStatus} (h : s ∈ listed t runDir p) :
    ∃ x ∈ collectPhases t runDir, x.status = s := by
  obtain ⟨x, hx, rfl⟩ := List.mem_map.mp h
  exact ⟨x, (List.mem_filter.mp hx).1, rfl⟩

lemma computeRunStatus_success {xs : List PhaseSummary} :
    computeRunStatus xs = .success ↔ xs ≠ [] ∧ ∀ x ∈ xs, x.status = .completed := by
  unfold computeRunStatus
  by_cases hempty : xs = []
  · simp [hempty]
  · by_cases hall : ∀ x ∈ xs, x.status = .completed
    · rw [if_neg hempty, if_pos hall]
      exact ⟨fun _ => ⟨hempty, hall⟩, fun _ => rfl⟩
    · rw [if_neg hempty, if_neg hall]
      split
      · simp [hall]
      · simp [hall]

end Agreement

section Histories

open ResumeDecision CompletedRuns

/-- A history in which the second of two phases is stopped after its started marker. -/
def reviewStarted : World Doc :=
  (evalFor (handle ⟨fun _ => .ok "two", fun _ => .ok .pass⟩) 2
    (PhaseRunner.run plainEngines reviewPhase (askInputs "review") 0) afterDesign).2.2

/-- A history in which a phase fails and is then resumed with success. -/
def designFailed : World Doc :=
  (eval (handle ⟨fun _ => .error (.network "down"), fun _ => .ok .pass⟩)
    (PhaseRunner.run plainEngines designPhase designInputs 0) newRun).2.2

def designResumed : World Doc :=
  (eval (handle ⟨fun _ => .ok "one", fun _ => .ok .pass⟩)
    (executeAction plainEngines designPhase designInputs "lock" (.resume 1)) designFailed).2.2

lemma newRun_created (phases : List PhaseConfig) : Reached perform ["run"] phases newRun :=
  .created (show createRunDir Disk.empty ["run"] "r1" "design" = some newRun.disk from rfl)

lemma reserved_two : Reserved ["run"] [designPhase, reviewPhase] := by
  refine ⟨fun cfg hmem => ?_, by decide, fun cfg hmem name => ?_⟩
  · simp only [List.mem_cons, List.not_mem_nil, or_false] at hmem
    rcases hmem with rfl | rfl
    · exact ⟨plainName_design, by decide, by decide⟩
    · exact ⟨⟨by decide, by decide, by decide, by decide⟩, by decide, by decide⟩
  · simp only [List.mem_cons, List.not_mem_nil, or_false] at hmem
    have hparent : parentOf ["run"] cfg.artefactName = ["run"] := by
      rcases hmem with rfl | rfl
      · decide
      · decide
    rw [hparent]
    simp [markersDir]

lemma afterDesign_reached : Reached perform ["run"] [designPhase, reviewPhase] afterDesign :=
  .run (newRun_created _) List.mem_cons_self rfl rfl (eval_runs (handle_performs _) _ _)

end Histories

end Loker.SummaryAgreement
