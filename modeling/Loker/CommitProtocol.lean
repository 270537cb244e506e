import Loker.LoadSpec
import Loker.Resume

/-! Crashes and resumes in the commit protocol: what every operation must leave alone so that a
run directory always loads. -/

namespace Loker.CommitProtocol

open FileTree TextOps Programs RunFiles RunLoad LoadSpec RunOps Dispatch Strategies PhaseRunner
  Resume

variable {B : Type} [RunFormat B] {runDir : Path} {names : String → Prop} {t t' : Disk B}
  {w w' : World B}

section Frame

/-- A run directory that loads, with every phase completed whose completed marker was written;
its manifest lists only files with the given names. -/
structure Safe (runDir : Path) (names : String → Prop) (w : World B) : Prop where
  consistent : ∃ m, Consistent w.disk runDir m
  listed : ∀ m, manifestAt w.disk runDir = some m → ∀ e ∈ m.entries, names e.name
  agree : ∀ name bytes, endsWith name ".completed" = true →
    fileAt w.disk (markersDir runDir ++ [name]) = some bytes →
    RunFormat.readCompletedHash bytes =
      (RunFormat.readCompleted bytes).map CompletedFields.manifestEntrySha256
  done : ∀ m, .completed m ∈ w.log → CompletedOnDisk w.disk (markersDir runDir) m.phase

/-- `t'` is as `t` wherever loading looks, and still has the files of the kept entries. -/
structure Frame (runDir : Path) (t t' : Disk B) : Prop where
  manifest : fileAt t' (manifestPath runDir) = fileAt t (manifestPath runDir)
  markers : fileAt t' (markersDir runDir) = none
  completed : ∀ name, endsWith name ".completed" = true →
    fileAt t' (markersDir runDir ++ [name]) = fileAt t (markersDir runDir ++ [name])
  heartbeat : ∃ heartbeat, readHeartbeat t' runDir = .ok heartbeat
  recorded : ∀ m, manifestAt t runDir = some m → ∀ e ∈ m.entries, SweepKeeps t runDir e →
    Recorded t' runDir e

lemma manifestAt_congr
    (h : fileAt t' (manifestPath runDir) = fileAt t (manifestPath runDir)) :
    manifestAt t' runDir = manifestAt t runDir := by
  simp only [manifestAt, h]

lemma hashOf_congr {dir : Path} {name : String}
    (h : endsWith name ".completed" = true → fileAt t' (dir ++ [name]) = fileAt t (dir ++ [name])) :
    hashOf t' dir name = hashOf t dir name := by
  unfold hashOf
  by_cases hc : endsWith name ".completed" = true
  · rw [h hc]
  · cases fileAt t (dir ++ [name]) <;> cases fileAt t' (dir ++ [name]) <;> simp [hc]

lemma Safe.mono {names' : String → Prop} (h : Safe runDir names w)
    (hnames : ∀ name, names name → names' name) : Safe runDir names' w :=
  { h with listed := fun m hm e he => hnames _ (h.listed m hm e he) }

lemma manifestAt_written {m : Manifest}
    (h : writeFile t (manifestPath runDir) (RunFormat.ofManifest m) = some t') :
    manifestAt t' runDir = some m := by
  rw [manifestAt, writeFile_self h, Option.bind_some, RunFormat.readManifest_ofManifest]

lemma Frame.mentioned (h : Frame runDir t t') (hash : String) :
    Mentioned t' (markersDir runDir) hash ↔ Mentioned t (markersDir runDir) hash := by
  unfold Mentioned
  exact exists_congr fun name => by rw [hashOf_congr (h.completed name)]

lemma Frame.sweepKeeps (h : Frame runDir t t') (e : ManifestEntry) :
    SweepKeeps t' runDir e ↔ SweepKeeps t runDir e := by
  simp only [SweepKeeps, h.mentioned]

lemma Frame.consistent (h : Frame runDir t t') {m : Manifest} (hm : Consistent t runDir m) :
    Consistent t' runDir m where
  manifest := by rw [manifestAt_congr h.manifest, hm.manifest]
  version := hm.version
  entry_version := hm.entry_version
  file_kind := hm.file_kind
  markers := h.markers
  heartbeat := h.heartbeat
  kept e he hkeeps := h.recorded m hm.manifest e he ((h.sweepKeeps e).mp hkeeps)

lemma endsWith_completed (phase : String) : endsWith (phase ++ ".completed") ".completed" = true :=
  endsWith_append phase ".completed"

/-- A framed operation that writes no completed marker keeps the run directory safe. -/
lemma Frame.safe {log : List Marker} (h : Frame runDir w.disk t') (hw : Safe runDir names w)
    (hlog : ∀ m, .completed m ∈ log → .completed m ∈ w.log) : Safe runDir names ⟨t', log⟩ where
  consistent := by
    obtain ⟨m, hm⟩ := hw.consistent
    exact ⟨m, h.consistent hm⟩
  listed m hm := hw.listed m (by rw [← manifestAt_congr h.manifest, hm])
  agree name bytes hname hbytes := hw.agree name bytes hname (by rw [← h.completed name hname, hbytes])
  done m hm := by
    obtain ⟨bytes, fields, hfile, hread⟩ := hw.done m (hlog m hm)
    exact ⟨bytes, fields, by rw [h.completed _ (endsWith_completed m.phase), hfile], hread⟩

end Frame

section Guard

/-- Writing these bytes at the path leaves loading alone: it is none of the files of the
protocol, and a kept manifest entry may have its file there only with the same digest. -/
structure FileSafe (runDir : Path) (t : Disk B) (p : Path) (b : B) : Prop where
  not_manifest : p ≠ manifestPath runDir
  not_markers : p ≠ markersDir runDir
  not_completed : ∀ name, endsWith name ".completed" = true → p ≠ markersDir runDir ++ [name]
  heartbeat : p = heartbeatPath runDir → (RunFormat.readHeartbeat b).isSome
  kept : ∀ m, manifestAt t runDir = some m → ∀ e ∈ m.entries, SweepKeeps t runDir e →
    join runDir e.name = p → RunFormat.sha256Hex b = e.sha256

/-- Moving the subtree at `src` to `dst` takes none of those files away. -/
structure RenameSafe (runDir : Path) (t : Disk B) (src dst : Path) : Prop where
  manifest : ¬ src <+: manifestPath runDir ∧ ¬ dst <+: manifestPath runDir
  markers : ∀ name, ¬ src <+: markersDir runDir ++ [name] ∧ ¬ dst <+: markersDir runDir ++ [name]
  heartbeat : ¬ src <+: heartbeatPath runDir ∧ ¬ dst <+: heartbeatPath runDir
  kept : ∀ m, manifestAt t runDir = some m → ∀ e ∈ m.entries, SweepKeeps t runDir e →
    ¬ src <+: join runDir e.name

/-- A completed marker goes to the markers directory and not over the file of a manifest entry
that stays or becomes kept. -/
structure CompletedSafe (runDir : Path) (t : Disk B) (marker : CompletedMarker) : Prop where
  no_slash : '/' ∉ marker.phase.toList
  kept : ∀ m, manifestAt t runDir = some m → ∀ e ∈ m.entries,
    SweepKeeps t runDir e ∨ e.sha256 = marker.manifestEntrySha256 →
    join runDir e.name ≠ markersDir runDir ++ [marker.phase ++ ".completed"]

/-- The condition on an operation and the state before it: it writes and moves no file that the
protocol or a kept manifest entry has, unless with the entry's own bytes. -/
def Harmless (runDir : Path) : Op B → World B → Prop
  | .createDirAll p, _ => ¬ heartbeatPath runDir <+: p
  | .writeFile p b, w => FileSafe runDir w.disk p b
  | .rename src dst, w => RenameSafe runDir w.disk src dst
  | .writeMarker dir (.completed m), w => dir = runDir ∧ CompletedSafe runDir w.disk m
  | .writeMarker dir m, w => FileSafe runDir w.disk (markerPath dir m) m.bytes
  | .writeManifest dir _, w => dir = runDir ∧ ∀ m, manifestAt w.disk runDir = some m →
      ∀ e ∈ m.entries, SweepKeeps w.disk runDir e → join runDir e.name ≠ manifestPath runDir
  | _, _ => True

end Guard

section Steps

lemma readHeartbeat_congr (h : t'.node (heartbeatPath runDir) = t.node (heartbeatPath runDir)) :
    readHeartbeat t' runDir = readHeartbeat t runDir := by
  have hoccupied : occupied t' (heartbeatPath runDir) = occupied t (heartbeatPath runDir) := by
    simp only [occupied, h]
  unfold readHeartbeat
  rw [hoccupied, fileAt_congr h]

lemma recorded_congr {e : ManifestEntry} (h : Recorded t runDir e)
    (hfile : fileAt t' (join runDir e.name) = fileAt t (join runDir e.name)) :
    Recorded t' runDir e := by
  obtain ⟨bytes, hbytes, hsha⟩ := h
  exact ⟨bytes, hfile.trans hbytes, hsha⟩

lemma frame_createDirAll {m : Manifest} {p : Path} (hm : Consistent t runDir m)
    (hguard : ¬ heartbeatPath runDir <+: p) (h : createDirAll t p = some t') :
    Frame runDir t t' := by
  have hfiles := createDirAll_fileAt h
  have hheartbeat := createDirAll_node h (heartbeatPath runDir)
  rw [if_neg hguard] at hheartbeat
  refine ⟨by rw [hfiles], by rw [hfiles, hm.markers], fun name _ => by rw [hfiles], ?_, ?_⟩
  · rw [readHeartbeat_congr hheartbeat]
    exact hm.heartbeat
  · intro m' hm' e he hkeeps
    obtain rfl := Option.some.inj (hm.manifest.symm.trans hm')
    exact recorded_congr (hm.kept e he hkeeps) (by rw [hfiles])

lemma readHeartbeat_file {b : B} (hb : fileAt t (heartbeatPath runDir) = some b)
    (hread : (RunFormat.readHeartbeat b).isSome) :
    ∃ heartbeat, readHeartbeat t runDir = .ok heartbeat := by
  obtain ⟨heartbeat, hheartbeat⟩ := Option.isSome_iff_exists.mp hread
  refine ⟨some heartbeat, ?_⟩
  simp [readHeartbeat, occupied, fileAt_eq_some.mp hb, hb, hheartbeat]

lemma frame_writeFile {m : Manifest} {p : Path} {b : B} (hm : Consistent t runDir m)
    (hguard : FileSafe runDir t p b) (h : writeFile t p b = some t') : Frame runDir t t' := by
  have hother : ∀ q, q ≠ p → fileAt t' q = fileAt t q := fun _ => writeFile_other h
  refine ⟨hother _ hguard.not_manifest.symm, ?_, ?_, ?_, ?_⟩
  · rw [hother _ hguard.not_markers.symm, hm.markers]
  · exact fun name hname => hother _ (hguard.not_completed name hname).symm
  · by_cases hp : p = heartbeatPath runDir
    · exact readHeartbeat_file (hp ▸ writeFile_self h) (hguard.heartbeat hp)
    · have hnode : t'.node (heartbeatPath runDir) = t.node (heartbeatPath runDir) := by
        rw [writeFile_node h, if_neg (Ne.symm hp)]
      rw [readHeartbeat_congr hnode]
      exact hm.heartbeat
  · intro m' hm' e he hkeeps
    by_cases hp : join runDir e.name = p
    · exact ⟨b, by rw [hp, writeFile_self h], hguard.kept m' hm' e he hkeeps hp⟩
    · obtain rfl := Option.some.inj (hm.manifest.symm.trans hm')
      exact recorded_congr (hm.kept e he hkeeps) (hother _ hp)

omit [RunFormat B] in
lemma not_dst_of_file {src dst p : Path} {b : B} (h : rename t src dst = some t')
    (hb : fileAt t p = some b) : ¬ dst <+: p := by
  obtain ⟨hmovable, _⟩ := rename_eq_some.mp h
  intro hdst
  have hfree := hmovable.target_free
  have hnone : t.node dst = none := by simpa [occupied] using hfree
  have hp := node_below_none hdst hnone
  rw [fileAt_eq_some.mp hb] at hp
  cases hp

lemma frame_rename {m : Manifest} {src dst : Path} (hm : Consistent t runDir m)
    (hguard : RenameSafe runDir t src dst) (h : rename t src dst = some t') :
    Frame runDir t t' := by
  have hother : ∀ q, ¬ src <+: q → ¬ dst <+: q → t'.node q = t.node q :=
    fun q hsrc hdst => rename_node h hsrc hdst
  refine ⟨fileAt_congr (hother _ hguard.manifest.1 hguard.manifest.2), ?_, ?_, ?_, ?_⟩
  · have hpre := List.prefix_append (markersDir runDir) [""]
    have hmarkers := hguard.markers ""
    rw [fileAt_congr (hother _ (fun hs => hmarkers.1 (hs.trans hpre))
      fun hd => hmarkers.2 (hd.trans hpre)), hm.markers]
  · exact fun name _ => fileAt_congr (hother _ (hguard.markers name).1 (hguard.markers name).2)
  · rw [readHeartbeat_congr (hother _ hguard.heartbeat.1 hguard.heartbeat.2)]
    exact hm.heartbeat
  · intro m' hm' e he hkeeps
    have hsrc := hguard.kept m' hm' e he hkeeps
    obtain rfl := Option.some.inj (hm.manifest.symm.trans hm')
    have hrecorded := hm.kept e he hkeeps
    obtain ⟨bytes, hbytes, _⟩ := id hrecorded
    exact recorded_congr hrecorded (fileAt_congr (hother _ hsrc (not_dst_of_file h hbytes)))

/-- These operations commit a phase; they are safe only in their place. -/
def Committing : Op B → Prop
  | .writeManifest _ _ => True
  | .writeMarker _ (.completed _) => True
  | _ => False

lemma Frame.rfl {m : Manifest} (hm : Consistent t runDir m) : Frame runDir t t where
  manifest := Eq.refl _
  markers := hm.markers
  completed _ _ := Eq.refl _
  heartbeat := hm.heartbeat
  recorded m' hm' e he hkeeps := by
    obtain rfl := Option.some.inj (hm.manifest.symm.trans hm')
    exact hm.kept e he hkeeps

lemma Changed.frame {next : Option (Disk B)} {log : List Marker} {a : Except String Unit}
    {m : Manifest} (h : Changed next log w a w') (hm : Consistent w.disk runDir m)
    (hlog : ∀ m, .completed m ∈ log → .completed m ∈ w.log)
    (hframe : ∀ t', next = some t' → Frame runDir w.disk t') :
    Frame runDir w.disk w'.disk ∧ ∀ m, .completed m ∈ w'.log → .completed m ∈ w.log := by
  rcases h with ⟨t', hnext, rfl, _⟩ | ⟨rfl, _⟩
  · exact ⟨hframe t' hnext, hlog⟩
  · exact ⟨.rfl hm, fun _ h => h⟩

/-- A harmless operation that commits nothing is framed and logs no completed marker. -/
lemma frame_step {o : Op B} {a : Answer B o} {m : Manifest} (ho : ¬ Committing o)
    (hguard : Harmless runDir o w) (hm : Consistent w.disk runDir m) (h : perform o w a w') :
    Frame runDir w.disk w'.disk ∧ ∀ m, .completed m ∈ w'.log → .completed m ∈ w.log := by
  have hsame : Frame runDir w.disk w.disk ∧ ∀ m, .completed m ∈ w.log → .completed m ∈ w.log :=
    ⟨.rfl hm, fun _ h => h⟩
  cases o with
  | createDirAll p => exact Changed.frame h hm hsame.2 fun t' ht' => frame_createDirAll hm hguard ht'
  | writeFile p b => exact Changed.frame h hm hsame.2 fun t' ht' => frame_writeFile hm hguard ht'
  | rename src dst => exact Changed.frame h hm hsame.2 fun t' ht' => frame_rename hm hguard ht'
  | writeManifest dir m' => exact absurd trivial ho
  | writeMarker dir marker =>
      cases marker with
      | completed c => exact absurd trivial ho
      | started c =>
          exact Changed.frame h hm (by simp) fun t' ht' => frame_writeFile hm hguard ht'
      | failed c =>
          exact Changed.frame h hm (by simp) fun t' ht' => frame_writeFile hm hguard ht'
  | readFile p => exact h.1 ▸ hsame
  | isFile p => exact h.1 ▸ hsame
  | isDir p => exact h.1 ▸ hsame
  | occupied p => exact h.1 ▸ hsame
  | loadManifest dir => exact h.1 ▸ hsame
  | query q =>
      obtain rfl : w' = w := h
      exact hsame
  | race pending => exact h.1 ▸ hsame
  | verify text =>
      obtain rfl : w' = w := h
      exact hsame
  | lockBusy p =>
      obtain rfl : w' = w := h
      exact hsame

lemma safe_step {o : Op B} {a : Answer B o} (ho : ¬ Committing o) (hguard : Harmless runDir o w)
    (hw : Safe runDir names w) (h : perform o w a w') : Safe runDir names w' := by
  obtain ⟨m, hm⟩ := hw.consistent
  obtain ⟨hframe, hlog⟩ := frame_step ho hguard hm h
  exact hframe.safe hw hlog

end Steps

section Commit

/-- A run directory in which every manifest entry is recorded, whatever the sweep would keep. -/
structure AllRecorded (runDir : Path) (names : String → Prop) (w : World B) : Prop where
  safe : Safe runDir names w
  recorded : ∀ m, manifestAt w.disk runDir = some m → ∀ e ∈ m.entries, Recorded w.disk runDir e

/-- The harmless operations. -/
abbrev admitted (runDir : Path) : Semantics (RunSig B) (World B) :=
  guarded (Harmless runDir) perform

lemma emits_safe {ε ρ : Type} {p : Run B ε ρ} (hp : Emits (fun o => ¬ Committing o) p)
    (hw : Safe runDir names w) : Secures (admitted runDir) (Safe runDir names) (fun _ => Safe runDir names) p w :=
  hp.secures (fun _ _ _ _ ho hI _ hact => ⟨safe_step ho hact.1 hI hact.2,
    safe_step ho hact.1 hI hact.2⟩) hw hw

lemma not_mentioned_of_absent {dir : Path} {hash : String} (h : isDir t dir = false) :
    ¬ Mentioned t dir hash := by
  rintro ⟨name, hname⟩
  obtain ⟨bytes, _, hfile, _⟩ := fileAt_of_hashOf hname
  have hparent := t.node_parent (p := dir) (s := name) (by simp [fileAt_eq_some.mp hfile])
  rw [isDir_iff.mpr hparent] at h
  cases h

lemma mem_referencedHashes {hash : String} (hw : Safe runDir names w)
    (h : hash ∈ referencedHashes w.disk (markersDir runDir)) :
    Mentioned w.disk (markersDir runDir) hash := by
  obtain ⟨name, _, hhash⟩ := List.mem_filterMap.mp h
  by_cases hc : endsWith name ".completed" = true
  · rw [if_pos hc] at hhash
    obtain ⟨bytes, hfile, hread⟩ := Option.bind_eq_some_iff.mp hhash
    refine ⟨name, ?_⟩
    rw [hw.agree name bytes hc hfile] at hread
    simp [hashOf, hfile, hc, hread]
  · rw [if_neg hc] at hhash
    cases hhash

/-- What a run loads back of the manifest are entries that the sweep keeps. -/
lemma manifestLoad_eq_ok {m m' : Manifest} (hw : Safe runDir names w)
    (hm : manifestAt w.disk runDir = some m) (h : manifestLoad w.disk runDir = .ok m') :
    m'.schemaVersion = 1 ∧ ∀ e ∈ m'.entries, e ∈ m.entries ∧ SweepKeeps w.disk runDir e := by
  obtain ⟨bytes, hfile, hread⟩ := Option.bind_eq_some_iff.mp hm
  simp only [manifestLoad, hfile, hread] at h
  split at h
  · cases h
  next hversion =>
  split at h
  · cases h
  cases h
  refine ⟨not_not.mp hversion, fun e he => ?_⟩
  dsimp only at he
  split at he
  · obtain ⟨hmem, hhash⟩ := List.mem_filter.mp he
    exact ⟨hmem, fun _ => mem_referencedHashes hw (of_decide_eq_true hhash)⟩
  · next hdir =>
    have habsent := Bool.eq_false_of_not_eq_true hdir
    exact ⟨he, fun ⟨_, hmentioned⟩ => absurd hmentioned (not_mentioned_of_absent habsent)⟩

/-- A manifest made of entries that the sweep keeps, as a run carries it to its next append. -/
structure Carried (runDir : Path) (w : World B) (carried : Manifest) : Prop where
  version : carried.schemaVersion = 1
  entry_version : ∀ e ∈ carried.entries, e.schemaVersion = 1
  file_kind : ∀ e ∈ carried.entries, e.kind ≠ .changesDir
  kept : ∀ e ∈ carried.entries, ∃ m, manifestAt w.disk runDir = some m ∧ e ∈ m.entries ∧
    SweepKeeps w.disk runDir e

lemma Carried.recorded {carried : Manifest} (h : Carried runDir w carried) (hw : Safe runDir names w) :
    ∀ e ∈ carried.entries, Recorded w.disk runDir e := by
  intro e he
  obtain ⟨m, hm, hmem, hkeeps⟩ := h.kept e he
  obtain ⟨m', hm'⟩ := hw.consistent
  obtain rfl := Option.some.inj (hm'.manifest.symm.trans hm)
  exact hm'.kept e hmem hkeeps

lemma carried_of_load {m' : Manifest} (hw : Safe runDir names w)
    (h : manifestLoad w.disk runDir = .ok m') : Carried runDir w m' := by
  obtain ⟨m, hm⟩ := hw.consistent
  obtain ⟨hversion, hkept⟩ := manifestLoad_eq_ok hw hm.manifest h
  exact ⟨hversion, fun e he => hm.entry_version e (hkept e he).1,
    fun e he => hm.file_kind e (hkept e he).1, fun e he => ⟨m, hm.manifest, hkept e he⟩⟩

lemma loadOrNew_secures {sem : Semantics (RunSig B) (World B)} {runId : String}
    (hsem : ∀ {o s a s'}, sem o s a s' → perform o s a s') (hw : Safe runDir names w) :
    Secures sem (Safe runDir names) (fun carried w' => w' = w ∧ Carried runDir w carried)
      (loadOrNew runDir runId) w := by
  refine Secures.bind (Secures.op fun there w' hact => ?_)
  obtain ⟨rfl, rfl⟩ := hsem hact
  refine ⟨hw, ?_⟩
  split
  · refine Secures.bind (Secures.op fun answer w'' hact' => ?_)
    obtain ⟨rfl, hload⟩ := hsem hact'
    refine ⟨hw, ?_⟩
    cases answer with
    | error e => exact Secures.throw hw
    | ok carried => exact Secures.pure hw ⟨rfl, carried_of_load hw (hload carried rfl)⟩
  · exact Secures.pure hw ⟨rfl, rfl, nofun, nofun, nofun⟩

omit [RunFormat B] in
lemma orThrow_secures {I : World B → Prop} {post : Unit → World B → Prop}
    {sem : Semantics (RunSig B) (World B)} {ε : Type} {wrap : String → ε}
    {answer : Except String Unit} (hI : I w) (hpost : answer = .ok () → post () w) :
    Secures sem I post (orThrow wrap answer) w := by
  cases answer with
  | ok u => exact Secures.pure hI (hpost rfl)
  | error e => exact Secures.throw hI

/-- The new manifest holds what was carried and one entry more, all of them on disk. -/
lemma append_step {names' : String → Prop} {carried : Manifest} {entry : ManifestEntry}
    {a : Except String Unit} (hw : Safe runDir names w) (hnames : ∀ name, names name → names' name)
    (hname : names' entry.name) (hcarried : Carried runDir w carried)
    (hrecorded : Recorded w.disk runDir entry) (hversion : entry.schemaVersion = 1)
    (hkind : entry.kind ≠ .changesDir) (hpath : join runDir entry.name ≠ manifestPath runDir)
    (hguard : ∀ m, manifestAt w.disk runDir = some m → ∀ e ∈ m.entries,
      SweepKeeps w.disk runDir e → join runDir e.name ≠ manifestPath runDir)
    (h : perform (.writeManifest runDir { carried with entries := carried.entries ++ [entry] })
      w a w') :
    (a = .ok () ∧ w'.log = w.log ∧ AllRecorded runDir names' w') ∨ w' = w ∧ a ≠ .ok () := by
  rcases h with ⟨t', hwrite, rfl, rfl⟩ | ⟨rfl, message, rfl⟩
  · obtain ⟨m, hm⟩ := hw.consistent
    have hother : ∀ q, q ≠ manifestPath runDir → fileAt t' q = fileAt w.disk q :=
      fun _ => writeFile_other hwrite
    have hmanifest : manifestAt t' runDir =
        some { carried with entries := carried.entries ++ [entry] } := manifestAt_written hwrite
    have hall : ∀ e ∈ carried.entries ++ [entry], Recorded t' runDir e := by
      intro e he
      rcases List.mem_append.mp he with hmem | hmem
      · obtain ⟨m', hm', he', hkeeps⟩ := hcarried.kept e hmem
        exact recorded_congr (hcarried.recorded hw e hmem)
          (hother _ (hguard m' hm' e he' hkeeps))
      · obtain rfl := List.mem_singleton.mp hmem
        exact recorded_congr hrecorded (hother _ hpath)
    have hnode : t'.node (heartbeatPath runDir) = w.disk.node (heartbeatPath runDir) := by
      rw [writeFile_node hwrite, if_neg (by simp [heartbeatPath, manifestPath])]
    have hconsistent : Consistent t' runDir
        { carried with entries := carried.entries ++ [entry] } :=
      { manifest := hmanifest
        version := hcarried.version
        entry_version := by
          simpa [or_imp, forall_and, hversion] using hcarried.entry_version
        file_kind := by
          simpa [or_imp, forall_and, hkind] using hcarried.file_kind
        markers := by
          rw [hother _ (by simp [markersDir, manifestPath]), hm.markers]
        heartbeat := by
          rw [readHeartbeat_congr hnode]
          exact hm.heartbeat
        kept := fun e he _ => hall e he }
    have hcompleted : ∀ name, fileAt t' (markersDir runDir ++ [name]) =
        fileAt w.disk (markersDir runDir ++ [name]) :=
      fun name => hother _ (by simp [markersDir, manifestPath])
    have hsafe : Safe runDir names' ⟨t', w.log⟩ :=
      { consistent := ⟨_, hconsistent⟩
        listed := by
          intro m' hm' e he
          obtain rfl := Option.some.inj (hmanifest.symm.trans hm')
          rcases List.mem_append.mp he with hmem | hmem
          · obtain ⟨m, hm, he', _⟩ := hcarried.kept e hmem
            exact hnames _ (hw.listed m hm e he')
          · obtain rfl := List.mem_singleton.mp hmem
            exact hname
        agree := fun name bytes hname hbytes =>
          hw.agree name bytes hname (by rw [← hcompleted name, hbytes])
        done := by
          intro c hc
          obtain ⟨bytes, fields, hfile, hread⟩ := hw.done c hc
          exact ⟨bytes, fields, by rw [hcompleted, hfile], hread⟩ }
    refine Or.inl ⟨rfl, rfl, hsafe, fun m' hm' => ?_⟩
    obtain rfl := Option.some.inj (hmanifest.symm.trans hm')
    exact hall
  · exact Or.inr ⟨rfl, by simp⟩

lemma append_secures {carried : Manifest} {entry : ManifestEntry} (hw : Safe runDir names w)
    (hname : names entry.name) (hcarried : Carried runDir w carried)
    (hrecorded : Recorded w.disk runDir entry) (hversion : entry.schemaVersion = 1)
    (hkind : entry.kind ≠ .changesDir) (hpath : join runDir entry.name ≠ manifestPath runDir) :
    Secures (admitted runDir) (Safe runDir names) (fun _ => AllRecorded runDir names)
      (append runDir carried entry) w := by
  refine Secures.bind (Secures.op fun answer w' hact => ?_)
  rcases append_step hw (fun _ h => h) hname hcarried hrecorded hversion hkind hpath hact.1.2
    hact.2 with ⟨rfl, _, hall⟩ | ⟨rfl, hne⟩
  · exact ⟨hall.safe, Secures.pure hall.safe hall⟩
  · exact ⟨hw, orThrow_secures hw fun hok => absurd hok hne⟩

omit [RunFormat B] in
lemma markerPath_eq {marker : Marker} (h : IsName marker.fileName) :
    markerPath runDir marker = markersDir runDir ++ [marker.fileName] := join_of_isName h

omit [RunFormat B] in
lemma isName_completed {phase : String} (h : '/' ∉ phase.toList) :
    IsName (phase ++ ".completed") := isName_append h (by decide) (by decide)

/-- What is mentioned after a completed marker was mentioned before or is its own digest. -/
lemma mentioned_completed {c : CompletedMarker} {hash : String}
    (hwrite : writeFile t (markersDir runDir ++ [c.phase ++ ".completed"])
      (RunFormat.ofCompleted c) = some t')
    (h : Mentioned t' (markersDir runDir) hash) :
    Mentioned t (markersDir runDir) hash ∨ hash = c.manifestEntrySha256 := by
  obtain ⟨name, hname⟩ := h
  by_cases heq : name = c.phase ++ ".completed"
  · obtain ⟨bytes, fields, hfile, _, hread, rfl⟩ := fileAt_of_hashOf hname
    rw [heq, writeFile_self hwrite] at hfile
    obtain rfl := Option.some.inj hfile
    rw [RunFormat.readCompleted_ofCompleted] at hread
    exact Or.inr (by rw [← Option.some.inj hread])
  · refine Or.inl ⟨name, ?_⟩
    rw [← hname]
    exact (hashOf_congr fun _ => writeFile_other hwrite (by simpa using heq)).symm

/-- Once every entry is recorded, the completed marker may be written. -/
lemma completed_step {c : CompletedMarker} {a : Except String Unit} (hw : AllRecorded runDir names w)
    (hguard : CompletedSafe runDir w.disk c)
    (h : perform (.writeMarker runDir (.completed c)) w a w') : Safe runDir names w' := by
  have hpath : markerPath runDir (.completed c) =
      markersDir runDir ++ [c.phase ++ ".completed"] :=
    markerPath_eq (isName_completed hguard.no_slash)
  rcases h with ⟨t', hwrite, rfl, _⟩ | ⟨rfl, _⟩
  · rw [hpath] at hwrite
    obtain ⟨m, hm⟩ := hw.safe.consistent
    have hother : ∀ q, q ≠ markersDir runDir ++ [c.phase ++ ".completed"] →
        fileAt t' q = fileAt w.disk q := fun _ => writeFile_other hwrite
    have hnew : fileAt t' (markersDir runDir ++ [c.phase ++ ".completed"]) =
        some (RunFormat.ofCompleted c) := writeFile_self hwrite
    have hmanifest : manifestAt t' runDir = manifestAt w.disk runDir :=
      manifestAt_congr (hother _ (by simp [manifestPath, markersDir]))
    have hnode : t'.node (heartbeatPath runDir) = w.disk.node (heartbeatPath runDir) := by
      rw [writeFile_node hwrite, if_neg (by simp [heartbeatPath, markersDir])]
    refine ⟨⟨m, hmanifest.trans hm.manifest, hm.version, hm.entry_version, hm.file_kind, ?_, ?_,
      ?_⟩, fun m' hm' => hw.safe.listed m' (hmanifest.symm.trans hm'), ?_, ?_⟩
    · rw [hother _ (by simp [markersDir]), hm.markers]
    · rw [readHeartbeat_congr hnode]
      exact hm.heartbeat
    · intro e he hkeeps
      have hmention : Mentioned t' (markersDir runDir) e.sha256 := by
        refine hkeeps ⟨c.manifestEntrySha256, c.phase ++ ".completed", ?_⟩
        simp [hashOf, hnew]
      have hstays : SweepKeeps w.disk runDir e ∨ e.sha256 = c.manifestEntrySha256 :=
        (mentioned_completed hwrite hmention).imp_left fun hbefore _ => hbefore
      exact recorded_congr (hw.recorded m hm.manifest e he)
        (hother _ (hguard.kept m hm.manifest e he hstays))
    · intro name bytes hname hbytes
      by_cases heq : name = c.phase ++ ".completed"
      · subst heq
        obtain rfl := Option.some.inj (hnew.symm.trans hbytes)
        rw [RunFormat.readCompletedHash_of_readCompleted (RunFormat.readCompleted_ofCompleted c),
          RunFormat.readCompleted_ofCompleted, Option.map_some]
      · rw [hother _ (by simpa using heq)] at hbytes
        exact hw.safe.agree name bytes hname hbytes
    · intro d hd
      by_cases heq : d.phase = c.phase
      · exact ⟨_, _, by rw [heq, hnew], RunFormat.readCompleted_ofCompleted c⟩
      · have hold : Marker.completed d ∈ w.log := by
          rcases List.mem_cons.mp hd with hsame | hold
          · cases hsame
            exact absurd rfl heq
          · exact hold
        obtain ⟨bytes, fields, hfile, hread⟩ := hw.safe.done d hold
        refine ⟨bytes, fields, ?_, hread⟩
        rw [hother _ (by simpa using heq), hfile]
  · exact hw.safe

end Commit

section Runs

variable {eng : Engines} {cfg : PhaseConfig} {inp : PhaseInputs} {lockBody : String}

/-- A new directory takes no file away. -/
lemma createDir_recorded {p : Path} {a : Except String Unit} (hw : AllRecorded runDir names w)
    (hguard : ¬ heartbeatPath runDir <+: p) (h : perform (.createDirAll p) w a w') :
    AllRecorded runDir names w' := by
  refine ⟨safe_step (o := .createDirAll p) not_false hguard hw.safe h, ?_⟩
  rcases h with ⟨t', hnext, rfl, _⟩ | ⟨rfl, _⟩
  · intro m hm e he
    have hfiles := createDirAll_fileAt hnext
    have hbefore : manifestAt w.disk runDir = some m := by
      rw [← hm, manifestAt_congr (by rw [hfiles])]
    exact recorded_congr (hw.recorded m hbefore e he) (by rw [hfiles])
  · exact hw.recorded

lemma createDir_allRecorded {ε : Type} {wrap : String → ε} {p : Path}
    (hw : AllRecorded runDir names w) :
    Secures (admitted runDir) (Safe runDir names) (fun _ => AllRecorded runDir names)
      (createDirOr wrap p) w := by
  refine Secures.bind (Secures.op fun answer w' hact => ?_)
  have hrecorded := createDir_recorded hw hact.1 hact.2
  exact ⟨hrecorded.safe, orThrow_secures hrecorded.safe fun _ => hrecorded⟩

/-- The artefact is on disk after its write, and it is not the manifest. -/
lemma atomicWrite_secures {base : Path} {name : String} {bytes : B} (hw : Safe runDir names w) :
    Secures (admitted runDir) (Safe runDir names) (fun _ w' => Safe runDir names w' ∧
      fileAt w'.disk (join base name) = some bytes ∧ join base name ≠ manifestPath runDir)
      (atomicWrite base name bytes) w := by
  unfold atomicWrite
  split
  · exact Secures.throw hw
  · refine Secures.bind (Secures.op fun answer w' hact => ?_)
    obtain ⟨hguard, hperform⟩ := hact
    have hsafe : Safe runDir names w' := safe_step (o := .writeFile _ _) not_false hguard hw hperform
    refine ⟨hsafe, orThrow_secures hsafe fun hanswer => ?_⟩
    rcases hperform with ⟨t', hwrite, rfl, _⟩ | ⟨_, message, hfailed⟩
    · exact ⟨hsafe, writeFile_self hwrite, hguard.not_manifest⟩
    · rw [hanswer] at hfailed
      cases hfailed

lemma commitSuccess_secures {bytes : B} {attempt : ℕ} {runId : String}
    (hname : names cfg.artefactName) (hkind : cfg.artefactKind ≠ .changesDir) (hw : Safe runDir names w) :
    Secures (admitted runDir) (Safe runDir names) (fun _ => AllRecorded runDir names)
      (commitSuccess runDir cfg bytes attempt runId) w := by
  refine Secures.bind ((emits_safe (createDirOr_emits not_false) hw).mono ?_)
  intro _ w₁ hw₁ _
  refine Secures.bind ((emits_safe (createDirOr_emits not_false) hw₁).mono ?_)
  intro _ w₂ hw₂ _
  refine Secures.bind ((atomicWrite_secures hw₂).mono ?_)
  rintro _ w₃ hw₃ ⟨-, hfile, hpath⟩
  refine Secures.bind ((loadOrNew_secures (fun h => h.2) hw₃).mono ?_)
  rintro carried w₄ hw₄ ⟨rfl, hcarried⟩
  have hrecorded : Recorded w₄.disk runDir (fromPayload cfg attempt bytes) := ⟨bytes, hfile, rfl⟩
  have happend := append_secures hw₄ hname hcarried hrecorded rfl hkind hpath
  exact Secures.bind (happend.mono fun _ w₅ hw₅ hall => Secures.pure hw₅ hall)

lemma completedMarker_secures {c : CompletedMarker} (hw : AllRecorded runDir names w) :
    Secures (admitted runDir) (Safe runDir names) (fun _ _ => True)
      (writeMarker runDir (.completed c)) w := by
  refine Secures.bind ((createDir_allRecorded hw).mono fun _ w₁ _ hw₁ => ?_)
  refine Secures.bind (Secures.op fun answer w₂ hact => ?_)
  have hsafe := completed_step hw₁ hact.1.2 hact.2
  exact ⟨hsafe, orThrow_secures hsafe fun _ => trivial⟩

lemma commit_secures {output : StrategyOutput} {verify : Option HookResult} {bytes : B}
    {attempt : ℕ} (hdir : inp.runDir = runDir) (hname : names cfg.artefactName)
    (hkind : cfg.artefactKind ≠ .changesDir) (hw : Safe runDir names w) :
    Secures (admitted runDir) (Safe runDir names) (fun _ _ => True)
      (commit cfg inp output verify bytes attempt) w := by
  subst hdir
  refine Secures.bind ((commitSuccess_secures hname hkind hw).mono fun entry w₁ _ hall => ?_)
  exact Secures.bind ((completedMarker_secures hall).mono fun _ w₂ hw₂ _ =>
    Secures.pure hw₂ trivial)

omit [RunFormat B] in
lemma not_committing {fails : Prop} {o : Op B} (h : PhaseOp cfg inp fails o) : ¬ Committing o := by
  cases o with
  | writeManifest dir m => exact absurd h not_false
  | writeMarker dir m =>
      cases m with
      | completed c => rcases h.2.2 with ⟨_, hm⟩ | ⟨_, _, hm⟩ <;> cases hm
      | started c => exact not_false
      | failed c => exact not_false
  | _ => exact not_false

/-- One run of a phase, stopped anywhere, leaves the run directory safe. -/
lemma run_secures {attempt : ℕ} (hdir : inp.runDir = runDir) (hname : names cfg.artefactName)
    (hkind : cfg.artefactKind ≠ .changesDir) (hw : Safe runDir names w) :
    Secures (admitted runDir) (Safe runDir names) (fun _ _ => True)
      (PhaseRunner.run eng cfg inp attempt) w := by
  have hemits : Emits (fun o => ¬ Committing o) (attemptPhase (B := B) eng cfg inp attempt) :=
    Emits.mono attemptPhase_emits fun _ ho => not_committing ho
  refine Secures.bind ((emits_safe hemits hw).mono fun chosen w₁ hw₁ _ => ?_)
  exact commit_secures hdir hname hkind hw₁

omit [RunFormat B] in
lemma not_committing_resume {phase : String} {o : Op B} (h : ResumeOp runDir phase o) :
    ¬ Committing o := by
  cases o with
  | writeManifest dir m => exact absurd h not_false
  | writeMarker dir m => exact absurd h not_false
  | _ => exact not_false

lemma resume_secures {ρ : Type} {phase : String} {p : Run B ResumeError ρ}
    (hp : Emits (ResumeOp runDir phase) p) (hw : Safe runDir names w) :
    Secures (admitted runDir) (Safe runDir names) (fun _ => Safe runDir names) p w :=
  emits_safe (hp.mono fun _ ho => not_committing_resume ho) hw

lemma runPhase_secures {attempt : ℕ} (hname : names cfg.artefactName) (hkind : cfg.artefactKind ≠ .changesDir)
    (hw : Safe inp.runDir names w) :
    Secures (admitted inp.runDir) (Safe inp.runDir names) (fun _ => Safe inp.runDir names)
      (runPhase eng cfg inp lockBody attempt) w := by
  refine Secures.bind ((resume_secures acquireLock_emits hw).mono fun _ w₁ hw₁ _ => ?_)
  refine Secures.bind ((attempt_secures (run_secures rfl hname hkind hw₁)).mono fun result w₂ hw₂ _ => ?_)
  refine Secures.bind ((resume_secures releaseLock_emits hw₂).mono fun _ w₃ hw₃ _ => ?_)
  cases result with
  | ok _ => exact Secures.pure hw₃ hw₃
  | error e => exact Secures.throw hw₃

/-- Skipping, resuming or running a phase afresh, stopped anywhere. -/
lemma executeAction_secures (action : PhaseAction) (hname : names cfg.artefactName) (hkind : cfg.artefactKind ≠ .changesDir)
    (hw : Safe inp.runDir names w) :
    Secures (admitted inp.runDir) (Safe inp.runDir names) (fun _ => Safe inp.runDir names)
      (executeAction eng cfg inp lockBody action) w := by
  cases action with
  | skip => exact Secures.pure hw hw
  | runFresh => exact runPhase_secures hname hkind hw
  | resume nextAttempt =>
      refine Secures.bind
        ((resume_secures archiveCurrentAttempt_emits hw).mono fun _ w₁ hw₁ _ => ?_)
      exact runPhase_secures hname hkind hw₁

end Runs

end Loker.CommitProtocol
