import Loker.RunLoad

/-! What loading a run directory depends on: the digests and statuses the markers give, and
the entries that the sweep keeps. -/

namespace Loker.LoadSpec

open FileTree TextOps RunFiles RunLoad

variable {B : Type} [RunFormat B] {t : Disk B} {runDir dir : Path}

section Scan

/-- What one marker file says about a phase. -/
def statusOf (t : Disk B) (dir : Path) (name : String) : Option (String × PhaseStatus) :=
  (fileAt t (dir ++ [name])).bind fun bytes =>
    if endsWith name ".completed" then
      (RunFormat.readCompleted bytes).map fun _ => (markerPhase name, .completed)
    else if endsWith name ".failed" then some (markerPhase name, .failed)
    else if contains name ".started" then some (markerPhase name, .started)
    else none

/-- The digest a completed marker mentions. -/
def hashOf (t : Disk B) (dir : Path) (name : String) : Option String :=
  (fileAt t (dir ++ [name])).bind fun bytes =>
    if endsWith name ".completed" then
      (RunFormat.readCompleted bytes).map CompletedFields.manifestEntrySha256
    else none

lemma scanMarker_eq (scan : MarkerScan) (name : String) :
    scanMarker t dir scan name =
      ⟨addAll scan.phaseStatus (statusOf t dir name).toList,
        (hashOf t dir name).toList ++ scan.completedHashes,
        (hashOf t dir name).isSome || scan.hasCompletedMarkers⟩ := by
  unfold scanMarker statusOf hashOf
  cases fileAt t (dir ++ [name]) with
  | none => rfl
  | some bytes =>
      by_cases hc : endsWith name ".completed" = true
      · cases hr : RunFormat.readCompleted bytes <;> simp [hc, hr, addAll]
      · by_cases hf : endsWith name ".failed" = true
        · simp [hc, hf, addAll]
        · by_cases hs : contains name ".started" = true <;> simp [hc, hf, hs, addAll]

lemma foldl_scanMarker (names : List String) (scan : MarkerScan) :
    names.foldl (scanMarker t dir) scan =
      ⟨addAll scan.phaseStatus (names.filterMap (statusOf t dir)),
        (names.filterMap (hashOf t dir)).reverse ++ scan.completedHashes,
        (names.filterMap (hashOf t dir)).any (fun _ => true) || scan.hasCompletedMarkers⟩ := by
  induction names generalizing scan with
  | nil => rfl
  | cons name names ih =>
      rw [List.foldl_cons, ih, scanMarker_eq]
      cases hs : statusOf t dir name <;> cases hh : hashOf t dir name <;>
        simp [hs, hh, addAll]

/-- Some completed marker mentions the digest. -/
def Mentioned (t : Disk B) (dir : Path) (hash : String) : Prop :=
  ∃ name, hashOf t dir name = some hash

lemma fileAt_of_hashOf {name hash : String} (h : hashOf t dir name = some hash) :
    ∃ bytes fields, fileAt t (dir ++ [name]) = some bytes ∧
      endsWith name ".completed" = true ∧ RunFormat.readCompleted bytes = some fields ∧
      fields.manifestEntrySha256 = hash := by
  unfold hashOf at h
  cases hfile : fileAt t (dir ++ [name]) with
  | none => simp [hfile] at h
  | some bytes =>
      by_cases hc : endsWith name ".completed" = true
      · simp only [hfile, Option.bind_some, hc, if_true, Option.map_eq_some_iff] at h
        obtain ⟨fields, hread, hhash⟩ := h
        exact ⟨bytes, fields, rfl, hc, hread, hhash⟩
      · simp [hfile, hc] at h

lemma mem_readDir_of_hashOf {name hash : String} (h : hashOf t dir name = some hash) :
    name ∈ readDir t dir := by
  obtain ⟨bytes, _, hfile, _⟩ := fileAt_of_hashOf h
  exact mem_readDir_of_fileAt hfile

lemma mem_readDir_of_statusOf {name : String} {x : String × PhaseStatus}
    (h : statusOf t dir name = some x) : name ∈ readDir t dir := by
  unfold statusOf at h
  cases hfile : fileAt t (dir ++ [name]) with
  | none => simp [hfile] at h
  | some bytes => exact mem_readDir_of_fileAt hfile

lemma mem_hashes_iff {hash : String} :
    hash ∈ (readDir t dir).filterMap (hashOf t dir) ↔ Mentioned t dir hash := by
  rw [List.mem_filterMap]
  exact ⟨fun ⟨name, _, h⟩ => ⟨name, h⟩, fun ⟨name, h⟩ => ⟨name, mem_readDir_of_hashOf h, h⟩⟩

/-- The marker scan of a directory that is there. -/
def scanOf (t : Disk B) (dir : Path) : MarkerScan :=
  (readDir t dir).foldl (scanMarker t dir) ⟨[], [], false⟩

lemma mem_scanOf_hashes {hash : String} :
    hash ∈ (scanOf t dir).completedHashes ↔ Mentioned t dir hash := by
  rw [scanOf, foldl_scanMarker]
  simp [← mem_hashes_iff]

lemma scanOf_hasCompleted :
    (scanOf t dir).hasCompletedMarkers = true ↔ ∃ hash, Mentioned t dir hash := by
  rw [scanOf, foldl_scanMarker]
  simp only [Bool.or_false, List.any_eq_true, and_true]
  exact exists_congr fun hash => mem_hashes_iff

/-- The status of a phase is the highest one that a marker gives it. -/
lemma scanOf_status_eq_some {p : String} {s : PhaseStatus}
    (h : (scanOf t dir).phaseStatus.lookup p = some s) :
    (∃ name, statusOf t dir name = some (p, s)) ∧
      ∀ name s', statusOf t dir name = some (p, s') → statusRank s' ≤ statusRank s := by
  rw [scanOf, foldl_scanMarker] at h
  obtain ⟨hfrom, hmax, -⟩ := lookup_addAll_eq_some h
  refine ⟨?_, fun name s' hs' => hmax s' ?_⟩
  · rcases hfrom with hmem | hempty
    · obtain ⟨name, _, hname⟩ := List.mem_filterMap.mp hmem
      exact ⟨name, hname⟩
    · simp at hempty
  · exact List.mem_filterMap.mpr ⟨name, mem_readDir_of_statusOf hs', hs'⟩

lemma scanOf_status_eq_none {p : String} :
    (scanOf t dir).phaseStatus.lookup p = none ↔
      ∀ name s, statusOf t dir name ≠ some (p, s) := by
  rw [scanOf, foldl_scanMarker, lookup_addAll_eq_none]
  constructor
  · intro h name s hname
    exact h.2 s (List.mem_filterMap.mpr ⟨name, mem_readDir_of_statusOf hname, hname⟩)
  · refine fun h => ⟨rfl, fun s hmem => ?_⟩
    obtain ⟨name, _, hname⟩ := List.mem_filterMap.mp hmem
    exact h name s hname

/-- Two directories whose markers say the same of a phase give it the same status. -/
lemma scanOf_lookup_congr {t' : Disk B} {p : String}
    (h : ∀ name s, statusOf t' dir name = some (p, s) ↔ statusOf t dir name = some (p, s)) :
    (scanOf t' dir).phaseStatus.lookup p = (scanOf t dir).phaseStatus.lookup p := by
  cases hlookup : (scanOf t dir).phaseStatus.lookup p with
  | none =>
      rw [scanOf_status_eq_none] at hlookup ⊢
      exact fun name s hname => hlookup name s ((h name s).mp hname)
  | some s =>
      obtain ⟨⟨name, hname⟩, hmax⟩ := scanOf_status_eq_some hlookup
      cases hlookup' : (scanOf t' dir).phaseStatus.lookup p with
      | none => exact absurd ((h name s).mpr hname) (scanOf_status_eq_none.mp hlookup' name s)
      | some s' =>
          obtain ⟨⟨name', hname'⟩, hmax'⟩ := scanOf_status_eq_some hlookup'
          have hle := hmax name' s' ((h name' s').mp hname')
          have hge := hmax' name s ((h name s).mpr hname)
          rw [statusRank_injective (le_antisymm hle hge)]

lemma statusOf_phase {name p : String} {s : PhaseStatus}
    (h : statusOf t dir name = some (p, s)) : markerPhase name = p := by
  unfold statusOf at h
  obtain ⟨bytes, _, h⟩ := Option.bind_eq_some_iff.mp h
  split at h
  · obtain ⟨_, _, heq⟩ := Option.map_eq_some_iff.mp h
    exact (Prod.mk.inj heq).1
  split at h
  · exact (Prod.mk.inj (Option.some.inj h)).1
  split at h
  · exact (Prod.mk.inj (Option.some.inj h)).1
  · cases h

lemma markerPhase_completed (p : String) : markerPhase (p ++ ".completed") = p := by
  simp [markerPhase]

/-- The completed marker of the phase is there and can be read. -/
def CompletedOnDisk (t : Disk B) (dir : Path) (phase : String) : Prop :=
  ∃ bytes fields, fileAt t (dir ++ [phase ++ ".completed"]) = some bytes ∧
    RunFormat.readCompleted bytes = some fields

lemma CompletedOnDisk.status {p : String} (h : CompletedOnDisk t dir p) :
    (scanOf t dir).phaseStatus.lookup p = some .completed := by
  obtain ⟨bytes, fields, hfile, hread⟩ := h
  have hname : statusOf t dir (p ++ ".completed") = some (p, .completed) := by
    simp [statusOf, hfile, hread, markerPhase_completed]
  cases hlookup : (scanOf t dir).phaseStatus.lookup p with
  | none => exact absurd hname (scanOf_status_eq_none.mp hlookup _ _)
  | some s =>
      have hrank := (scanOf_status_eq_some hlookup).2 _ _ hname
      cases s <;> simp_all [statusRank]

end Scan

section Load

/-- The manifest the run directory holds. -/
def manifestAt (t : Disk B) (runDir : Path) : Option Manifest :=
  (fileAt t (manifestPath runDir)).bind RunFormat.readManifest

/-- The sweep keeps the entry: no completed marker is there or one mentions its digest. -/
def SweepKeeps (t : Disk B) (runDir : Path) (e : ManifestEntry) : Prop :=
  (∃ hash, Mentioned t (markersDir runDir) hash) → Mentioned t (markersDir runDir) e.sha256

/-- The entry's file is there with the recorded digest. -/
def Recorded (t : Disk B) (runDir : Path) (e : ManifestEntry) : Prop :=
  ∃ bytes, fileAt t (join runDir e.name) = some bytes ∧ RunFormat.sha256Hex bytes = e.sha256

/-- A run directory that loads: every kept entry is recorded on disk. -/
structure Consistent (t : Disk B) (runDir : Path) (m : Manifest) : Prop where
  manifest : manifestAt t runDir = some m
  version : m.schemaVersion = 1
  entry_version : ∀ e ∈ m.entries, e.schemaVersion = 1
  file_kind : ∀ e ∈ m.entries, e.kind ≠ .changesDir
  markers : fileAt t (markersDir runDir) = none
  heartbeat : ∃ heartbeat, readHeartbeat t runDir = .ok heartbeat
  kept : ∀ e ∈ m.entries, SweepKeeps t runDir e → Recorded t runDir e

variable {m : Manifest}

lemma loadMarkers_eq (h : fileAt t (markersDir runDir) = none) :
    loadMarkers t runDir = .ok (scanOf t (markersDir runDir)) := by
  unfold loadMarkers
  rcases fileAt_eq_none.mp h with hnone | hdir
  · simp [occupied, hnone, scanOf, readDir_of_absent hnone]
  · simp [occupied, hdir, isDir_iff.mpr hdir, scanOf]

lemma loadMarkers_of_file {b : B} (h : fileAt t (markersDir runDir) = some b) :
    loadMarkers t runDir = .error .io := by
  have hnode := fileAt_eq_some.mp h
  unfold loadMarkers
  rw [if_neg (by simp [occupied, hnode]), if_pos (by simp [isDir, hnode])]

lemma loadManifest_eq (hm : manifestAt t runDir = some m) (hversion : m.schemaVersion = 1)
    (hentries : ∀ e ∈ m.entries, e.schemaVersion = 1) : loadManifest t runDir = .ok m := by
  obtain ⟨bytes, hfile, hread⟩ := Option.bind_eq_some_iff.mp hm
  have hnone : m.entries.find? (fun e => e.schemaVersion ≠ 1) = none := by
    rw [List.find?_eq_none]
    intro e he
    simp [hentries e he]
  simp only [loadManifest, hfile, hread, hversion, hnone, ne_eq, not_true_eq_false, if_false]

lemma verifyEntry_ok {e : ManifestEntry} (hkind : e.kind ≠ .changesDir)
    (h : Recorded t runDir e) : verifyEntry t runDir e = .ok () := by
  obtain ⟨bytes, hfile, hsha⟩ := h
  have hnode := fileAt_eq_some.mp hfile
  simp [verifyEntry, occupied, hnode, hkind, hfile, hsha]

lemma verifyEntries_ok {entries : List ManifestEntry}
    (h : ∀ e ∈ entries, verifyEntry t runDir e = .ok ()) :
    verifyEntries t runDir entries = .ok () := by
  unfold verifyEntries
  induction entries with
  | nil => rfl
  | cons e entries ih =>
      have hfirst := h e List.mem_cons_self
      have hrest := ih fun e' he' => h e' (List.mem_cons_of_mem _ he')
      simp only [List.forM_eq_forM, List.forM_cons, hfirst] at hrest ⊢
      exact hrest

/-- The entries kept and dropped after the scan. -/
def sweep (scan : MarkerScan) (m : Manifest) : List ManifestEntry × List ManifestEntry :=
  if scan.hasCompletedMarkers then orphanSweep m.entries scan.completedHashes
  else (m.entries, [])

lemma mem_sweep {e : ManifestEntry} :
    e ∈ (sweep (scanOf t (markersDir runDir)) m).1 ↔ e ∈ m.entries ∧ SweepKeeps t runDir e := by
  unfold sweep SweepKeeps
  split
  · next hcompleted =>
    simp only [orphanSweep, List.partition_eq_filter_filter, List.mem_filter,
      decide_eq_true_eq, mem_scanOf_hashes]
    exact and_congr_right fun _ =>
      ⟨fun h _ => h, fun h => h (scanOf_hasCompleted.mp hcompleted)⟩
  · next hcompleted =>
    exact ⟨fun h => ⟨h, fun hsome => absurd (scanOf_hasCompleted.mpr hsome) hcompleted⟩,
      fun h => h.1⟩

/-- Loading a consistent run directory succeeds, and the loaded entries are on disk. -/
theorem Consistent.load_ok (h : Consistent t runDir m) (now : ℤ) (ttlSeconds : ℕ) :
    ∃ state, load t runDir now ttlSeconds = .ok state ∧
      state.phaseStatus = (scanOf t (markersDir runDir)).phaseStatus ∧
      ∀ e ∈ state.entries, Recorded t runDir e := by
  obtain ⟨heartbeat, hheartbeat⟩ := h.heartbeat
  have hmanifest := loadManifest_eq h.manifest h.version h.entry_version
  have hmarkers := loadMarkers_eq h.markers
  have hkept : ∀ e ∈ (sweep (scanOf t (markersDir runDir)) m).1,
      e ∈ m.entries ∧ Recorded t runDir e := by
    intro e he
    obtain ⟨hmem, hkeeps⟩ := mem_sweep.mp he
    exact ⟨hmem, h.kept e hmem hkeeps⟩
  have hverify := verifyEntries_ok fun e he =>
    verifyEntry_ok (h.file_kind e (hkept e he).1) (hkept e he).2
  refine ⟨⟨m.runId, (sweep (scanOf t (markersDir runDir)) m).1,
    (sweep (scanOf t (markersDir runDir)) m).2, (scanOf t (markersDir runDir)).phaseStatus,
    heartbeat.map (statusFromHeartbeat now ttlSeconds)⟩, ?_, rfl, fun e he => (hkept e he).2⟩
  simp only [sweep] at hverify ⊢
  simp only [load, hmanifest, hmarkers, hheartbeat, hverify, bind, Except.bind, pure,
    Except.pure]

end Load

end Loker.LoadSpec
