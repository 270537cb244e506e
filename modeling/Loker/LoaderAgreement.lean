import Loker.CrashHistories

/-! The two orphan sweeps, of the manifest and of the run state, and when they keep the same
entries. -/

namespace Loker.LoaderAgreement

open FileTree TextOps RunFiles RunLoad LoadSpec
open scoped Classical

variable {B : Type} [RunFormat B] {t : Disk B} {runDir dir : Path} {m : Manifest}

section Entries

/-- The entries of the run state, before their digests are verified. -/
def stateEntries (t : Disk B) (runDir : Path) : Except LoadError (List ManifestEntry) := do
  let manifest ← loadManifest t runDir
  let scan ← loadMarkers t runDir
  pure (sweep scan manifest).1

/-- A run state that loads has these entries. -/
lemma load_entries {state : RunState} {now : ℤ} {ttlSeconds : ℕ}
    (h : load t runDir now ttlSeconds = .ok state) : stateEntries t runDir = .ok state.entries := by
  unfold load at h
  unfold stateEntries
  cases hmanifest : loadManifest t runDir with
  | error e => simp [hmanifest, bind, Except.bind] at h
  | ok manifest =>
    cases hmarkers : loadMarkers t runDir with
    | error e => simp [hmanifest, hmarkers, bind, Except.bind] at h
    | ok scan =>
      cases hheartbeat : readHeartbeat t runDir with
      | error e => simp [hmanifest, hmarkers, hheartbeat, bind, Except.bind] at h
      | ok heartbeat =>
        simp only [hmanifest, hmarkers, hheartbeat, bind, Except.bind, pure, Except.pure] at h ⊢
        split at h
        · cases h
        · cases h
          rfl

/-- Some completed marker has the digest, whatever else it lacks. -/
def Referenced (t : Disk B) (dir : Path) (hash : String) : Prop :=
  ∃ name bytes, endsWith name ".completed" = true ∧ fileAt t (dir ++ [name]) = some bytes ∧
    RunFormat.readCompletedHash bytes = some hash

lemma mem_referencedHashes_iff {hash : String} :
    hash ∈ referencedHashes t dir ↔ Referenced t dir hash := by
  unfold referencedHashes Referenced
  rw [List.mem_filterMap]
  constructor
  · rintro ⟨name, _, h⟩
    by_cases hc : endsWith name ".completed" = true
    · rw [if_pos hc] at h
      obtain ⟨bytes, hfile, hread⟩ := Option.bind_eq_some_iff.mp h
      exact ⟨name, bytes, hc, hfile, hread⟩
    · rw [if_neg hc] at h
      cases h
  · rintro ⟨name, bytes, hc, hfile, hread⟩
    exact ⟨name, mem_readDir_of_fileAt hfile, by simp [hc, hfile, hread]⟩

/-- A marker that the run state reads gives its digest to the manifest's sweep too. -/
lemma referenced_of_mentioned {hash : String} (h : Mentioned t dir hash) :
    Referenced t dir hash := by
  obtain ⟨name, hname⟩ := h
  obtain ⟨bytes, fields, hfile, hc, hread, rfl⟩ := fileAt_of_hashOf hname
  exact ⟨name, bytes, hc, hfile, RunFormat.readCompletedHash_of_readCompleted hread⟩

end Entries

section Agreement

/-- What the manifest's own sweep asks of an entry. -/
def ManifestKeeps (t : Disk B) (runDir : Path) (e : ManifestEntry) : Prop :=
  isDir t (markersDir runDir) = true → Referenced t (markersDir runDir) e.sha256

/-- The manifest's load gives the swept entries of a manifest of the supported version. -/
lemma manifestLoad_ok_iff {m' : Manifest} : manifestLoad t runDir = .ok m' ↔
    ∃ m, manifestAt t runDir = some m ∧ m.schemaVersion = 1 ∧
      (∀ e ∈ m.entries, ManifestKeeps t runDir e → e.schemaVersion = 1) ∧
      m' = { m with entries := m.entries.filter fun e => ManifestKeeps t runDir e } := by
  have hkept : ∀ m : Manifest, (if isDir t (markersDir runDir) then
      m.entries.filter fun e => e.sha256 ∈ referencedHashes t (markersDir runDir)
      else m.entries) = m.entries.filter fun e => ManifestKeeps t runDir e := by
    intro m
    split
    · next hdir =>
      exact List.filter_congr fun e _ => by simp [ManifestKeeps, hdir, mem_referencedHashes_iff]
    · next hdir => simp [ManifestKeeps, hdir]
  unfold manifestLoad manifestAt
  cases hfile : fileAt t (manifestPath runDir) with
  | none => simp
  | some bytes =>
    cases hread : RunFormat.readManifest bytes with
    | none => simp [hread]
    | some m =>
      simp only [Option.bind_some, hread, Option.some.injEq, exists_eq_left', hkept]
      by_cases hversion : m.schemaVersion = 1
      · rw [if_neg (not_not.mpr hversion)]
        have hfind : (m.entries.filter fun e => ManifestKeeps t runDir e).find?
            (fun e => e.schemaVersion ≠ 1) = none ↔
            ∀ e ∈ m.entries, ManifestKeeps t runDir e → e.schemaVersion = 1 := by
          simp [List.find?_eq_none]
        split
        · next e hbad =>
          constructor
          · nofun
          · rintro ⟨_, hentries, _⟩
            rw [hfind.mpr hentries] at hbad
            cases hbad
        · next hgood =>
          rw [Except.ok.injEq]
          exact ⟨fun h => ⟨hversion, hfind.mp hgood, h.symm⟩, fun h => h.2.2.symm⟩
      · rw [if_pos hversion]
        constructor
        · nofun
        · intro h
          exact absurd h.1 hversion

lemma manifestLoad_entries (hm : manifestAt t runDir = some m) (hversion : m.schemaVersion = 1)
    (hentries : ∀ e ∈ m.entries, e.schemaVersion = 1) :
    ∃ m', manifestLoad t runDir = .ok m' ∧
      m'.entries = m.entries.filter fun e => ManifestKeeps t runDir e :=
  ⟨_, manifestLoad_ok_iff.mpr ⟨m, hm, hversion, fun e he _ => hentries e he, rfl⟩, rfl⟩

lemma sweep_eq_filter : (sweep (scanOf t (markersDir runDir)) m).1 =
    m.entries.filter fun e => SweepKeeps t runDir e := by
  unfold sweep SweepKeeps
  split
  · next hcompleted =>
    rw [orphanSweep, List.partition_eq_filter_filter]
    refine List.filter_congr fun e _ => ?_
    have hsome := scanOf_hasCompleted.mp hcompleted
    simp [mem_scanOf_hashes, hsome]
  · next hcompleted =>
    have hnone : ∀ hash, ¬ Mentioned t (markersDir runDir) hash :=
      fun hash h => hcompleted (scanOf_hasCompleted.mpr ⟨hash, h⟩)
    simp [hnone]

/-- Where the markers directory is there, every entry is judged alike: with a readable completed
marker, what a marker readable in part mentions a readable one mentions too; without one, markers
readable in part mention every entry. -/
def SweptAlike (t : Disk B) (runDir : Path) (m : Manifest) : Prop :=
  ∀ e ∈ m.entries,
    ((∃ hash, Mentioned t (markersDir runDir) hash) →
      Referenced t (markersDir runDir) e.sha256 → Mentioned t (markersDir runDir) e.sha256) ∧
    ((¬ ∃ hash, Mentioned t (markersDir runDir) hash) →
      Referenced t (markersDir runDir) e.sha256)

lemma keepsAlike_iff {e : ManifestEntry} (hdir : isDir t (markersDir runDir) = true) :
    (SweepKeeps t runDir e ↔ ManifestKeeps t runDir e) ↔
      ((∃ hash, Mentioned t (markersDir runDir) hash) →
        Referenced t (markersDir runDir) e.sha256 → Mentioned t (markersDir runDir) e.sha256) ∧
      ((¬ ∃ hash, Mentioned t (markersDir runDir) hash) →
        Referenced t (markersDir runDir) e.sha256) := by
  have hless : Mentioned t (markersDir runDir) e.sha256 →
      Referenced t (markersDir runDir) e.sha256 := referenced_of_mentioned
  unfold SweepKeeps ManifestKeeps
  by_cases hsome : ∃ hash, Mentioned t (markersDir runDir) hash
  · simp only [hsome, hdir, true_imp_iff, not_true_eq_false, false_imp_iff, and_true]
    exact ⟨fun h hr => h.mpr hr, fun h => ⟨hless, h⟩⟩
  · simp only [hsome, hdir, true_imp_iff, not_false_eq_true, false_imp_iff, true_and, true_iff]

lemma filters_eq_iff {α : Type} {xs : List α} {p q : α → Prop} [DecidablePred p]
    [DecidablePred q] :
    xs.filter (fun x => p x) = xs.filter (fun x => q x) ↔ ∀ x ∈ xs, p x ↔ q x := by
  constructor
  · intro h x hx
    have hmem : x ∈ xs.filter (fun x => p x) ↔ x ∈ xs.filter (fun x => q x) := by rw [h]
    simpa [hx] using hmem
  · intro h
    exact List.filter_congr fun x hx => by simp [h x hx]

/-- The two loaders keep the same entries exactly when there is no markers directory or its
markers judge every entry alike. -/
theorem loaders_agree_iff (hm : manifestAt t runDir = some m) (hversion : m.schemaVersion = 1)
    (hentries : ∀ e ∈ m.entries, e.schemaVersion = 1) :
    (∃ m', manifestLoad t runDir = .ok m' ∧ stateEntries t runDir = .ok m'.entries) ↔
      occupied t (markersDir runDir) = false ∨
        isDir t (markersDir runDir) = true ∧ SweptAlike t runDir m := by
  obtain ⟨m', hload, hkept⟩ := manifestLoad_entries hm hversion hentries
  have hmanifest := loadManifest_eq hm hversion hentries
  have hagree : (∃ m', manifestLoad t runDir = .ok m' ∧ stateEntries t runDir = .ok m'.entries) ↔
      stateEntries t runDir = .ok m'.entries := by
    rw [hload]
    constructor
    · rintro ⟨m'', heq, hstate⟩
      cases heq
      exact hstate
    · exact fun hstate => ⟨m', rfl, hstate⟩
  rw [hagree, hkept]
  by_cases habsent : occupied t (markersDir runDir) = false
  · have hdir : isDir t (markersDir runDir) = false := by
      have hnode : t.node (markersDir runDir) = none := by simpa [occupied] using habsent
      simp [isDir, hnode]
    have hmarkers : loadMarkers t runDir = .ok ⟨[], [], false⟩ := by simp [loadMarkers, habsent]
    have hstate : stateEntries t runDir = .ok m.entries := by
      simp [stateEntries, hmanifest, hmarkers, sweep, bind, Except.bind, pure, Except.pure]
    simp [hstate, habsent, ManifestKeeps, hdir]
  · by_cases hdir : isDir t (markersDir runDir) = true
    · have hmarkers : loadMarkers t runDir = .ok (scanOf t (markersDir runDir)) := by
        simp [loadMarkers, habsent, hdir, scanOf]
      have hstate : stateEntries t runDir =
          .ok (m.entries.filter fun e => SweepKeeps t runDir e) := by
        rw [← sweep_eq_filter]
        simp [stateEntries, hmanifest, hmarkers, bind, Except.bind, pure, Except.pure]
      have hfilters : (stateEntries t runDir =
          .ok (m.entries.filter fun e => ManifestKeeps t runDir e)) ↔
          ∀ e ∈ m.entries, SweepKeeps t runDir e ↔ ManifestKeeps t runDir e := by
        rw [hstate, Except.ok.injEq]
        exact filters_eq_iff
      rw [hfilters]
      simp only [habsent, hdir, Bool.true_eq_false, false_or, true_and]
      exact forall₂_congr fun e he => keepsAlike_iff hdir
    · have hmarkers : loadMarkers t runDir = .error .io := by
        simp [loadMarkers, habsent, hdir]
      simp [stateEntries, hmanifest, hmarkers, habsent, hdir, bind, Except.bind]

end Agreement

section Started

open CrashHistories RunOps Programs PhaseRunner

/-- A first run killed before its completed marker. -/
def afterAppend : World Doc :=
  (evalFor (handle ⟨fun _ => .ok "one", fun _ => .ok .pass⟩) 12
    (PhaseRunner.run plainEngines designPhase designInputs 0) newRun).2.2

def designEntry : ManifestEntry :=
  ⟨"design.md", .designMd, 1, "tone", .single, some "design", some 0⟩

lemma afterAppend_manifest :
    manifestAt afterAppend.disk ["run"] = some ⟨"r1", 1, some "design", [designEntry]⟩ := by
  decide

theorem loaders_agree_iff_append :
    (∃ m', manifestLoad afterAppend.disk ["run"] = .ok m' ∧
        stateEntries afterAppend.disk ["run"] = .ok m'.entries) ↔
      occupied afterAppend.disk (markersDir ["run"]) = false ∨
        isDir afterAppend.disk (markersDir ["run"]) = true ∧
          SweptAlike afterAppend.disk ["run"] ⟨"r1", 1, some "design", [designEntry]⟩ :=
  loaders_agree_iff afterAppend_manifest rfl (by decide)

/-- There is only a started marker: the run state keeps the entry, the manifest's sweep drops
it. -/
theorem started_entry_dropped :
    manifestLoad afterAppend.disk ["run"] = .ok ⟨"r1", 1, some "design", []⟩ ∧
      load afterAppend.disk ["run"] 0 60 =
        .ok ⟨"r1", [designEntry], [], [("design", .started)], none⟩ := by
  decide

end Started

end Loker.LoaderAgreement
