import Loker.LoaderAgreement
import Loker.Resumability
import Loker.ResumeDecision

/-! The phases that a resume skips, and when the loaded state has a verified entry for each. -/

namespace Loker.SkippedPhases

open FileTree TextOps RunFiles RunLoad LoadSpec Dispatch Resume LoaderAgreement Resumability
open ResumeDecision

variable {B : Type} [RunFormat B] {t : Disk B} {runDir : Path} {p : String}

section Verified

/-- The digest of what lies at the entry's place. -/
def entryDigest (t : Disk B) (runDir : Path) (e : ManifestEntry) : Option String :=
  if e.kind = .changesDir then dirDigest t (join runDir e.name)
  else (fileAt t (join runDir e.name)).map RunFormat.sha256Hex

lemma entryDigest_of_verifyEntry {e : ManifestEntry} (h : verifyEntry t runDir e = .ok ()) :
    entryDigest t runDir e = some e.sha256 := by
  unfold verifyEntry at h
  by_cases habsent : occupied t (join runDir e.name) = false
  · rw [if_pos habsent] at h
    cases h
  · rw [if_neg habsent] at h
    unfold entryDigest
    dsimp only at h
    split at h
    · cases h
    · next found hfound =>
      by_cases hne : found ≠ e.sha256
      · rw [if_pos hne] at h
        cases h
      · rw [hfound, not_not.mp hne]

lemma verifyEntry_of_verifyEntries {entries : List ManifestEntry} {e : ManifestEntry}
    (h : verifyEntries t runDir entries = .ok ()) (hmem : e ∈ entries) :
    verifyEntry t runDir e = .ok () := by
  unfold verifyEntries at h
  induction entries with
  | nil => cases hmem
  | cons first entries ih =>
      rw [List.forM_eq_forM, List.forM_cons] at h
      cases hfirst : verifyEntry t runDir first with
      | error e => simp [hfirst, bind, Except.bind] at h
      | ok done =>
          have hrest : entries.forM (verifyEntry t runDir) = .ok () := by
            simpa [hfirst, bind, Except.bind] using h
          rcases List.mem_cons.mp hmem with rfl | hmem
          · exact hfirst
          · exact ih hrest hmem

/-- Every entry of a loaded state hashes to its digest. -/
lemma load_verified {state : RunState} {now : ℤ} {ttlSeconds : ℕ} {e : ManifestEntry}
    (h : load t runDir now ttlSeconds = .ok state) (hmem : e ∈ state.entries) :
    entryDigest t runDir e = some e.sha256 := by
  unfold load at h
  cases hmanifest : loadManifest t runDir with
  | error e => simp [hmanifest, bind, Except.bind] at h
  | ok manifest =>
    cases hmarkers : loadMarkers t runDir with
    | error e => simp [hmanifest, hmarkers, bind, Except.bind] at h
    | ok scan =>
      cases hheartbeat : readHeartbeat t runDir with
      | error e => simp [hmanifest, hmarkers, hheartbeat, bind, Except.bind] at h
      | ok heartbeat =>
        simp only [hmanifest, hmarkers, hheartbeat, bind, Except.bind, pure, Except.pure] at h
        split at h
        · cases h
        · next hverify =>
          cases h
          exact entryDigest_of_verifyEntry (verifyEntry_of_verifyEntries hverify hmem)

end Verified

section Skip

/-- The digest that the completed marker of the phase records. -/
def markerHash (t : Disk B) (runDir : Path) (p : String) : Option String :=
  hashOf t (markersDir runDir) (p ++ ".completed")

/-- The loaded state has a verified entry of the phase with the digest its marker records. -/
def Backed (t : Disk B) (runDir : Path) (state : RunState) (p : String) : Prop :=
  ∃ hash, markerHash t runDir p = some hash ∧
    ∃ e ∈ state.entries, e.phase = some p ∧ e.sha256 = hash ∧ entryDigest t runDir e = some hash

/-- The manifest on disk lists an entry of the phase with the digest the marker records. -/
def Listed (t : Disk B) (runDir : Path) (p : String) : Prop :=
  ∀ hash, markerHash t runDir p = some hash →
    ∃ m, manifestAt t runDir = some m ∧ ∃ e ∈ m.entries, e.phase = some p ∧ e.sha256 = hash

lemma hashOf_completed (p : String) {dir : Path} : hashOf t dir (p ++ ".completed") =
    ((fileAt t (dir ++ [p ++ ".completed"])).bind RunFormat.readCompleted).map
      CompletedFields.manifestEntrySha256 := by
  cases hfile : fileAt t (dir ++ [p ++ ".completed"]) <;> simp [hashOf, hfile]

lemma completedIn_iff {state : RunState} {now : ℤ} {ttlSeconds : ℕ}
    (h : load t runDir now ttlSeconds = .ok state) :
    CompletedIn state p ↔ ∃ hash, markerHash t runDir p = some hash := by
  have hstatus := load_phaseStatus h
  unfold CompletedIn markerHash
  rw [hstatus, hashOf_completed]
  constructor
  · intro hlookup
    obtain ⟨⟨name, hname⟩, -⟩ := scanOf_status_eq_some hlookup
    obtain ⟨rfl, -⟩ := statusOf_completed hname
    unfold statusOf at hname
    obtain ⟨bytes, hfile, hread⟩ := Option.bind_eq_some_iff.mp hname
    rw [if_pos (CommitProtocol.endsWith_completed p)] at hread
    obtain ⟨fields, hfields, -⟩ := Option.map_eq_some_iff.mp hread
    exact ⟨fields.manifestEntrySha256, by simp [hfile, hfields]⟩
  · rintro ⟨hash, hhash⟩
    obtain ⟨fields, hfields, -⟩ := Option.map_eq_some_iff.mp hhash
    obtain ⟨bytes, hfile, hread⟩ := Option.bind_eq_some_iff.mp hfields
    have hdisk : CompletedOnDisk t (markersDir runDir) p := ⟨bytes, fields, hfile, hread⟩
    exact hdisk.status

lemma manifestAt_of_loadManifest {m : Manifest} (h : loadManifest t runDir = .ok m) :
    manifestAt t runDir = some m := by
  unfold loadManifest at h
  unfold manifestAt
  split at h
  · cases h
  next bytes hfile =>
  split at h
  · cases h
  next manifest hread =>
  split at h
  · cases h
  split at h
  · cases h
  · cases h
    simp [hfile, hread]

/-- The entries of a loaded state are those of the manifest that the sweep keeps. -/
lemma mem_load_entries {state : RunState} {now : ℤ} {ttlSeconds : ℕ}
    (h : load t runDir now ttlSeconds = .ok state) : ∃ m, manifestAt t runDir = some m ∧
      ∀ e, e ∈ state.entries ↔ e ∈ m.entries ∧ SweepKeeps t runDir e := by
  have hentries := load_entries h
  unfold stateEntries at hentries
  cases hmanifest : loadManifest t runDir with
  | error e => simp [hmanifest, bind, Except.bind] at hentries
  | ok m =>
    cases hmarkers : loadMarkers t runDir with
    | error e => simp [hmanifest, hmarkers, bind, Except.bind] at hentries
    | ok scan =>
      have hfile : fileAt t (markersDir runDir) = none := by
        by_contra hne
        obtain ⟨b, hb⟩ := Option.ne_none_iff_exists'.mp hne
        rw [loadMarkers_of_file hb] at hmarkers
        cases hmarkers
      rw [loadMarkers_eq hfile] at hmarkers
      cases hmarkers
      rw [hmanifest, loadMarkers_eq hfile] at hentries
      have hstate : (sweep (scanOf t (markersDir runDir)) m).1 = state.entries :=
        Except.ok.inj hentries
      refine ⟨m, manifestAt_of_loadManifest hmanifest, fun e => ?_⟩
      rw [← hstate]
      exact mem_sweep

lemma backed_iff {state : RunState} {now : ℤ} {ttlSeconds : ℕ}
    (h : load t runDir now ttlSeconds = .ok state) {hash : String}
    (hhash : markerHash t runDir p = some hash) :
    Backed t runDir state p ↔
      ∃ m, manifestAt t runDir = some m ∧ ∃ e ∈ m.entries, e.phase = some p ∧ e.sha256 = hash := by
  obtain ⟨m, hm, hentries⟩ := mem_load_entries h
  constructor
  · rintro ⟨hash', hhash', e, hmem, hphase, hsha, -⟩
    have heq : hash' = hash := Option.some.inj (hhash'.symm.trans hhash)
    exact ⟨m, hm, e, ((hentries e).mp hmem).1, hphase, hsha.trans heq⟩
  · rintro ⟨m', hm', e, hmem, hphase, hsha⟩
    obtain rfl : m' = m := Option.some.inj (hm'.symm.trans hm)
    have hkept : e ∈ state.entries := by
      refine (hentries e).mpr ⟨hmem, fun _ => ⟨p ++ ".completed", ?_⟩⟩
      rw [hsha]
      exact hhash
    have hverified := load_verified h hkept
    exact ⟨hash, hhash, e, hkept, hphase, hsha, hverified.trans (congrArg some hsha)⟩

variable {state : RunState} {now : ℤ} {ttlSeconds : ℕ} {configs : List PhaseConfig}
  {actions : List (PhaseConfig × PhaseAction)}

/-- Every phase that the plan skips has a verified entry with the digest of its completed marker
exactly when the manifest lists one for each phase that has a readable completed marker. -/
theorem skips_backed_iff (hload : load t runDir now ttlSeconds = .ok state)
    (hplan : plan t runDir state configs = .ok actions) :
    (∀ x ∈ actions, x.2 = .skip → Backed t runDir state x.1.phase) ↔
      ∀ cfg ∈ configs, Listed t runDir cfg.phase := by
  obtain ⟨hfst, hplanned⟩ := plan_eq_ok hplan
  constructor
  · intro h cfg hcfg hash hhash
    rw [← hfst] at hcfg
    obtain ⟨x, hx, rfl⟩ := List.mem_map.mp hcfg
    have hcompleted := (completedIn_iff hload).mpr ⟨hash, hhash⟩
    have hskip : x.2 = .skip := by
      have haction := hplanned x hx
      rw [planPhase, hcompleted] at haction
      exact (Option.some.inj haction).symm
    exact (backed_iff hload hhash).mp (h x hx hskip)
  · intro h x hx hskip
    have hcfg : x.1 ∈ configs := hfst ▸ List.mem_map_of_mem hx
    have haction := hplanned x hx
    rw [hskip] at haction
    obtain ⟨hash, hhash⟩ := (completedIn_iff hload).mp (planPhase_skip haction)
    exact (backed_iff hload hhash).mpr (h x.1 hcfg hash hhash)

end Skip

section Lost

open CrashHistories

lemma afterDesign_plan : plan afterDesign.disk ["run"] designCompleted [designPhase] =
    .ok [(designPhase, .skip)] := by decide

theorem skips_backed_iff_design :
    (∀ x ∈ [(designPhase, PhaseAction.skip)], x.2 = .skip →
        Backed afterDesign.disk ["run"] designCompleted x.1.phase) ↔
      ∀ cfg ∈ [designPhase], Listed afterDesign.disk ["run"] cfg.phase :=
  skips_backed_iff afterDesign_load afterDesign_plan

/-- The same run directory with a manifest that has no entry. -/
def lostEntry : Disk Doc :=
  (writeFile afterDesign.disk (manifestPath ["run"])
    (.manifest ⟨"r1", 1, some "design", []⟩)).getD afterDesign.disk

/-- The design phase is skipped although no entry, verified or not, stands for it. -/
theorem skipped_unbacked :
    load lostEntry ["run"] 0 60 = .ok ⟨"r1", [], [], [("design", .completed)], none⟩ ∧
      plan lostEntry ["run"] ⟨"r1", [], [], [("design", .completed)], none⟩ [designPhase] =
        .ok [(designPhase, .skip)] ∧
      ¬ Backed lostEntry ["run"] ⟨"r1", [], [], [("design", .completed)], none⟩ "design" := by
  have hload : load lostEntry ["run"] 0 60 =
      .ok ⟨"r1", [], [], [("design", .completed)], none⟩ := by decide
  have hplan : plan lostEntry ["run"] ⟨"r1", [], [], [("design", .completed)], none⟩
      [designPhase] = .ok [(designPhase, .skip)] := by decide
  refine ⟨hload, hplan, ?_⟩
  rintro ⟨hash, -, e, hmem, -⟩
  cases hmem

end Lost

end Loker.SkippedPhases
