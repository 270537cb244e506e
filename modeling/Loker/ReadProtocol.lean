import Loker.SkippedPhases
import Loker.AttemptNumbers
import Loker.Summary

/-! The documented walk over the phases of a run directory, and when the loader and the planner
take its steps. -/

namespace Loker.ReadProtocol

open FileTree TextOps RunFiles RunLoad LoadSpec Dispatch Resume ResumeDecision SkippedPhases
open AttemptNumbers Summary

variable {B : Type}

section Walk

variable [SummaryFormat B]

/-- What is done with one phase. -/
inductive WalkStep where
  | skip
  | rerun (attempt : ℕ)
  | refuse
  | fresh
  deriving DecidableEq, Repr

def failedMarker (t : Disk B) (runDir : Path) (p : String) : Option B :=
  fileAt t (markersDir runDir ++ [p ++ ".failed"])

/-- The names of a phase's started marker, without and with its attempt. -/
def StartedName (p name : String) : Prop :=
  name = p ++ ".started" ∨ ∃ n : ℕ, name = p ++ ".started." ++ n.repr

def Started (t : Disk B) (runDir : Path) (p : String) : Prop :=
  ∃ name, StartedName p name ∧ (fileAt t (markersDir runDir ++ [name])).isSome

/-- The largest attempt of the phase's started markers. -/
structure LastStarted (t : Disk B) (runDir : Path) (p : String) (a : ℕ) : Prop where
  found : ∃ name, StartedName p name ∧ attemptIn t runDir name = some a
  largest : ∀ name b, StartedName p name → attemptIn t runDir name = some b → b ≤ a

/-- The manifest entry that the digest leads to, and its artefact, have this digest. -/
def Matches (t : Disk B) (runDir : Path) (hash : String) : Prop :=
  ∃ m e, manifestAt t runDir = some m ∧ m.entries.find? (·.sha256 = hash) = some e ∧
    entryDigest t runDir e = some hash

/-- The heartbeat is younger than its time to live; without one nobody holds the run. -/
def Held (t : Disk B) (runDir : Path) (now : ℤ) (ttlSeconds : ℕ) : Prop :=
  ∃ heartbeat, readHeartbeat t runDir = .ok (some heartbeat) ∧
    now - heartbeat.tickAt < 1000 * ttlSeconds

/-- The steps of the walk. Attempt numbers count from `first`; after a mismatch any will do. -/
inductive Prescribed (first : ℕ) (t : Disk B) (runDir : Path) (now : ℤ) (ttlSeconds : ℕ)
    (p : String) : WalkStep → Prop
  | verified {hash} (marker : markerHash t runDir p = some hash)
      (intact : Matches t runDir hash) : Prescribed first t runDir now ttlSeconds p .skip
  | tampered {hash n} (marker : markerHash t runDir p = some hash)
      (broken : ¬ Matches t runDir hash) : Prescribed first t runDir now ttlSeconds p (.rerun n)
  | failed {bytes marker n} (open_ : markerHash t runDir p = none)
      (file : failedMarker t runDir p = some bytes)
      (read : SummaryFormat.readFailedMarker bytes = some marker)
      (number : n + first = marker.attemptsMade + 1) :
      Prescribed first t runDir now ttlSeconds p (.rerun n)
  | held (open_ : markerHash t runDir p = none) (unfailed : failedMarker t runDir p = none)
      (started : Started t runDir p) (live : Held t runDir now ttlSeconds) :
      Prescribed first t runDir now ttlSeconds p .refuse
  | abandoned {a} (open_ : markerHash t runDir p = none)
      (unfailed : failedMarker t runDir p = none) (started : Started t runDir p)
      (stale : ¬ Held t runDir now ttlSeconds) (last : LastStarted t runDir p a) :
      Prescribed first t runDir now ttlSeconds p (.rerun (a + 1))
  | untouched (open_ : markerHash t runDir p = none) (unfailed : failedMarker t runDir p = none)
      (unstarted : ¬ Started t runDir p) : Prescribed first t runDir now ttlSeconds p .fresh

end Walk

section Decided

variable [SummaryFormat B]

def stepOf : PhaseAction → WalkStep
  | .skip => .skip
  | .resume nextAttempt => .rerun nextAttempt
  | .runFresh => .fresh

/-- The load, the heartbeat guard behind it and the plan; nothing stands for an error. -/
def decisions (t : Disk B) (runDir : Path) (now : ℤ) (ttlSeconds : ℕ)
    (configs : List PhaseConfig) : Option (List (PhaseConfig × WalkStep)) :=
  match load t runDir now ttlSeconds with
  | .error _ => none
  | .ok state =>
      match state.heartbeat with
      | some (.live _) => some (configs.map fun cfg => (cfg, .refuse))
      | _ =>
          match plan t runDir state configs with
          | .ok actions => some (actions.map fun x => (x.1, stepOf x.2))
          | .error _ => none

/-- Every phase gets a step, and it is one of the walk's. -/
def FollowsWalk (first : ℕ) (t : Disk B) (runDir : Path) (now : ℤ) (ttlSeconds : ℕ)
    (configs : List PhaseConfig) : Prop :=
  ∃ steps, decisions t runDir now ttlSeconds configs = some steps ∧
    steps.map Prod.fst = configs ∧
    ∀ x ∈ steps, Prescribed first t runDir now ttlSeconds x.1.phase x.2

end Decided

section Load

variable [RunFormat B] {t : Disk B} {runDir : Path} {now : ℤ} {ttlSeconds : ℕ}

/-- The manifest can be read, the markers and the heartbeat too, and what every kept entry names
has the entry's digest. -/
structure Loadable (t : Disk B) (runDir : Path) (m : Manifest) : Prop where
  manifest : manifestAt t runDir = some m
  version : m.schemaVersion = 1
  entry_version : ∀ e ∈ m.entries, e.schemaVersion = 1
  markers : fileAt t (markersDir runDir) = none
  heartbeat : ∃ heartbeat, readHeartbeat t runDir = .ok heartbeat
  kept : ∀ e ∈ m.entries, SweepKeeps t runDir e → entryDigest t runDir e = some e.sha256

lemma verifyEntry_of_entryDigest {e : ManifestEntry}
    (h : entryDigest t runDir e = some e.sha256) : verifyEntry t runDir e = .ok () := by
  have hoccupied : occupied t (join runDir e.name) = true := by
    by_contra habsent
    have hnode : t.node (join runDir e.name) = none := by simpa [occupied] using habsent
    unfold entryDigest at h
    split at h
    · simp [dirDigest, isDir, hnode] at h
    · simp [fileAt, hnode] at h
  unfold entryDigest at h
  unfold verifyEntry
  simp only [hoccupied, Bool.true_eq_false, if_false, h, ne_eq, not_true_eq_false]

lemma loadManifest_ok {m : Manifest} (h : loadManifest t runDir = .ok m) :
    manifestAt t runDir = some m ∧ m.schemaVersion = 1 ∧ ∀ e ∈ m.entries, e.schemaVersion = 1 := by
  refine ⟨manifestAt_of_loadManifest h, ?_⟩
  unfold loadManifest at h
  split at h
  · cases h
  split at h
  · cases h
  split at h
  · cases h
  next hversion =>
  split at h
  · cases h
  · next hentries =>
    cases h
    refine ⟨not_not.mp hversion, fun e he => ?_⟩
    simpa using List.find?_eq_none.mp hentries e he

/-- Loading succeeds on exactly these directories. -/
theorem load_ok_iff : (∃ state, load t runDir now ttlSeconds = .ok state) ↔
    ∃ m, Loadable t runDir m := by
  constructor
  · rintro ⟨state, h⟩
    obtain ⟨m, hm, hentries⟩ := mem_load_entries h
    have hverified := fun e (he : e ∈ state.entries) => load_verified h he
    unfold load at h
    cases hmanifest : loadManifest t runDir with
    | error e => simp [hmanifest, bind, Except.bind] at h
    | ok manifest =>
      obtain ⟨hmanifestAt, hversion, hversions⟩ := loadManifest_ok hmanifest
      obtain rfl : m = manifest := Option.some.inj (hm.symm.trans hmanifestAt)
      cases hmarkers : loadMarkers t runDir with
      | error e => simp [hmanifest, hmarkers, bind, Except.bind] at h
      | ok scan =>
        cases hheartbeat : readHeartbeat t runDir with
        | error e => simp [hmanifest, hmarkers, hheartbeat, bind, Except.bind] at h
        | ok heartbeat =>
          have hfile : fileAt t (markersDir runDir) = none := by
            by_contra hne
            obtain ⟨b, hb⟩ := Option.ne_none_iff_exists'.mp hne
            rw [loadMarkers_of_file hb] at hmarkers
            cases hmarkers
          exact ⟨m, hm, hversion, hversions, hfile, ⟨heartbeat, hheartbeat⟩, fun e he hkeeps =>
            hverified e ((hentries e).mpr ⟨he, hkeeps⟩)⟩
  · rintro ⟨m, h⟩
    obtain ⟨heartbeat, hheartbeat⟩ := h.heartbeat
    have hmanifest := loadManifest_eq h.manifest h.version h.entry_version
    have hmarkers := loadMarkers_eq h.markers
    have hverify : verifyEntries t runDir (sweep (scanOf t (markersDir runDir)) m).1 = .ok () := by
      refine verifyEntries_ok fun e he => verifyEntry_of_entryDigest ?_
      obtain ⟨hmem, hkeeps⟩ := mem_sweep.mp he
      exact h.kept e hmem hkeeps
    simp only [sweep] at hverify
    simp only [load, hmanifest, hmarkers, hheartbeat, hverify, bind, Except.bind, pure,
      Except.pure]
    exact ⟨_, rfl⟩

/-- A loaded state judges the age of the heartbeat that was read. -/
lemma load_heartbeat {state : RunState} (h : load t runDir now ttlSeconds = .ok state) :
    ∃ heartbeat, readHeartbeat t runDir = .ok heartbeat ∧
      state.heartbeat = heartbeat.map (statusFromHeartbeat now ttlSeconds) := by
  unfold load at h
  cases hmanifest : loadManifest t runDir with
  | error e => simp [hmanifest, bind, Except.bind] at h
  | ok manifest =>
    cases hmarkers : loadMarkers t runDir with
    | error e => simp [hmanifest, hmarkers, bind, Except.bind] at h
    | ok scan =>
      cases hheartbeat : readHeartbeat t runDir with
      | error e => simp [hmanifest, hmarkers, hheartbeat, bind, Except.bind] at h
      | ok heartbeat =>
        simp only [hmanifest, hmarkers, hheartbeat, bind, Except.bind, pure, Except.pure] at h
        split at h
        · cases h
        · cases h
          exact ⟨heartbeat, rfl, rfl⟩

end Load

section Status

variable [SummaryFormat B] {t : Disk B} {runDir : Path} {now : ℤ} {ttlSeconds : ℕ} {p : String} {state : RunState}

/-- The loader takes some file for a started marker of the phase. -/
def ReadAsStarted (t : Disk B) (runDir : Path) (p : String) : Prop :=
  ∃ name, statusOf t (markersDir runDir) name = some (p, .started)

lemma failedMarker_of_statusOf {name : String}
    (h : statusOf t (markersDir runDir) name = some (p, .failed)) :
    failedMarker t runDir p ≠ none := by
  have hphase := statusOf_phase h
  unfold statusOf at h
  obtain ⟨bytes, hfile, hread⟩ := Option.bind_eq_some_iff.mp h
  split at hread
  · obtain ⟨_, _, heq⟩ := Option.map_eq_some_iff.mp hread
    cases heq
  split at hread
  · next hfailed =>
    obtain ⟨q, rfl⟩ := endsWith_iff.mp hfailed
    rw [Resumability.markerPhase_failed] at hphase
    subst hphase
    simp [failedMarker, hfile]
  split at hread <;> cases hread

lemma markerHash_of_statusOf {name : String}
    (h : statusOf t (markersDir runDir) name = some (p, .completed)) :
    markerHash t runDir p ≠ none := by
  obtain ⟨rfl, -⟩ := Resumability.statusOf_completed h
  unfold statusOf at h
  obtain ⟨bytes, hfile, hread⟩ := Option.bind_eq_some_iff.mp h
  rw [if_pos (CommitProtocol.endsWith_completed p)] at hread
  obtain ⟨fields, hfields, -⟩ := Option.map_eq_some_iff.mp hread
  simp [markerHash, hashOf_completed, hfile, hfields]

lemma statusOf_ne_none {name : String} :
    statusOf t (markersDir runDir) name ≠ some (p, .none) := by
  unfold statusOf
  intro h
  obtain ⟨bytes, hfile, hread⟩ := Option.bind_eq_some_iff.mp h
  split at hread
  · obtain ⟨_, _, heq⟩ := Option.map_eq_some_iff.mp hread
    cases heq
  split at hread
  · cases hread
  split at hread <;> cases hread

lemma lookup_completed {hash : String} (h : markerHash t runDir p = some hash) :
    (scanOf t (markersDir runDir)).phaseStatus.lookup p = some .completed := by
  rw [markerHash, hashOf_completed] at h
  obtain ⟨fields, hfields, -⟩ := Option.map_eq_some_iff.mp h
  obtain ⟨bytes, hfile, hread⟩ := Option.bind_eq_some_iff.mp hfields
  have hdisk : CompletedOnDisk t (markersDir runDir) p := ⟨bytes, fields, hfile, hread⟩
  exact hdisk.status

/-- A failed marker decides where no completed one can be read. -/
lemma lookup_failed {bytes : B} (hopen : markerHash t runDir p = none)
    (hfile : failedMarker t runDir p = some bytes) :
    (scanOf t (markersDir runDir)).phaseStatus.lookup p = some .failed := by
  have hstatus := Resumability.statusOf_failed (t := t) (p := p) (Option.isSome_iff_exists.mpr ⟨bytes, hfile⟩)
  cases hlookup : (scanOf t (markersDir runDir)).phaseStatus.lookup p with
  | none => exact absurd hstatus (scanOf_status_eq_none.mp hlookup _ _)
  | some s =>
      obtain ⟨⟨name, hname⟩, hmax⟩ := scanOf_status_eq_some hlookup
      have hrank := hmax _ _ hstatus
      cases s with
      | failed => rfl
      | completed => exact absurd hopen (markerHash_of_statusOf hname)
      | started => simp [statusRank] at hrank
      | none => simp [statusRank] at hrank

/-- Without a terminal marker the phase is started or has no status. -/
lemma lookup_open (hopen : markerHash t runDir p = none) (hfailed : failedMarker t runDir p = none) :
    (scanOf t (markersDir runDir)).phaseStatus.lookup p = some .started ∧ ReadAsStarted t runDir p ∨
      (scanOf t (markersDir runDir)).phaseStatus.lookup p = none ∧ ¬ ReadAsStarted t runDir p := by
  cases hlookup : (scanOf t (markersDir runDir)).phaseStatus.lookup p with
  | none =>
      refine Or.inr ⟨rfl, ?_⟩
      rintro ⟨name, hname⟩
      exact scanOf_status_eq_none.mp hlookup name _ hname
  | some s =>
      obtain ⟨⟨name, hname⟩, -⟩ := scanOf_status_eq_some hlookup
      cases s with
      | failed => exact absurd hfailed (failedMarker_of_statusOf hname)
      | completed => exact absurd hopen (markerHash_of_statusOf hname)
      | none => exact absurd hname statusOf_ne_none
      | started => exact Or.inl ⟨rfl, name, hname⟩

end Status

section Agreement

variable [SummaryFormat B] {first : ℕ} {t : Disk B} {runDir : Path} {now : ℤ} {ttlSeconds : ℕ} {p : String}
  {state : RunState} {configs : List PhaseConfig}

/-- The heartbeat is no older than its time to live. -/
def Guarded (t : Disk B) (runDir : Path) (now : ℤ) (ttlSeconds : ℕ) : Prop :=
  ∃ heartbeat, readHeartbeat t runDir = .ok (some heartbeat) ∧
    now - heartbeat.tickAt ≤ 1000 * ttlSeconds

/-- The number after the largest one of the started markers and the attempt directories. -/
def NumberedNext (t : Disk B) (runDir : Path) (p : String) (n : ℕ) : Prop :=
  Scannable t runDir p ∧
    n = max (nextOf (startedAttempts t runDir p)) (nextOf (dirAttempts t runDir p))

/-- What the walk and the code must find alike about a phase. -/
structure Agreeable (first : ℕ) (t : Disk B) (runDir : Path) (now : ℤ) (ttlSeconds : ℕ)
    (p : String) : Prop where
  held : Guarded t runDir now ttlSeconds → markerHash t runDir p = none ∧
    failedMarker t runDir p = none ∧ Started t runDir p ∧ Held t runDir now ttlSeconds
  listed : ¬ Guarded t runDir now ttlSeconds → ∀ hash, markerHash t runDir p = some hash →
    ∃ m, manifestAt t runDir = some m ∧ ∃ e ∈ m.entries, e.sha256 = hash
  counted : ¬ Guarded t runDir now ttlSeconds → markerHash t runDir p = none →
    ∀ bytes, failedMarker t runDir p = some bytes → ∃ marker n,
      SummaryFormat.readFailedMarker bytes = some marker ∧ NumberedNext t runDir p n ∧
        n + first = marker.attemptsMade + 1
  attributed : ¬ Guarded t runDir now ttlSeconds → markerHash t runDir p = none →
    failedMarker t runDir p = none → (ReadAsStarted t runDir p ↔ Started t runDir p)
  numbered : ¬ Guarded t runDir now ttlSeconds → markerHash t runDir p = none →
    failedMarker t runDir p = none → Started t runDir p →
      ∃ a, LastStarted t runDir p a ∧ NumberedNext t runDir p (a + 1)

lemma not_held_of_not_guarded (h : ¬ Guarded t runDir now ttlSeconds) :
    ¬ Held t runDir now ttlSeconds := by
  rintro ⟨heartbeat, hread, hage⟩
  exact h ⟨heartbeat, hread, hage.le⟩

/-- Behind the guard every phase is refused. -/
lemma refused_iff (hguard : Guarded t runDir now ttlSeconds) :
    Prescribed first t runDir now ttlSeconds p .refuse ↔
      Agreeable first t runDir now ttlSeconds p := by
  constructor
  · intro h
    cases h with
    | held open_ unfailed started live =>
        exact ⟨fun _ => ⟨open_, unfailed, started, live⟩, fun h => absurd hguard h,
          fun h => absurd hguard h, fun h => absurd hguard h, fun h => absurd hguard h⟩
  · intro h
    obtain ⟨hopen, hfailed, hstarted, hlive⟩ := h.held hguard
    exact .held hopen hfailed hstarted hlive

/-- A digest that the manifest of a loaded directory lists leads to what it names. -/
lemma matches_iff {m : Manifest} (h : Loadable t runDir m) {hash : String}
    (hhash : markerHash t runDir p = some hash) :
    Matches t runDir hash ↔
      ∃ m, manifestAt t runDir = some m ∧ ∃ e ∈ m.entries, e.sha256 = hash := by
  constructor
  · rintro ⟨m', e, hm', hfind, -⟩
    exact ⟨m', hm', e, List.mem_of_find?_eq_some hfind, by simpa using List.find?_some hfind⟩
  · rintro ⟨m', hm', e, hmem, hsha⟩
    obtain rfl : m' = m := Option.some.inj (hm'.symm.trans h.manifest)
    obtain ⟨e', hfind⟩ : ∃ e', m'.entries.find? (·.sha256 = hash) = some e' := by
      rw [← Option.isSome_iff_exists, List.find?_isSome]
      exact ⟨e, hmem, by simpa using hsha⟩
    have hsha' : e'.sha256 = hash := by simpa using List.find?_some hfind
    have hdigest := h.kept e' (List.mem_of_find?_eq_some hfind)
      fun _ => ⟨p ++ ".completed", hsha'.symm ▸ hhash⟩
    exact ⟨m', e', hm', hfind, hsha' ▸ hdigest⟩

lemma skipped_iff {m : Manifest} (hloadable : Loadable t runDir m)
    (hguard : ¬ Guarded t runDir now ttlSeconds) {hash : String}
    (hhash : markerHash t runDir p = some hash) :
    Prescribed first t runDir now ttlSeconds p .skip ↔
      Agreeable first t runDir now ttlSeconds p := by
  have hclosed : markerHash t runDir p ≠ none := by simp [hhash]
  constructor
  · intro h
    cases h with
    | verified marker intact =>
        refine ⟨fun h => absurd h hguard, fun _ hash' hhash' => ?_, fun _ h => absurd h hclosed,
          fun _ h => absurd h hclosed, fun _ h => absurd h hclosed⟩
        have heq := Option.some.inj (marker.symm.trans hhash')
        subst heq
        exact (matches_iff hloadable marker).mp intact
  · intro h
    exact .verified hhash ((matches_iff hloadable hhash).mpr (h.listed hguard hash hhash))

lemma failed_rerun_iff (hguard : ¬ Guarded t runDir now ttlSeconds)
    (hopen : markerHash t runDir p = none) {bytes : B}
    (hfailed : failedMarker t runDir p = some bytes) :
    (∃ n, NumberedNext t runDir p n ∧ Prescribed first t runDir now ttlSeconds p (.rerun n)) ↔
      Agreeable first t runDir now ttlSeconds p := by
  have hunfailed : failedMarker t runDir p ≠ none := by simp [hfailed]
  constructor
  · rintro ⟨n, hnumber, h⟩
    cases h with
    | tampered marker _ =>
        rw [hopen] at marker
        cases marker
    | abandoned _ unfailed => exact absurd unfailed hunfailed
    | failed _ file read number =>
        refine ⟨fun h => absurd h hguard, fun _ hash hhash => ?_, fun _ _ bytes' hbytes' => ?_,
          fun _ _ h => absurd h hunfailed, fun _ _ h => absurd h hunfailed⟩
        · rw [hopen] at hhash
          cases hhash
        · have heq := Option.some.inj (file.symm.trans hbytes')
          subst heq
          exact ⟨_, n, read, hnumber, number⟩
  · intro h
    obtain ⟨marker, n, hread, hnumber, hcount⟩ := h.counted hguard hopen bytes hfailed
    exact ⟨n, hnumber, .failed hopen hfailed hread hcount⟩

lemma started_rerun_iff (hguard : ¬ Guarded t runDir now ttlSeconds)
    (hopen : markerHash t runDir p = none) (hfailed : failedMarker t runDir p = none)
    (hread : ReadAsStarted t runDir p) :
    (∃ n, NumberedNext t runDir p n ∧ Prescribed first t runDir now ttlSeconds p (.rerun n)) ↔
      Agreeable first t runDir now ttlSeconds p := by
  constructor
  · rintro ⟨n, hnumber, h⟩
    cases h with
    | tampered marker _ =>
        rw [hopen] at marker
        cases marker
    | failed _ file =>
        rw [hfailed] at file
        cases file
    | abandoned _ _ started _ last =>
        refine ⟨fun h => absurd h hguard, fun _ hash hhash => ?_, fun _ _ bytes hbytes => ?_,
          fun _ _ _ => ⟨fun _ => started, fun _ => hread⟩, fun _ _ _ _ => ⟨_, last, hnumber⟩⟩
        · rw [hopen] at hhash
          cases hhash
        · rw [hfailed] at hbytes
          cases hbytes
  · intro h
    have hstarted := (h.attributed hguard hopen hfailed).mp hread
    obtain ⟨a, hlast, hnumber⟩ := h.numbered hguard hopen hfailed hstarted
    exact ⟨a + 1, hnumber, .abandoned hopen hfailed hstarted (not_held_of_not_guarded hguard) hlast⟩

lemma fresh_iff (hguard : ¬ Guarded t runDir now ttlSeconds)
    (hopen : markerHash t runDir p = none) (hfailed : failedMarker t runDir p = none)
    (hunread : ¬ ReadAsStarted t runDir p) :
    Prescribed first t runDir now ttlSeconds p .fresh ↔
      Agreeable first t runDir now ttlSeconds p := by
  constructor
  · intro h
    cases h with
    | untouched _ _ unstarted =>
        refine ⟨fun h => absurd h hguard, fun _ hash hhash => ?_, fun _ _ bytes hbytes => ?_,
          fun _ _ _ => ⟨fun h => absurd h hunread, fun h => absurd h unstarted⟩,
          fun _ _ _ h => absurd h unstarted⟩
        · rw [hopen] at hhash
          cases hhash
        · rw [hfailed] at hbytes
          cases hbytes
  · intro h
    exact .untouched hopen hfailed fun hstarted =>
      hunread ((h.attributed hguard hopen hfailed).mpr hstarted)

/-- What the plan takes a status of the scan for. -/
lemma planPhase_of_rerun {q : WalkStep → Prop} {status : StatusMap}
    (h : planPhase t runDir status p = (nextAttempt t runDir p).map .resume) :
    (∃ action, planPhase t runDir status p = some action ∧ q (stepOf action)) ↔
      ∃ n, NumberedNext t runDir p n ∧ q (.rerun n) := by
  rw [h]
  constructor
  · rintro ⟨action, haction, hq⟩
    obtain ⟨n, hn, rfl⟩ := Option.map_eq_some_iff.mp haction
    exact ⟨n, nextAttempt_eq_some.mp hn, hq⟩
  · rintro ⟨n, hn, hq⟩
    exact ⟨.resume n, by rw [nextAttempt_eq_some.mpr hn, Option.map_some], hq⟩

/-- A planned phase gets a step of the walk exactly when both find it alike. -/
lemma planned_iff {m : Manifest} (hloadable : Loadable t runDir m)
    (hguard : ¬ Guarded t runDir now ttlSeconds) :
    (∃ action, planPhase t runDir (scanOf t (markersDir runDir)).phaseStatus p = some action ∧
      Prescribed first t runDir now ttlSeconds p (stepOf action)) ↔
    Agreeable first t runDir now ttlSeconds p := by
  cases hhash : markerHash t runDir p with
  | some hash =>
      have hplan : planPhase t runDir (scanOf t (markersDir runDir)).phaseStatus p = some .skip := by
        rw [planPhase, lookup_completed hhash]
      rw [← skipped_iff hloadable hguard hhash, hplan]
      simp only [Option.some.injEq, exists_eq_left', stepOf]
  | none =>
      cases hfailed : failedMarker t runDir p with
      | some bytes =>
          rw [← failed_rerun_iff hguard hhash hfailed]
          refine planPhase_of_rerun ?_
          rw [planPhase, lookup_failed hhash hfailed]
      | none =>
          rcases lookup_open hhash hfailed with ⟨hlookup, hread⟩ | ⟨hlookup, hunread⟩
          · rw [← started_rerun_iff hguard hhash hfailed hread]
            refine planPhase_of_rerun ?_
            rw [planPhase, hlookup]
          · rw [← fresh_iff hguard hhash hfailed hunread, planPhase, hlookup]
            simp only [Option.some.injEq, exists_eq_left', stepOf]

/-- The guard of a loaded state is the heartbeat that is not too old. -/
lemma live_iff (h : load t runDir now ttlSeconds = .ok state) :
    (∃ heartbeat, state.heartbeat = some (.live heartbeat)) ↔ Guarded t runDir now ttlSeconds := by
  obtain ⟨found, hread, hstate⟩ := load_heartbeat h
  rw [hstate]
  cases found with
  | none =>
      constructor
      · rintro ⟨heartbeat, h⟩
        cases h
      · rintro ⟨heartbeat, hsome, -⟩
        rw [hread] at hsome
        cases hsome
  | some heartbeat =>
      constructor
      · rintro ⟨heartbeat', h⟩
        refine ⟨heartbeat, hread, ?_⟩
        simp only [Option.map_some, statusFromHeartbeat] at h
        split at h
        · cases h
        · next hage => exact not_lt.mp hage
      · rintro ⟨heartbeat', hsome, hage⟩
        rw [hread] at hsome
        cases hsome
        exact ⟨heartbeat, by simp [statusFromHeartbeat, not_lt.mpr hage]⟩

lemma decisions_guarded (h : load t runDir now ttlSeconds = .ok state)
    (hguard : Guarded t runDir now ttlSeconds) :
    decisions t runDir now ttlSeconds configs = some (configs.map fun cfg => (cfg, .refuse)) := by
  obtain ⟨heartbeat, hlive⟩ := (live_iff h).mpr hguard
  unfold decisions
  rw [h]
  simp only [hlive]

lemma decisions_planned (h : load t runDir now ttlSeconds = .ok state)
    (hguard : ¬ Guarded t runDir now ttlSeconds) {steps : List (PhaseConfig × WalkStep)} :
    decisions t runDir now ttlSeconds configs = some steps ↔
      ∃ actions, plan t runDir state configs = .ok actions ∧
        actions.map (fun x => (x.1, stepOf x.2)) = steps := by
  unfold decisions
  rw [h]
  dsimp only
  split
  · next heartbeat hlive => exact absurd ((live_iff h).mp ⟨heartbeat, hlive⟩) hguard
  · cases plan t runDir state configs with
    | ok actions => simp
    | error e => simp

end Agreement

section Tampered

open CrashHistories Programs RunOps

/-- The run after its first phase, with that phase's artefact edited. -/
def edited : Disk Doc :=
  (writeFile afterDesign.disk ["run", "design.md"] (.text "edited")).getD Disk.empty

lemma edited_load : load edited ["run"] 0 60 =
    .error (.artefactCorrupt "/run/design.md" "tone" "tedited") := by decide

lemma review_unstarted : ¬ Started edited ["run"] "review" := by
  rintro ⟨name, hname, hfile⟩
  obtain ⟨b, hb⟩ := Option.isSome_iff_exists.mp hfile
  have hmem := mem_readDir_of_fileAt hb
  have hlisted : ∀ s ∈ readDir edited (markersDir ["run"]), s.toList.head? = some 'd' := by decide
  have hhead := hlisted name hmem
  rcases hname with rfl | ⟨n, rfl⟩
  · exact absurd hhead (by decide)
  · rw [String.append_assoc, String.toList_append] at hhead
    simp at hhead

end Tampered

end Loker.ReadProtocol
