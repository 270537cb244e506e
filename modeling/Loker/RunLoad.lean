import Loker.RunFiles

/-! Loading a run directory: the manifest with its orphan sweep, the marker scan, the digest
check of the kept entries and the next attempt number of a phase. -/

namespace Loker.RunLoad

open FileTree TextOps RunFiles

variable {B : Type} [RunFormat B]

inductive PhaseStatus where
  | none
  | started
  | failed
  | completed
  deriving DecidableEq, Repr

def statusRank : PhaseStatus → ℕ
  | .none => 0
  | .started => 1
  | .failed => 2
  | .completed => 3

inductive LoadError where
  | artefactSchemaMismatch (expected found : ℕ) (path : String)
  | artefactMissing (path : String)
  | artefactCorrupt (path : String) (expected found : String)
  | io
  | json
  deriving DecidableEq, Repr

inductive ManifestError where
  | io
  | json
  | phase (detail : String)
  deriving DecidableEq, Repr

inductive HeartbeatStatus where
  | live (heartbeat : Heartbeat)
  | stale (lastTick : ℤ) (ttlSeconds : ℕ)
  deriving DecidableEq, Repr

/-- The statuses of the phases that have a marker, each phase once. -/
abbrev StatusMap := List (String × PhaseStatus)

structure RunState where
  runId : String
  entries : List ManifestEntry
  droppedOrphans : List ManifestEntry
  phaseStatus : StatusMap
  heartbeat : Option HeartbeatStatus
  deriving DecidableEq, Repr

section Markers

/-- The phase a marker file name stands for. -/
def markerPhase (fileName : String) : String :=
  ((stripSuffix fileName ".completed").or <|
    (stripSuffix fileName ".failed").or <|
    stripSuffix fileName ".started").getD (beforeFirst fileName ".started.")

def updatePhaseStatus (map : StatusMap) (phase : String) (status : PhaseStatus) : StatusMap :=
  match map.lookup phase with
  | some current =>
      if statusRank current < statusRank status then
        (phase, status) :: map.filter (·.1 ≠ phase)
      else map
  | none => (phase, status) :: map

structure MarkerScan where
  phaseStatus : StatusMap
  completedHashes : List String
  hasCompletedMarkers : Bool
  deriving DecidableEq, Repr

/-- One file of the markers directory; a completed marker that does not parse is skipped. -/
def scanMarker (t : Disk B) (dir : Path) (scan : MarkerScan) (fileName : String) : MarkerScan :=
  match fileAt t (dir ++ [fileName]) with
  | none => scan
  | some bytes =>
      let phase := markerPhase fileName
      if endsWith fileName ".completed" then
        match RunFormat.readCompleted bytes with
        | some marker =>
            ⟨updatePhaseStatus scan.phaseStatus phase .completed,
              marker.manifestEntrySha256 :: scan.completedHashes, true⟩
        | none => scan
      else if endsWith fileName ".failed" then
        { scan with phaseStatus := updatePhaseStatus scan.phaseStatus phase .failed }
      else if contains fileName ".started" then
        { scan with phaseStatus := updatePhaseStatus scan.phaseStatus phase .started }
      else scan

def loadMarkers (t : Disk B) (runDir : Path) : Except LoadError MarkerScan :=
  let dir := markersDir runDir
  if occupied t dir = false then .ok ⟨[], [], false⟩
  else if isDir t dir = false then .error .io
  else .ok ((readDir t dir).foldl (scanMarker t dir) ⟨[], [], false⟩)

end Markers

def displayPath (p : Path) : String := "/" ++ "/".intercalate p

/-- A name as the errors show it below the run directory. -/
def displayJoin (runDir : Path) (name : String) : String :=
  if startsWith name "/" then name else displayPath runDir ++ "/" ++ name

section ManifestLoad

/-- The digests that the completed markers mention. -/
def referencedHashes (t : Disk B) (dir : Path) : List String :=
  (readDir t dir).filterMap fun name =>
    if endsWith name ".completed" then
      (fileAt t (dir ++ [name])).bind RunFormat.readCompletedHash
    else none

/-- `Manifest::load`: entries that no completed marker mentions are dropped. -/
def manifestLoad (t : Disk B) (runDir : Path) : Except ManifestError Manifest :=
  match fileAt t (manifestPath runDir) with
  | none => .error .io
  | some bytes =>
      match RunFormat.readManifest bytes with
      | none => .error .json
      | some manifest =>
          if manifest.schemaVersion ≠ 1 then
            .error (.phase ("manifest schema_version is " ++ manifest.schemaVersion.repr ++
              "; only v1 is supported"))
          else
            let dir := markersDir runDir
            let entries :=
              if isDir t dir then
                manifest.entries.filter fun e => e.sha256 ∈ referencedHashes t dir
              else manifest.entries
            match entries.find? fun e => e.schemaVersion ≠ 1 with
            | some e =>
                .error (.phase ("entry '" ++ e.name ++ "' has schema_version " ++
                  e.schemaVersion.repr ++ "; only v1 is supported"))
            | none => .ok { manifest with entries := entries }

/-- The manifest as `RunState::load` reads it, with every entry. -/
def loadManifest (t : Disk B) (runDir : Path) : Except LoadError Manifest :=
  match fileAt t (manifestPath runDir) with
  | none => .error .io
  | some bytes =>
      match RunFormat.readManifest bytes with
      | none => .error .json
      | some manifest =>
          if manifest.schemaVersion ≠ 1 then
            .error (.artefactSchemaMismatch 1 manifest.schemaVersion
              (displayPath (manifestPath runDir)))
          else
            match manifest.entries.find? fun e => e.schemaVersion ≠ 1 with
            | some e => .error (.artefactSchemaMismatch 1 e.schemaVersion e.name)
            | none => .ok manifest

end ManifestLoad

section Verify

/-- The files below a directory with their digests, in the order of their relative paths. -/
def dirDigest (t : Disk B) (root : Path) : Option String :=
  if isDir t root then
    let below := (t.support.filter fun q => root.isPrefixOf q).dedup
    let files := below.filterMap fun q =>
      (fileAt t q).map fun b => ("/".intercalate (q.drop root.length), RunFormat.sha256Hex b)
    let sorted := files.insertionSort fun a b => a.1 ≤ b.1
    let lines := sorted.map fun f => f.1 ++ "\t" ++ f.2 ++ "\n"
    some (RunFormat.sha256Hex (RunFormat.ofText (String.join lines) : B))
  else none

/-- An entry's file must exist and have the recorded digest. -/
def verifyEntry (t : Disk B) (runDir : Path) (e : ManifestEntry) : Except LoadError Unit :=
  let path := join runDir e.name
  if occupied t path = false then .error (.artefactMissing (displayJoin runDir e.name))
  else
    let computed :=
      if e.kind = .changesDir then dirDigest t path
      else (fileAt t path).map RunFormat.sha256Hex
    match computed with
    | none => .error .io
    | some found =>
        if found ≠ e.sha256 then
          .error (.artefactCorrupt (displayJoin runDir e.name) e.sha256 found)
        else .ok ()

def verifyEntries (t : Disk B) (runDir : Path) (entries : List ManifestEntry) :
    Except LoadError Unit :=
  entries.forM (verifyEntry t runDir)

def orphanSweep (entries : List ManifestEntry) (completedHashes : List String) :
    List ManifestEntry × List ManifestEntry :=
  entries.partition fun e => e.sha256 ∈ completedHashes

def readHeartbeat (t : Disk B) (runDir : Path) : Except LoadError (Option Heartbeat) :=
  if occupied t (heartbeatPath runDir) = false then .ok none
  else
    match fileAt t (heartbeatPath runDir) with
    | none => .error .io
    | some bytes =>
        match RunFormat.readHeartbeat bytes with
        | none => .error .json
        | some heartbeat => .ok (some heartbeat)

def statusFromHeartbeat (now : ℤ) (ttlSeconds : ℕ) (heartbeat : Heartbeat) : HeartbeatStatus :=
  if now - heartbeat.tickAt > 1000 * ttlSeconds then .stale heartbeat.tickAt ttlSeconds
  else .live heartbeat

/-- `RunState::load` at the time `now`. -/
def load (t : Disk B) (runDir : Path) (now : ℤ) (ttlSeconds : ℕ) : Except LoadError RunState := do
  let manifest ← loadManifest t runDir
  let scan ← loadMarkers t runDir
  let (entries, dropped) :=
    if scan.hasCompletedMarkers then orphanSweep manifest.entries scan.completedHashes
    else (manifest.entries, [])
  let heartbeat ← readHeartbeat t runDir
  verifyEntries t runDir entries
  pure ⟨manifest.runId, entries, dropped, scan.phaseStatus,
    heartbeat.map (statusFromHeartbeat now ttlSeconds)⟩

end Verify

section NextAttempt

/-- One more than the largest number, in 32 bits, or zero without any. -/
def nextOf (attempts : List ℕ) : ℕ :=
  match attempts.max? with
  | some m => (m + 1) % 2 ^ 32
  | none => 0

/-- A started marker that cannot be read is an error. -/
def nextAttemptFromMarkers (t : Disk B) (dir : Path) (phase : String) : Option ℕ :=
  if occupied t dir = false then some 0
  else if isDir t dir = false then none
  else do
    let names := (readDir t dir).filter (startsWith · (phase ++ ".started."))
    let attempts ← names.mapM fun name =>
      ((fileAt t (dir ++ [name])).bind RunFormat.readStarted).map StartedMarker.attempt
    pure (nextOf attempts)

def nextAttemptFromDirs (t : Disk B) (dir : Path) : Option ℕ :=
  if occupied t dir = false then some 0
  else if isDir t dir = false then none
  else
    let names := (readDir t dir).filter fun name => isDir t (dir ++ [name])
    some (nextOf (names.filterMap parseU32))

def nextAttempt (t : Disk B) (runDir : Path) (phase : String) : Option ℕ := do
  let markerMax ← nextAttemptFromMarkers t (markersDir runDir) phase
  let dirMax ← nextAttemptFromDirs t (join (runDir ++ ["attempts"]) phase)
  pure (max markerMax dirMax)

end NextAttempt

section StatusMap

lemma lookup_cons_ne {β : Type} {map : List (String × β)} {p q : String} {s : β} (h : q ≠ p) :
    List.lookup q ((p, s) :: map) = List.lookup q map := by
  simp [List.lookup_cons, beq_eq_false_iff_ne.mpr h]

lemma lookup_filter_ne {β : Type} {map : List (String × β)} {p q : String} (h : q ≠ p) :
    (map.filter (·.1 ≠ p)).lookup q = map.lookup q := by
  induction map with
  | nil => rfl
  | cons x map ih =>
      rcases x with ⟨r, s⟩
      by_cases hr : r = p
      · subst hr
        simpa [lookup_cons_ne h] using ih
      · by_cases hq : q = r
        · simp [hq, hr]
        · simpa [lookup_cons_ne hq, hr] using ih

/-- The better of a status that may be missing and a new one. -/
def better : Option PhaseStatus → PhaseStatus → PhaseStatus
  | none, s => s
  | some current, s => if statusRank current < statusRank s then s else current

lemma lookup_updatePhaseStatus (map : StatusMap) (p q : String) (s : PhaseStatus) :
    (updatePhaseStatus map p s).lookup q =
      if q = p then some (better (map.lookup p) s) else map.lookup q := by
  unfold updatePhaseStatus
  split
  · next current hcurrent =>
    split
    · next hlt =>
      by_cases hq : q = p
      · simp [hq, hcurrent, better, hlt]
      · simpa [lookup_cons_ne hq, hq] using lookup_filter_ne hq
    · next hge =>
      by_cases hq : q = p
      · simp [hq, hcurrent, better, hge]
      · simp [hq]
  · next hnone =>
    by_cases hq : q = p
    · simp [hq, hnone, better]
    · simp [lookup_cons_ne hq, hq]

def addAll (map : StatusMap) (found : List (String × PhaseStatus)) : StatusMap :=
  found.foldl (fun m x => updatePhaseStatus m x.1 x.2) map

lemma statusRank_injective : Function.Injective statusRank := by
  intro a b h
  cases a <;> cases b <;> simp [statusRank] at h <;> rfl

lemma rank_better (o : Option PhaseStatus) (s : PhaseStatus) :
    statusRank s ≤ statusRank (better o s) ∧
      ∀ current, o = some current → statusRank current ≤ statusRank (better o s) := by
  cases o with
  | none => simp [better]
  | some current =>
      simp only [better]
      split
      · simp_all; omega
      · simp_all

lemma better_eq (o : Option PhaseStatus) (s : PhaseStatus) :
    better o s = s ∨ o = some (better o s) := by
  cases o with
  | none => exact Or.inl rfl
  | some current =>
      simp only [better]
      split <;> simp

/-- A phase has the highest status found for it. -/
lemma lookup_addAll_eq_some {map : StatusMap} {found : List (String × PhaseStatus)} {p : String}
    {s : PhaseStatus} (h : (addAll map found).lookup p = some s) :
    ((p, s) ∈ found ∨ map.lookup p = some s) ∧
      (∀ s', (p, s') ∈ found → statusRank s' ≤ statusRank s) ∧
      ∀ s', map.lookup p = some s' → statusRank s' ≤ statusRank s := by
  induction found generalizing map with
  | nil =>
      have hmap : map.lookup p = some s := h
      exact ⟨Or.inr hmap, by simp, fun s' hs' => by simp_all⟩
  | cons x found ih =>
      obtain ⟨r, s₁⟩ := x
      obtain ⟨hfrom, hfound, hmap⟩ := ih h
      rw [lookup_updatePhaseStatus] at hfrom hmap
      by_cases hp : p = r
      · subst hp
        simp only [if_true, Option.some.injEq, forall_eq'] at hfrom hmap
        have hrank := rank_better (map.lookup p) s₁
        refine ⟨?_, fun s' hs' => ?_, fun s' hs' => (hrank.2 s' hs').trans hmap⟩
        · rcases hfrom with hmem | hs
          · exact Or.inl (List.mem_cons_of_mem _ hmem)
          · rcases better_eq (map.lookup p) s₁ with hb | hb
            · exact Or.inl (by simp [← hs, hb])
            · exact Or.inr (hs ▸ hb)
        · rcases List.mem_cons.mp hs' with heq | hmem
          · obtain rfl := (Prod.mk.inj heq).2
            exact hrank.1.trans hmap
          · exact hfound s' hmem
      · simp only [hp, if_false] at hfrom hmap
        refine ⟨?_, fun s' hs' => ?_, hmap⟩
        · exact hfrom.imp_left (List.mem_cons_of_mem _)
        · rcases List.mem_cons.mp hs' with heq | hmem
          · exact absurd (Prod.mk.inj heq).1 hp
          · exact hfound s' hmem

lemma lookup_addAll_eq_none {map : StatusMap} {found : List (String × PhaseStatus)}
    {p : String} :
    (addAll map found).lookup p = none ↔ map.lookup p = none ∧ ∀ s, (p, s) ∉ found := by
  induction found generalizing map with
  | nil => simp [addAll]
  | cons x found ih =>
      obtain ⟨r, s₁⟩ := x
      have hstep := @ih (updatePhaseStatus map r s₁)
      rw [lookup_updatePhaseStatus] at hstep
      rw [show addAll map ((r, s₁) :: found) = addAll (updatePhaseStatus map r s₁) found from rfl,
        hstep]
      by_cases hp : p = r
      · subst hp
        exact ⟨fun h => absurd h.1 (by simp), fun h => absurd List.mem_cons_self (h.2 s₁)⟩
      · simp [hp]

end StatusMap

end Loker.RunLoad
