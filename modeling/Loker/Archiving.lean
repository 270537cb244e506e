import Loker.CompletedRuns
import Loker.ReadProtocol

/-! Archiving the current attempt of a phase, and which files and statuses of the other phases it
leaves as they are. -/

namespace Loker.Archiving

open FileTree TextOps Programs RunFiles RunLoad LoadSpec RunOps Dispatch Strategies PhaseRunner
  Resume PhaseBridge CompletedRuns SkippedPhases ReadProtocol

variable {B : Type} {runDir : Path} {phases : List Grammar.Phase} {p : Grammar.Phase}
  {attempt : ℕ} {t u v : Disk B} {q : Path}

section Frame

/-- What the program keeps for itself in a run directory, apart from the attempts. -/
def programEntries : List String :=
  ["manifest.json", "heartbeat.json", "markers", "locks", ".lock", "pending", "responses",
    "summary.json", "trace.jsonl"]

/-- The artefact of a phase, or a file that its strategy writes. -/
def PhaseFile (runDir : Path) (phase : Grammar.Phase) (q : Path) : Prop :=
  q = join runDir phase.output ∨ ∃ name, Writes phase name ∧ q = join runDir name

/-- The paths that are not of the phase's own attempt. -/
inductive Foreign (runDir : Path) (phases : List Grammar.Phase) (p : Grammar.Phase) : Path → Prop
  | other {r : Grammar.Phase} {q : Path} (mem : r ∈ phases) (ne : r.name ≠ p.name)
      (file : PhaseFile runDir r q) : Foreign runDir phases p q
  | program {s : String} {q : Path} (mem : s ∈ programEntries)
      (below : runDir ++ [s] <+: q) : Foreign runDir phases p q
  | archived {q : Path} (below : runDir ++ ["attempts"] <+: q)
      (notOwn : ¬ PhaseFile runDir p q) :
      Foreign runDir phases p q
  | outside {q : Path} (away : ¬ runDir <+: q) (notOwn : ¬ PhaseFile runDir p q) :
      Foreign runDir phases p q

variable [RunFormat B]

/-- The files that are not the phase's own are where they were, and if the run directory loads, it
still does, with the same status for every other phase. -/
structure Framed (runDir : Path) (phases : List Grammar.Phase) (p : Grammar.Phase)
    (t t' : Disk B) : Prop where
  files : ∀ q b, Foreign runDir phases p q → fileAt t q = some b → fileAt t' q = some b
  statuses : ∀ now ttlSeconds state, load t runDir now ttlSeconds = .ok state →
    ∃ state', load t' runDir now ttlSeconds = .ok state' ∧
      ∀ r ∈ phases, r.name ≠ p.name →
        state'.phaseStatus.lookup r.name = state.phaseStatus.lookup r.name

/-- Every archiving of the attempt, also one that fails, has the frame. -/
def KeepsFrame (runDir : Path) (phases : List Grammar.Phase) (p : Grammar.Phase) (attempt : ℕ)
    (t : Disk B) : Prop :=
  ∀ log tr r w', Runs (ρ := Except ResumeError Unit) perform
    (archiveCurrentAttempt runDir p.name attempt) ⟨t, log⟩ tr r w' →
      Framed runDir phases p t w'.disk

end Frame

section Outcome

/-- Where the attempts of a phase go. -/
def attemptsOf (runDir : Path) (phase : String) : Path := join (runDir ++ ["attempts"]) phase

lemma archiveDest_eq {phase : String} :
    archiveDest runDir phase attempt = attemptsOf runDir phase ++ [attempt.repr] :=
  join_of_isName (isName_repr attempt)

/-- The disks that an archiving of a phase's attempt can end with. -/
inductive Outcome (runDir : Path) (phase : String) (attempt : ℕ) (t : Disk B) : Disk B → Prop
  | untouched : Outcome runDir phase attempt t t
  | prepared {u : Disk B} (there : occupied t (join runDir phase) = true)
      (create : createDirAll t (attemptsOf runDir phase) = some u) :
      Outcome runDir phase attempt t u
  | moved {u v : Disk B} (there : occupied t (join runDir phase) = true)
      (create : createDirAll t (attemptsOf runDir phase) = some u)
      (move : rename u (join runDir phase) (archiveDest runDir phase attempt) = some v) :
      Outcome runDir phase attempt t v

variable [RunFormat B] {phase : String} {w : World B}

lemma moveAttempt_ends {src dst : Path} :
    Finishes perform
      (fun (_ : Unit) w' => w'.disk = w.disk ∨ rename w.disk src dst = some w'.disk)
      (fun _ w' => w'.disk = w.disk ∨ rename w.disk src dst = some w'.disk)
      (moveAttempt src dst) w := by
  unfold moveAttempt
  refine Finishes.bind (Finishes.op (S := RunSig B) (o := .occupied dst) fun there w₁ hact => ?_)
  obtain ⟨rfl, -⟩ := hact
  split
  · exact Finishes.throw (Or.inl rfl)
  · refine Finishes.bind (Finishes.op fun answer w₂ hact => ?_)
    have hdisk : w₂.disk = w₁.disk ∨ rename w₁.disk src dst = some w₂.disk := by
      rcases hact with ⟨v, hmove, rfl, -⟩ | ⟨rfl, -⟩
      · exact Or.inr hmove
      · exact Or.inl rfl
    cases answer with
    | ok u => exact Finishes.pure hdisk
    | error e => exact Finishes.throw hdisk

/-- Every run ends with one of these disks. -/
lemma archive_outcome :
    Finishes perform (fun (_ : Unit) w' => Outcome runDir phase attempt w.disk w'.disk)
      (fun _ w' => Outcome runDir phase attempt w.disk w'.disk)
      (archiveCurrentAttempt runDir phase attempt) w := by
  unfold archiveCurrentAttempt
  refine Finishes.bind (Finishes.op (S := RunSig B) (o := .occupied (join runDir phase))
    fun there w₁ hact => ?_)
  obtain ⟨rfl, hthere⟩ := hact
  split
  swap
  · exact Finishes.pure .untouched
  next hyes =>
  have hsource : occupied w₁.disk (join runDir phase) = true := hthere.symm.trans hyes
  refine Finishes.bind (Finishes.bind (Finishes.op fun answer w₂ hact => ?_))
  rcases hact with ⟨u, hcreate, rfl, rfl⟩ | ⟨rfl, message, rfl⟩
  · refine Finishes.pure (moveAttempt_ends.mono ?_ ?_)
    all_goals
      intro _ w₃ hdisk
      rcases hdisk with hsame | hmove
      · rw [hsame]
        exact .prepared hsource hcreate
      · exact .moved hsource hcreate hmove
  · exact Finishes.throw .untouched

lemma occupied_answers {src : Path} {answer : Bool} (h : occupied w.disk src = answer) :
    perform (.occupied src) w (show Answer B (.occupied src) from answer) w :=
  ⟨rfl, h.symm⟩

/-- The end of a run that prepares the place of the attempt. -/
lemma prepared_runs_of {log : List Marker} (there : occupied t (join runDir phase) = true)
    (create : createDirAll t (attemptsOf runDir phase) = some u) {tr : List (Event (RunSig B))}
    {r : Except ResumeError Unit} {w' : World B}
    (rest : Runs (ρ := Except ResumeError Unit) perform
      (moveAttempt (join runDir phase) (archiveDest runDir phase attempt)) ⟨u, log⟩ tr r w') :
    ∃ tr r, Runs (ρ := Except ResumeError Unit) perform
      (archiveCurrentAttempt runDir phase attempt) ⟨t, log⟩ tr r w' := by
  have hthere := occupied_answers (w := ⟨t, log⟩) there
  have hcreate : perform (.createDirAll (attemptsOf runDir phase)) ⟨t, log⟩ (.ok ()) ⟨u, log⟩ :=
    Or.inl ⟨u, create, rfl, rfl⟩
  exact ⟨_, r, .act hthere (.act hcreate rest)⟩

/-- A run can stop short of the move, as the system may refuse it. -/
lemma prepared_runs (attempt : ℕ) (log : List Marker)
    (there : occupied t (join runDir phase) = true)
    (create : createDirAll t (attemptsOf runDir phase) = some u) :
    ∃ tr r, Runs (ρ := Except ResumeError Unit) perform
      (archiveCurrentAttempt runDir phase attempt) ⟨t, log⟩ tr r ⟨u, log⟩ := by
  cases hfree : occupied u (archiveDest runDir phase attempt) with
  | true =>
      have htaken := occupied_answers (w := ⟨u, log⟩) hfree
      exact prepared_runs_of there create (.act htaken .stop)
  | false =>
      have hasked := occupied_answers (w := ⟨u, log⟩) hfree
      have hrefused : perform (.rename (join runDir phase) (archiveDest runDir phase attempt))
          ⟨u, log⟩ (.error "") ⟨u, log⟩ := Or.inr ⟨rfl, "", rfl⟩
      exact prepared_runs_of there create (.act hasked (.act hrefused .stop))

lemma moved_runs (log : List Marker) (there : occupied t (join runDir phase) = true)
    (create : createDirAll t (attemptsOf runDir phase) = some u)
    (move : rename u (join runDir phase) (archiveDest runDir phase attempt) = some v) :
    ∃ tr r, Runs (ρ := Except ResumeError Unit) perform
      (archiveCurrentAttempt runDir phase attempt) ⟨t, log⟩ tr r ⟨v, log⟩ := by
  obtain ⟨hmovable, -⟩ := rename_eq_some.mp move
  have hasked := occupied_answers (w := ⟨u, log⟩) hmovable.target_free
  have hmove : perform (.rename (join runDir phase) (archiveDest runDir phase attempt)) ⟨u, log⟩
      (.ok ()) ⟨v, log⟩ := Or.inl ⟨v, move, rfl, rfl⟩
  exact prepared_runs_of there create (.act hasked (.act hmove .stop))

end Outcome

section Moves

/-- Nothing that the archiving tests stands in the way of the move. -/
structure CanMove (runDir : Path) (phase : String) (attempt : ℕ) (t : Disk B) : Prop where
  there : occupied t (join runDir phase) = true
  open_ : ¬ blocked t (attemptsOf runDir phase)
  free : occupied t (archiveDest runDir phase attempt) = false
  apart : ¬ join runDir phase <+: archiveDest runDir phase attempt

variable {phase : String}

lemma CanMove.moved (h : CanMove runDir phase attempt t) :
    ∃ u v, createDirAll t (attemptsOf runDir phase) = some u ∧
      rename u (join runDir phase) (archiveDest runDir phase attempt) = some v := by
  have hcreate := createDirAll_eq_some.mpr ⟨h.open_, rfl⟩
  have hthere : t.node (join runDir phase) ≠ none := by
    simpa [occupied, Option.isSome_iff_ne_none] using h.there
  have hmovable : Movable (addDirs t (attemptsOf runDir phase)) (join runDir phase)
      (archiveDest runDir phase attempt) := by
    refine ⟨?_, ?_, ?_, h.apart⟩
    · rw [occupied, createDirAll_keeps hcreate hthere]
      exact h.there
    · rw [occupied, createDirAll_node hcreate, if_neg]
      · exact h.free
      · intro hpre
        have hle := hpre.length_le
        rw [archiveDest_eq, List.length_append, List.length_singleton] at hle
        omega
    · rw [archiveDest_eq, List.dropLast_concat]
      exact createDirAll_isDir hcreate
  exact ⟨_, _, hcreate, rename_eq_some.mpr ⟨hmovable, rfl⟩⟩

/-- The two changes of an archiving that moves the attempt. -/
structure Moved (runDir : Path) (phase : String) (attempt : ℕ) (t u v : Disk B) : Prop where
  there : occupied t (join runDir phase) = true
  create : createDirAll t (attemptsOf runDir phase) = some u
  move : rename u (join runDir phase) (archiveDest runDir phase attempt) = some v

namespace Moved

variable (h : Moved runDir phase attempt t u v)
include h

lemma unused : t.node (archiveDest runDir phase attempt) = none := by
  obtain ⟨hmovable, -⟩ := rename_eq_some.mp h.move
  have hfree : u.node (archiveDest runDir phase attempt) = none := by
    simpa [occupied] using hmovable.target_free
  by_contra hne
  rw [createDirAll_keeps h.create hne] at hfree
  exact hne hfree

lemma canMove : CanMove runDir phase attempt t := by
  obtain ⟨hmovable, -⟩ := rename_eq_some.mp h.move
  refine ⟨h.there, (createDirAll_eq_some.mp h.create).1, ?_, hmovable.not_inside⟩
  simp [occupied, h.unused]

/-- What was there before is not below the place of the attempt. -/
lemma not_below (hq : t.node q ≠ none) : ¬ archiveDest runDir phase attempt <+: q :=
  fun hpre => hq (node_below_none hpre h.unused)

lemma gone (hsrc : join runDir phase <+: q) (hdest : ¬ archiveDest runDir phase attempt <+: q) :
    v.node q = none := by
  obtain ⟨_, rfl⟩ := rename_eq_some.mp h.move
  exact (if_neg hdest).trans (if_pos hsrc)

lemma stays (hsrc : ¬ join runDir phase <+: q) (hdest : ¬ archiveDest runDir phase attempt <+: q) :
    fileAt v q = fileAt t q := by
  rw [← createDirAll_fileAt h.create]
  exact fileAt_congr (rename_node h.move hsrc hdest)

/-- A file is where it was unless it lies below the moved path. -/
lemma file_stays_iff {b : B} (hb : fileAt t q = some b) :
    fileAt v q = some b ↔ ¬ join runDir phase <+: q := by
  have hdest := h.not_below (q := q) (by simp [fileAt_eq_some.mp hb])
  constructor
  · intro hv hsrc
    rw [fileAt_eq_some, h.gone hsrc hdest] at hv
    cases hv
  · intro hsrc
    rw [h.stays hsrc hdest, hb]

/-- Beside the run directory's own names the place of the attempt is no entry of it. -/
lemma not_entry {s : String} (hdir : t.node runDir ≠ none) (hs : s ≠ attempt.repr) :
    ¬ archiveDest runDir phase attempt <+: runDir ++ [s] := by
  intro hpre
  rcases List.prefix_concat_iff.mp hpre with heq | habove
  · rw [archiveDest_eq] at heq
    exact hs (List.cons.inj (List.append_inj' heq rfl).2).1.symm
  · exact h.not_below hdir habove

end Moved

end Moves

section Load

variable [RunFormat B] {m : Manifest} {phase : String}

/-- A number's digits are no marker's name. -/
lemma not_suffix_repr {s : String} {c : Char} (hc : c ∈ s.toList) (hdigit : c.isDigit = false)
    (n : ℕ) : ¬ s.toList <:+: n.repr.toList := by
  intro h
  have hmem := isDigit_of_mem_repr (h.subset hc)
  rw [hdigit] at hmem
  cases hmem

lemma endsWith_repr {s : String} {c : Char} (hc : c ∈ s.toList) (hdigit : c.isDigit = false)
    (n : ℕ) : endsWith n.repr s = false := by
  by_contra h
  rw [Bool.not_eq_false, endsWith, List.isSuffixOf_iff_suffix] at h
  exact not_suffix_repr hc hdigit n h.isInfix

lemma statusOf_repr (t : Disk B) (dir : Path) (n : ℕ) : statusOf t dir n.repr = none := by
  have hcompleted := endsWith_repr (s := ".completed") (c := 'c') (by decide) (by decide) n
  have hfailed := endsWith_repr (s := ".failed") (c := 'f') (by decide) (by decide) n
  have hstarted : contains n.repr ".started" = false :=
    decide_eq_false (not_suffix_repr (c := 's') (by decide) (by decide) n)
  unfold statusOf
  cases fileAt t (dir ++ [n.repr]) <;> simp [hcompleted, hfailed, hstarted]

/-- What the markers say is the same, and what loading reads can still be read. -/
structure SameState (runDir : Path) (m : Manifest) (t t' : Disk B) : Prop where
  manifest : manifestAt t' runDir = manifestAt t runDir
  markers : fileAt t' (markersDir runDir) = none
  status : ∀ name, statusOf t' (markersDir runDir) name = statusOf t (markersDir runDir) name
  hash : ∀ name, hashOf t' (markersDir runDir) name = hashOf t (markersDir runDir) name
  heartbeat : ∃ heartbeat, readHeartbeat t' runDir = .ok heartbeat

lemma SameState.sweepKeeps (h : SameState runDir m t u) (e : ManifestEntry) :
    SweepKeeps u runDir e ↔ SweepKeeps t runDir e := by
  simp only [SweepKeeps, Mentioned, h.hash]

lemma SameState.loadable (h : SameState runDir m t u) (hm : Loadable t runDir m)
    (hkinds : ∀ e ∈ m.entries, e.kind ≠ .changesDir)
    (hfiles : ∀ e ∈ m.entries, SweepKeeps t runDir e →
      fileAt u (join runDir e.name) = fileAt t (join runDir e.name)) : Loadable u runDir m where
  manifest := h.manifest.trans hm.manifest
  version := hm.version
  entry_version := hm.entry_version
  markers := h.markers
  heartbeat := h.heartbeat
  kept e he hkeeps := by
    have hbefore := (h.sweepKeeps e).mp hkeeps
    rw [entryDigest, if_neg (hkinds e he), hfiles e he hbefore]
    have hdigest := hm.kept e he hbefore
    rwa [entryDigest, if_neg (hkinds e he)] at hdigest

lemma SameState.statuses (h : SameState runDir m t u) (hu : Loadable u runDir m) {now : ℤ}
    {ttlSeconds : ℕ} {state : RunState} (hload : load t runDir now ttlSeconds = .ok state) :
    ∃ state', load u runDir now ttlSeconds = .ok state' ∧
      ∀ name, state'.phaseStatus.lookup name = state.phaseStatus.lookup name := by
  obtain ⟨state', hload'⟩ := load_ok_iff.mpr ⟨m, hu⟩
  refine ⟨state', hload', fun name => ?_⟩
  rw [Resumability.load_phaseStatus hload', Resumability.load_phaseStatus hload]
  exact scanOf_lookup_congr fun file s => by rw [h.status file]

lemma runDir_there (hm : manifestAt t runDir = some m) : t.node runDir ≠ none := by
  obtain ⟨bytes, hfile, -⟩ := Option.bind_eq_some_iff.mp hm
  have hnode : t.node (runDir ++ ["manifest.json"]) = some (.file bytes) :=
    fileAt_eq_some.mp hfile
  have hdir := t.node_parent (p := runDir) (s := "manifest.json") (by simp [hnode])
  simp [hdir]

lemma prepared_sameState (hm : Loadable t runDir m)
    (hcreate : createDirAll t (attemptsOf runDir phase) = some u)
    (hheartbeat : ¬ heartbeatPath runDir <+: attemptsOf runDir phase) :
    SameState runDir m t u := by
  have hfile := createDirAll_fileAt hcreate
  refine ⟨CommitProtocol.manifestAt_congr (by rw [hfile]), by rw [hfile, hm.markers],
    fun name => ?_, fun name => ?_, ?_⟩
  · simp only [statusOf, hfile]
  · simp only [hashOf, hfile]
  · rw [CommitProtocol.readHeartbeat_congr]
    · exact hm.heartbeat
    · rw [createDirAll_node hcreate, if_neg hheartbeat]

/-- A directory in the heartbeat's place keeps the run directory from loading. -/
lemma not_loadable_of_prefix (hcreate : createDirAll t (attemptsOf runDir phase) = some u)
    (hheartbeat : heartbeatPath runDir <+: attemptsOf runDir phase) : ¬ Loadable u runDir m := by
  intro hm
  obtain ⟨heartbeat, hread⟩ := hm.heartbeat
  have hnode : u.node (heartbeatPath runDir) = some .dir := by
    rw [createDirAll_node hcreate, if_pos hheartbeat]
  simp [readHeartbeat, occupied, fileAt, hnode] at hread

section Moved

variable (h : Moved runDir phase attempt t u v) (hm : Loadable t runDir m)
include h hm

/-- Without markers below the moved path every marker says what it said. -/
lemma Moved.marker_eq
    (hfree : ∀ name, join runDir phase <+: markersDir runDir ++ [name] →
      fileAt t (markersDir runDir ++ [name]) = none) {name : String} (hname : name ≠ attempt.repr) :
    fileAt v (markersDir runDir ++ [name]) = fileAt t (markersDir runDir ++ [name]) := by
  have hdest : ¬ archiveDest runDir phase attempt <+: markersDir runDir ++ [name] := by
    intro hpre
    rcases List.prefix_concat_iff.mp hpre with heq | habove
    · rw [archiveDest_eq] at heq
      exact hname (List.cons.inj (List.append_inj' heq rfl).2).1.symm
    · refine h.not_entry (runDir_there hm.manifest) ?_ habove
      intro hdigits
      exact absurd (isDigit_of_mem_repr (hdigits ▸ (by decide : 'm' ∈ "markers".toList)))
        (by decide)
  by_cases hsrc : join runDir phase <+: markersDir runDir ++ [name]
  · rw [hfree name hsrc]
    exact fileAt_eq_none.mpr (Or.inl (h.gone hsrc hdest))
  · exact h.stays hsrc hdest

lemma Moved.sameState
    (hfree : ∀ name, join runDir phase <+: markersDir runDir ++ [name] →
      fileAt t (markersDir runDir ++ [name]) = none)
    (hmanifest : ¬ join runDir phase <+: manifestPath runDir)
    (hheartbeat : ¬ heartbeatPath runDir <+: attemptsOf runDir phase) :
    SameState runDir m t v := by
  have hentry : ∀ s ∈ ["manifest.json", "markers", "heartbeat.json"],
      ¬ archiveDest runDir phase attempt <+: runDir ++ [s] := by
    intro s hs
    refine h.not_entry (runDir_there hm.manifest) ?_
    rintro rfl
    have hplain : ∀ s ∈ ["manifest.json", "markers", "heartbeat.json"],
        s.toList.all Char.isDigit = false := by decide
    have hdigits : attempt.repr.toList.all Char.isDigit = true := by
      rw [List.all_eq_true]
      exact fun c hc => isDigit_of_mem_repr hc
    rw [hplain _ hs] at hdigits
    cases hdigits
  have hmarker : ∀ {name}, name ≠ attempt.repr →
      fileAt v (markersDir runDir ++ [name]) = fileAt t (markersDir runDir ++ [name]) :=
    h.marker_eq hm hfree
  refine ⟨CommitProtocol.manifestAt_congr (h.stays hmanifest (hentry _ (by simp))), ?_,
    fun name => ?_, fun name => ?_, ?_⟩
  · by_cases hsrc : join runDir phase <+: markersDir runDir
    · exact fileAt_eq_none.mpr (Or.inl (h.gone hsrc (hentry _ (by simp))))
    · rw [h.stays hsrc (hentry _ (by simp)), hm.markers]
  · rcases eq_or_ne name attempt.repr with rfl | hname
    · rw [statusOf_repr, statusOf_repr]
    · simp only [statusOf, hmarker hname]
  · rcases eq_or_ne name attempt.repr with rfl | hname
    · have hends := endsWith_repr (s := ".completed") (c := 'c') (by decide) (by decide) attempt
      refine CommitProtocol.hashOf_congr fun hcompleted => ?_
      rw [hends] at hcompleted
      cases hcompleted
    · simp only [hashOf, hmarker hname]
  · by_cases hsrc : join runDir phase <+: heartbeatPath runDir
    · have hnone := h.gone hsrc (hentry _ (by simp))
      exact ⟨none, by simp [readHeartbeat, occupied, hnone]⟩
    · have hnode : v.node (heartbeatPath runDir) = t.node (heartbeatPath runDir) := by
        rw [rename_node h.move hsrc (hentry _ (by simp)), createDirAll_node h.create,
          if_neg hheartbeat]
      rw [CommitProtocol.readHeartbeat_congr hnode]
      exact hm.heartbeat

end Moved

end Load

section Frame

variable [RunFormat B]

/-- Where the attempt can be moved, no file that is not the phase's own and no file of a kept
manifest entry is below the phase's directory; where its place can be made, this makes no
directory of the heartbeat. -/
structure ArchiveSafe (runDir : Path) (phases : List Grammar.Phase) (p : Grammar.Phase)
    (attempt : ℕ) (t : Disk B) : Prop where
  files : CanMove runDir p.name attempt t → ∀ q, Foreign runDir phases p q →
    join runDir p.name <+: q → fileAt t q = none
  entries : CanMove runDir p.name attempt t → ∀ m, Loadable t runDir m → ∀ e ∈ m.entries,
    SweepKeeps t runDir e → ¬ join runDir p.name <+: join runDir e.name
  heartbeat : occupied t (join runDir p.name) = true → ¬ blocked t (attemptsOf runDir p.name) →
    ∀ m, Loadable t runDir m → ¬ heartbeatPath runDir <+: attemptsOf runDir p.name

omit [RunFormat B] in
lemma foreign_marker (name : String) : Foreign runDir phases p (markersDir runDir ++ [name]) :=
  .program (s := "markers") (by decide) (List.prefix_append _ _)

omit [RunFormat B] in
lemma foreign_manifest : Foreign runDir phases p (manifestPath runDir) :=
  .program (s := "manifest.json") (by decide) (List.prefix_refl _)

/-- The manifest of a loadable directory is not below a path with no foreign files. -/
lemma manifest_apart {m : Manifest} (hm : Loadable t runDir m)
    (hfiles : ∀ q, Foreign runDir phases p q → join runDir p.name <+: q → fileAt t q = none) :
    ¬ join runDir p.name <+: manifestPath runDir := by
  intro hsrc
  have hmanifest := hm.manifest
  rw [manifestAt, hfiles _ foreign_manifest hsrc] at hmanifest
  cases hmanifest

lemma framed_refl : Framed runDir phases p t t :=
  ⟨fun _ _ _ hb => hb, fun _ _ state hload => ⟨state, hload, fun _ _ _ => rfl⟩⟩

/-- What lies at the place of a kept entry before the archiving. -/
lemma entry_file {m : Manifest} (hm : Loadable t runDir m) {e : ManifestEntry}
    (he : e ∈ m.entries) (hkind : e.kind ≠ .changesDir) (hkeeps : SweepKeeps t runDir e) :
    ∃ b, fileAt t (join runDir e.name) = some b := by
  have hdigest := hm.kept e he hkeeps
  rw [entryDigest, if_neg hkind] at hdigest
  obtain ⟨b, hb, -⟩ := Option.map_eq_some_iff.mp hdigest
  exact ⟨b, hb⟩

variable (hkinds : ∀ m, manifestAt t runDir = some m → ∀ e ∈ m.entries, e.kind ≠ .changesDir)
include hkinds

lemma ArchiveSafe.prepared (hsafe : ArchiveSafe runDir phases p attempt t)
    (there : occupied t (join runDir p.name) = true)
    (hcreate : createDirAll t (attemptsOf runDir p.name) = some u) :
    Framed runDir phases p t u := by
  have hfile := createDirAll_fileAt hcreate
  refine ⟨fun q b _ hb => by rw [hfile, hb], fun now ttlSeconds state hload => ?_⟩
  obtain ⟨m, hm⟩ := load_ok_iff.mp ⟨state, hload⟩
  have hopen := (createDirAll_eq_some.mp hcreate).1
  have hsame := prepared_sameState hm hcreate (hsafe.heartbeat there hopen m hm)
  have hu : Loadable u runDir m :=
    hsame.loadable hm (hkinds m hm.manifest) fun _ _ _ => by rw [hfile]
  obtain ⟨state', hload', hlookup⟩ := hsame.statuses hu hload
  exact ⟨state', hload', fun r _ _ => hlookup r.name⟩

lemma ArchiveSafe.moved (hsafe : ArchiveSafe runDir phases p attempt t)
    (h : Moved runDir p.name attempt t u v) : Framed runDir phases p t v := by
  have hcan := h.canMove
  refine ⟨fun q b hq hb => ?_, fun now ttlSeconds state hload => ?_⟩
  · refine (h.file_stays_iff hb).mpr fun hsrc => ?_
    rw [hsafe.files hcan q hq hsrc] at hb
    cases hb
  · obtain ⟨m, hm⟩ := load_ok_iff.mp ⟨state, hload⟩
    have hsame := h.sameState hm (fun name => hsafe.files hcan _ (foreign_marker name))
      (manifest_apart hm (hsafe.files hcan)) (hsafe.heartbeat h.there hcan.open_ m hm)
    have hv : Loadable v runDir m := by
      refine hsame.loadable hm (hkinds m hm.manifest) fun e he hkeeps => ?_
      obtain ⟨b, hb⟩ := entry_file hm he (hkinds m hm.manifest e he) hkeeps
      rw [hb]
      exact (h.file_stays_iff hb).mpr (hsafe.entries hcan m hm e he hkeeps)
    obtain ⟨state', hload', hlookup⟩ := hsame.statuses hv hload
    exact ⟨state', hload', fun r _ _ => hlookup r.name⟩

omit hkinds in
/-- A frame over the move leaves no foreign file below the phase's directory. -/
lemma Framed.files_apart (hframe : Framed runDir phases p t v)
    (h : Moved runDir p.name attempt t u v) (hq : Foreign runDir phases p q)
    (hsrc : join runDir p.name <+: q) : fileAt t q = none := by
  by_contra hne
  obtain ⟨b, hb⟩ := Option.ne_none_iff_exists'.mp hne
  exact (h.file_stays_iff hb).mp (hframe.files q b hq hb) hsrc

omit hkinds in
lemma Framed.loadable (hframe : Framed runDir phases p t v) {m : Manifest}
    (hm : Loadable t runDir m) : ∃ m', Loadable v runDir m' := by
  obtain ⟨state, hload⟩ : ∃ state, load t runDir 0 0 = .ok state := load_ok_iff.mpr ⟨m, hm⟩
  obtain ⟨state', hload', -⟩ := hframe.statuses _ _ state hload
  exact load_ok_iff.mp ⟨state', hload'⟩

omit hkinds in
lemma Framed.heartbeat_apart (hframe : Framed runDir phases p t u)
    (hcreate : createDirAll t (attemptsOf runDir p.name) = some u) {m : Manifest}
    (hm : Loadable t runDir m) : ¬ heartbeatPath runDir <+: attemptsOf runDir p.name := by
  intro hheartbeat
  obtain ⟨m', hm'⟩ := hframe.loadable hm
  exact not_loadable_of_prefix hcreate hheartbeat hm'

lemma Framed.entries_apart (hframe : Framed runDir phases p t v)
    (h : Moved runDir p.name attempt t u v) {m : Manifest} (hm : Loadable t runDir m)
    (hheartbeat : ¬ heartbeatPath runDir <+: attemptsOf runDir p.name) {e : ManifestEntry}
    (he : e ∈ m.entries) (hkeeps : SweepKeeps t runDir e) :
    ¬ join runDir p.name <+: join runDir e.name := by
  intro hsrc
  have hfiles := fun q => hframe.files_apart h (q := q)
  have hsame := h.sameState hm (fun name => hfiles _ (foreign_marker name))
    (manifest_apart hm hfiles) hheartbeat
  obtain ⟨m', hm'⟩ := hframe.loadable hm
  obtain rfl : m' = m :=
    Option.some.inj ((hm'.manifest.symm.trans hsame.manifest).trans hm.manifest)
  have hkind := hkinds m' hm.manifest e he
  obtain ⟨b, hb⟩ := entry_file hm he hkind hkeeps
  obtain ⟨b', hb'⟩ := entry_file hm' he hkind ((hsame.sweepKeeps e).mpr hkeeps)
  have hnode := h.gone hsrc (h.not_below (by simp [fileAt_eq_some.mp hb]))
  rw [fileAt_eq_some, hnode] at hb'
  cases hb'

end Frame

section Layout

/-- The phase has a plain name that the program does not use, and no other phase has a file in the
directory of that name. -/
structure OwnDirectory (runDir : Path) (phases : List Grammar.Phase) (p : Grammar.Phase) : Prop where
  name : IsName p.name
  not_program : p.name ∉ "attempts" :: programEntries
  others : ∀ r ∈ phases, r.name ≠ p.name → ∀ q, PhaseFile runDir r q → ¬ runDir ++ [p.name] <+: q

lemma eq_of_entries {s s' : String} (h : runDir ++ [s] <+: q) (h' : runDir ++ [s'] <+: q) :
    s = s' := by
  have hpre := List.prefix_of_prefix_length_le h h' (by simp)
  have heq := hpre.eq_of_length (by simp)
  exact (List.cons.inj (List.append_cancel_left heq)).1

lemma OwnDirectory.apart (h : OwnDirectory runDir phases p) (hq : Foreign runDir phases p q) :
    ¬ join runDir p.name <+: q := by
  rw [join_of_isName h.name]
  intro hsrc
  cases hq with
  | other mem ne file => exact h.others _ mem ne _ file hsrc
  | program mem below =>
      have heq := eq_of_entries hsrc below
      exact h.not_program (List.mem_cons_of_mem _ (heq ▸ mem))
  | archived below _ =>
      have heq := eq_of_entries hsrc below
      exact h.not_program (heq ▸ List.mem_cons_self)
  | outside away _ => exact away ((List.prefix_append runDir [p.name]).trans hsrc)

variable [RunFormat B]

/-- With a directory of its own only the manifest entries decide. -/
theorem OwnDirectory.archiveSafe_iff (h : OwnDirectory runDir phases p) :
    ArchiveSafe runDir phases p attempt t ↔
      (CanMove runDir p.name attempt t → ∀ m, Loadable t runDir m → ∀ e ∈ m.entries,
        SweepKeeps t runDir e → ¬ runDir ++ [p.name] <+: join runDir e.name) := by
  have hname : join runDir p.name = runDir ++ [p.name] := join_of_isName h.name
  rw [← hname]
  refine ⟨ArchiveSafe.entries, fun hentries => ⟨fun _ q hq hsrc => ?_, hentries, ?_⟩⟩
  · exact absurd hsrc (h.apart hq)
  · intro _ _ _ _
    rw [attemptsOf, join_of_isName h.name, List.append_assoc]
    exact RunLayout.not_heartbeat_below (by decide)

end Layout

section Nested

open CrashHistories

/-- The first phase's artefact is in a directory of its own. -/
def ownDirectories : Grammar.Workflow :=
  ⟨"design", [askPhase "design" "design/plan.md", askPhase "review" "review.md"]⟩

lemma design_ownDirectory :
    OwnDirectory ["run"] ownDirectories.phases (askPhase "design" "design/plan.md") := by
  refine ⟨by decide, by decide, fun r hr hne q hq => ?_⟩
  simp only [ownDirectories, List.mem_cons, List.not_mem_nil, or_false] at hr
  rcases hr with rfl | rfl
  · exact absurd rfl hne
  · rcases hq with rfl | ⟨name, hname, rfl⟩
    · decide
    · obtain rfl : name = singleOutput := hname
      decide

/-- The first phase stopped between its artefact and the manifest. -/
def stopped : World Doc :=
  (evalFor (handle ⟨fun _ => .ok "one", fun _ => .ok .pass⟩) 10 (PhaseRunner.run plainEngines
    (configOf (askPhase "design" "design/plan.md") "Go") (askInputs "design") 0) newRun).2.2

/-- The first phase's artefact is in the directory that has the second phase's name. -/
def nested : Grammar.Workflow :=
  ⟨"design", [askPhase "review" "design/review.md", askPhase "design" "design.md"]⟩

def configsOf (wf : Grammar.Workflow) : List PhaseConfig := wf.phases.map (configOf · "Go")

def afterReview : World Doc := (afterAsk "review" "design/review.md" "one" newRun).2.2

lemma afterReview_reached : Reached perform ["run"] (configsOf nested) afterReview := by
  have hcreated : Reached perform ["run"] (configsOf nested) newRun :=
    .created (show createRunDir Disk.empty ["run"] "r1" "design" = some newRun.disk from rfl)
  have hmem : configOf (askPhase "review" "design/review.md") "Go" ∈ configsOf nested :=
    List.mem_cons_self
  exact .run hcreated hmem rfl rfl (eval_runs (handle_performs _) _ _)

def archiveRun : List (Event (RunSig Doc)) × Except ResumeError Unit × World Doc :=
  eval (handle ⟨fun _ => .error (.config ""), fun _ => .ok .pass⟩)
    (archiveCurrentAttempt ["run"] "design" 0) afterReview

/-- The run directory after the archiving of the second phase's attempt. -/
def afterArchive : World Doc := archiveRun.2.2

end Nested

end Loker.Archiving
