import Loker.CrashHistories

/-! When a failed phase can be resumed: what its markers and its archive look like in every
reachable run directory. -/

namespace Loker.Resumability

open FileTree TextOps Programs RunFiles RunLoad LoadSpec RunOps Dispatch Strategies PhaseRunner
  Resume CommitProtocol RunLayout CrashHistories

variable {B : Type} [RunFormat B] {runDir : Path} {phases : List PhaseConfig} {p : String}
  {t t' : Disk B} {w w' : World B}

section Tracked

/-- The directory of a phase in the archive, and its lock file. -/
def attemptsOf (runDir : Path) (p : String) : Path := runDir ++ ["attempts", p]

def lockOf (runDir : Path) (p : String) : Path := runDir ++ ["locks", p ++ ".lock"]

/-- The markers on disk say about the phase what the log says, and nothing is in the way of its
archive and its lock. -/
structure Tracked (runDir : Path) (p : String) (w : World B) : Prop where
  failed : ∀ c, .failed c ∈ w.log → c.phase = p →
    (fileAt w.disk (markersDir runDir ++ [p ++ ".failed"])).isSome ∧
      isDir w.disk (attemptsOf runDir p) = true
  completed : (∀ c, .completed c ∈ w.log → c.phase ≠ p) →
    fileAt w.disk (markersDir runDir ++ [p ++ ".completed"]) = none
  started : ∀ name, startsWith name (p ++ ".started.") = true →
    w.disk.node (markersDir runDir ++ [name]) ≠ none →
    ∃ c, (fileAt w.disk (markersDir runDir ++ [name])).bind RunFormat.readStarted = some c
  locks : fileAt w.disk (runDir ++ ["locks"]) = none
  lock : isDir w.disk (lockOf runDir p) = false

/-- `t'` has the markers of `t`, and still nothing is in the way. -/
structure Keeps (runDir : Path) (p : String) (t t' : Disk B) : Prop where
  markers : ∀ name, t'.node (markersDir runDir ++ [name]) = t.node (markersDir runDir ++ [name])
  attempts : isDir t (attemptsOf runDir p) = true → isDir t' (attemptsOf runDir p) = true
  locks : fileAt t (runDir ++ ["locks"]) = none → fileAt t' (runDir ++ ["locks"]) = none
  lock : isDir t (lockOf runDir p) = false → isDir t' (lockOf runDir p) = false

lemma Keeps.tracked (h : Keeps runDir p w.disk t') (hw : Tracked runDir p w) :
    Tracked runDir p ⟨t', w.log⟩ where
  failed c hc hp := by
    obtain ⟨hfile, hdir⟩ := hw.failed c hc hp
    exact ⟨by rw [fileAt_congr (h.markers _)]; exact hfile, h.attempts hdir⟩
  completed hnone := by
    rw [fileAt_congr (h.markers _)]
    exact hw.completed hnone
  started name hname hnode := by
    rw [h.markers] at hnode
    rw [fileAt_congr (h.markers name)]
    exact hw.started name hname hnode
  locks := h.locks hw.locks
  lock := h.lock hw.lock

/-- What an operation that writes no marker must leave alone for the phase. -/
def Leaves (runDir : Path) (p : String) : Op B → Prop
  | .createDirAll q => (∀ name, ¬ markersDir runDir ++ [name] <+: q) ∧ ¬ lockOf runDir p <+: q
  | .writeFile q _ => ¬ markersDir runDir <+: q ∧ q ≠ runDir ++ ["locks"]
  | .rename src dst => (∀ name, ¬ src <+: markersDir runDir ++ [name] ∧
        ¬ dst <+: markersDir runDir ++ [name]) ∧
      (src <+: attemptsOf runDir p → src <+: dst) ∧
      ∀ q ∈ [attemptsOf runDir p, runDir ++ ["locks"], lockOf runDir p], ¬ dst <+: q
  | .writeMarker dir m => dir = runDir ∧ '/' ∉ m.phase.toList ∧ (∀ c, m ≠ .failed c) ∧
      ∀ c, m = .completed c → startsWith m.fileName (p ++ ".started.") = false
  | .writeManifest dir _ => dir = runDir
  | _ => True

omit [RunFormat B] in
lemma keeps_createDirAll {q : Path} (hmarkers : ∀ name, ¬ markersDir runDir ++ [name] <+: q)
    (hlock : ¬ lockOf runDir p <+: q) (h : createDirAll t q = some t') : Keeps runDir p t t' where
  markers name := by rw [createDirAll_node h, if_neg (hmarkers name)]
  attempts := createDirAll_isDir_of h
  locks hnone := by rw [createDirAll_fileAt h, hnone]
  lock hnone := by
    have hnode : t'.node (lockOf runDir p) = t.node (lockOf runDir p) := by
      rw [createDirAll_node h, if_neg hlock]
    rw [isDir, hnode]
    exact hnone

omit [RunFormat B] in
lemma keeps_writeFile {q : Path} {b : B} (hmarkers : ¬ markersDir runDir <+: q)
    (hlocks : q ≠ runDir ++ ["locks"]) (h : writeFile t q b = some t') : Keeps runDir p t t' where
  markers name := by
    have hne : markersDir runDir ++ [name] ≠ q := fun heq => hmarkers ⟨[name], heq⟩
    rw [writeFile_node h, if_neg hne]
  attempts := writeFile_isDir h
  locks hnone := by rw [writeFile_other h hlocks.symm, hnone]
  lock hnone := by
    rw [isDir, writeFile_node h]
    by_cases hq : lockOf runDir p = q
    · simp [hq]
    · rw [if_neg hq]
      exact hnone

omit [RunFormat B] in
lemma keeps_rename {src dst : Path} (hguard : Leaves (B := B) runDir p (.rename src dst))
    (h : rename t src dst = some t') : Keeps runDir p t t' where
  markers name := rename_node h (hguard.1 name).1 (hguard.1 name).2
  attempts hdir := by
    obtain ⟨hmovable, _⟩ := rename_eq_some.mp h
    have hsrc : ¬ src <+: attemptsOf runDir p := fun hs => hmovable.not_inside (hguard.2.1 hs)
    rw [isDir_iff] at hdir ⊢
    rw [rename_node h hsrc (hguard.2.2 _ (by simp)), hdir]
  locks hnone := by
    rcases rename_eq_none_or h (hguard.2.2 (runDir ++ ["locks"]) (by simp)) with hnode | hnode
    · exact fileAt_eq_none.mpr (Or.inl hnode)
    · rw [fileAt_congr hnode, hnone]
  lock hnone := by
    rcases rename_eq_none_or h (hguard.2.2 (lockOf runDir p) (by simp)) with hnode | hnode
    · simp [isDir, hnode]
    · rw [isDir, hnode]
      exact hnone

/-- A marker in its place; a failed marker of the phase needs the phase's archive. -/
lemma tracked_marker {m : Marker} {log : List Marker} (hw : Tracked runDir p w)
    (hslash : '/' ∉ m.phase.toList) (hlog : log = m :: w.log)
    (hstarted : (∃ c, m = .started c) ∨ startsWith m.fileName (p ++ ".started.") = false)
    (hfailed : ∀ c, m = .failed c → c.phase = p → isDir w.disk (attemptsOf runDir p) = true)
    (h : writeFile w.disk (markerPath runDir m) m.bytes = some t') :
    Tracked runDir p ⟨t', log⟩ := by
  subst hlog
  have hname : IsName m.fileName := by
    cases m with
    | started c => exact isName_started hslash _
    | completed c => exact isName_append hslash (by decide) (by decide)
    | failed c => exact isName_failed hslash
  have hpath : markerPath runDir m = markersDir runDir ++ [m.fileName] := join_of_isName hname
  rw [hpath] at h
  have hother : ∀ name, name ≠ m.fileName →
      t'.node (markersDir runDir ++ [name]) = w.disk.node (markersDir runDir ++ [name]) := by
    intro name hne
    rw [writeFile_node h, if_neg (by simpa using hne)]
  have hsome : ∀ name, (fileAt w.disk (markersDir runDir ++ [name])).isSome →
      (fileAt t' (markersDir runDir ++ [name])).isSome := by
    intro name hfile
    by_cases hne : name = m.fileName
    · rw [hne, writeFile_self h]
      rfl
    · rw [fileAt_congr (hother name hne)]
      exact hfile
  refine ⟨fun c hc hp => ?_, fun hnone => ?_, fun name hstart hnode => ?_, ?_, ?_⟩
  · rcases List.mem_cons.mp hc with rfl | hold
    · refine ⟨?_, writeFile_isDir h (hfailed c rfl hp)⟩
      rw [← hp, show c.phase ++ ".failed" = (Marker.failed c).fileName from rfl, writeFile_self h]
      rfl
    · obtain ⟨hfile, hdir⟩ := hw.failed c hold hp
      exact ⟨hsome _ hfile, writeFile_isDir h hdir⟩
  · have hne : p ++ ".completed" ≠ m.fileName := by
      intro heq
      have hends : endsWith m.fileName ".completed" = true := heq ▸ endsWith_append p ".completed"
      cases m with
      | started c => exact absurd hends (by simp [Marker.fileName, not_completed_started])
      | failed c => exact absurd hends (by simp [Marker.fileName, not_completed_failed])
      | completed c =>
          refine hnone c List.mem_cons_self ?_
          simpa [Marker.fileName] using heq.symm
    rw [fileAt_congr (hother _ hne)]
    exact hw.completed fun c hc => hnone c (List.mem_cons_of_mem _ hc)
  · by_cases hne : name = m.fileName
    · rcases hstarted with ⟨c, rfl⟩ | hfalse
      · refine ⟨c, ?_⟩
        rw [hne, writeFile_self h]
        exact RunFormat.readStarted_ofStarted c
      · rw [hne, hfalse] at hstart
        cases hstart
    · rw [hother name hne] at hnode
      rw [fileAt_congr (hother name hne)]
      exact hw.started name hstart hnode
  · rw [writeFile_other h (by simp [markersDir]), hw.locks]
  · have hne : lockOf runDir p ≠ markersDir runDir ++ [m.fileName] := by simp [lockOf, markersDir]
    rw [isDir, writeFile_node h, if_neg hne]
    exact hw.lock

lemma Changed.tracked {next : Option (Disk B)} {log : List Marker} {a : Except String Unit}
    (h : Changed next log w a w') (hw : Tracked runDir p w)
    (hnext : ∀ t', next = some t' → Tracked runDir p ⟨t', log⟩) : Tracked runDir p w' := by
  rcases h with ⟨t', ht', rfl, _⟩ | ⟨rfl, _⟩
  · exact hnext t' ht'
  · exact hw

lemma tracked_step {o : Op B} {a : Answer B o} (ho : Leaves runDir p o) (hw : Tracked runDir p w)
    (h : perform o w a w') : Tracked runDir p w' := by
  cases o with
  | createDirAll q =>
      exact Changed.tracked h hw fun t' ht' => (keeps_createDirAll ho.1 ho.2 ht').tracked hw
  | writeFile q b =>
      exact Changed.tracked h hw fun t' ht' => (keeps_writeFile ho.1 ho.2 ht').tracked hw
  | rename src dst =>
      exact Changed.tracked h hw fun t' ht' => (keeps_rename ho ht').tracked hw
  | writeManifest dir m =>
      obtain rfl : dir = runDir := ho
      refine Changed.tracked h hw fun t' ht' => (keeps_writeFile ?_ ?_ ht').tracked hw
      · simp [markersDir, manifestPath, List.prefix_append_right_inj]
      · simp [manifestPath]
  | writeMarker dir m =>
      obtain ⟨rfl, hslash, hfailed, hstarted⟩ := ho
      refine Changed.tracked h hw fun t' ht' => ?_
      refine tracked_marker hw hslash rfl ?_ (fun c hc => absurd hc (hfailed c)) ht'
      cases m with
      | started c => exact Or.inl ⟨c, rfl⟩
      | completed c => exact Or.inr (hstarted c rfl)
      | failed c => exact absurd rfl (hfailed c)
  | readFile q => exact h.1 ▸ hw
  | isFile q => exact h.1 ▸ hw
  | isDir q => exact h.1 ▸ hw
  | occupied q => exact h.1 ▸ hw
  | loadManifest dir => exact h.1 ▸ hw
  | query q =>
      obtain rfl : w' = w := h
      exact hw
  | race pending => exact h.1 ▸ hw
  | verify text =>
      obtain rfl : w' = w := h
      exact hw
  | lockBusy q =>
      obtain rfl : w' = w := h
      exact hw

end Tracked

section Reached

/-- The markers and the locks are left to the protocol, and no other phase's terminal marker looks
like a started marker of the phase. -/
structure MarkersApart (runDir : Path) (phases : List PhaseConfig) (p : String) : Prop where
  phase_name : ∀ cfg ∈ phases, IsName cfg.phase ∧ cfg.phase ≠ "markers"
  marker_name : ∀ cfg ∈ phases, startsWith (cfg.phase ++ ".completed") (p ++ ".started.") = false ∧
    startsWith (cfg.phase ++ ".failed") (p ++ ".started.") = false
  output : ∀ cfg ∈ phases, ¬ markersDir runDir <+: join runDir cfg.artefactName ∧
    join runDir cfg.artefactName ≠ runDir ++ ["locks"]
  parent : ∀ cfg ∈ phases, ¬ markersDir runDir <+: parentOf runDir cfg.artefactName ∧
    ¬ lockOf runDir p <+: parentOf runDir cfg.artefactName

variable {cfg : PhaseConfig} {inp : PhaseInputs}

lemma not_markers_below {s : String} {rest : Path} (hs : s ≠ "markers") :
    ¬ markersDir runDir <+: runDir ++ s :: rest := by
  rw [markersDir, List.prefix_append_right_inj, List.cons_prefix_cons]
  exact fun h => hs h.1.symm

lemma not_marker_below {s : String} {rest : Path} (hs : s ≠ "markers") (name : String) :
    ¬ markersDir runDir ++ [name] <+: runDir ++ s :: rest :=
  fun h => not_markers_below hs ((List.prefix_append _ _).trans h)

lemma lock_ne_attempts (p : String) : p ++ ".lock" ≠ "attempts" := by
  intro h
  have hends : endsWith "attempts" ".lock" = true := h ▸ endsWith_append p ".lock"
  exact absurd hends (by decide)

lemma not_lock_below {s : String} : ¬ lockOf runDir p <+: runDir ++ [s] := by
  intro h
  have hlen := h.length_le
  simp [lockOf] at hlen

lemma not_lock_attempts {s : String} {rest : Path} :
    ¬ lockOf runDir p <+: runDir ++ s :: "attempts" :: rest := by
  rw [lockOf, List.prefix_append_right_inj, List.cons_prefix_cons, List.cons_prefix_cons]
  exact fun h => lock_ne_attempts p h.2.1

omit [RunFormat B] in
lemma MarkersApart.output_leaves (h : MarkersApart runDir phases p) (hmem : cfg ∈ phases)
    (hname : inp.phaseName = cfg.phase) {name : String} (houtput : PhaseOutputName cfg inp name)
    (b : B) : Leaves runDir p (.createDirAll (B := B) (join runDir name).dropLast) ∧
      Leaves runDir p (.writeFile (join runDir name) b) := by
  obtain ⟨hphase, hmarkers⟩ := h.phase_name cfg hmem
  obtain ⟨strategy, _, houtput⟩ := houtput
  rw [hname] at houtput
  rcases join_outputName hphase houtput with heq | heq | ⟨s, heq⟩
  · rw [heq, List.dropLast_append_of_ne_nil (by simp)]
    exact ⟨⟨not_marker_below (by decide), not_lock_below⟩, not_markers_below (by decide), by simp⟩
  · rw [heq, List.dropLast_append_of_ne_nil (by simp)]
    exact ⟨⟨not_marker_below hmarkers, not_lock_below⟩, not_markers_below hmarkers, by simp⟩
  · rw [heq, List.dropLast_append_of_ne_nil (by simp)]
    exact ⟨⟨not_marker_below hmarkers, not_lock_attempts⟩, not_markers_below hmarkers, by simp⟩

lemma MarkersApart.phaseOp (h : MarkersApart runDir phases p) (hmem : cfg ∈ phases)
    (hdir : inp.runDir = runDir) (hname : inp.phaseName = cfg.phase) {o : Op B}
    (ho : PhaseOp cfg inp False o) : Leaves runDir p o := by
  subst hdir
  cases o with
  | createDirAll q =>
      rcases ho with rfl | ⟨name, houtput, rfl⟩ | ⟨hfalse, _⟩
      · refine ⟨fun name hle => ?_, not_lock_below⟩
        have hlen := hle.length_le
        simp [markersDir] at hlen
      · exact (h.output_leaves hmem hname houtput (RunFormat.ofText "")).1
      · exact hfalse.elim
  | writeFile q b =>
      rcases ho with ⟨name, houtput, rfl⟩ | ⟨hfalse, _⟩
      · exact (h.output_leaves hmem hname houtput b).2
      · exact hfalse.elim
  | writeMarker dir m =>
      obtain ⟨rfl, hphase, ⟨c, rfl⟩ | ⟨hfalse, _⟩⟩ := ho
      · refine ⟨rfl, ?_, by simp, by simp⟩
        rw [hphase]
        exact (h.phase_name cfg hmem).1.no_slash
      · exact hfalse.elim
  | rename src dst => cases ho
  | writeManifest dir m => cases ho
  | _ => trivial

omit [RunFormat B] in
lemma MarkersApart.commitOp (h : MarkersApart runDir phases p) (hmem : cfg ∈ phases) {o : Op B}
    (ho : CommitOp cfg runDir o) : Leaves runDir p o := by
  cases o with
  | createDirAll q =>
      rcases ho with rfl | rfl | rfl
      · refine ⟨fun name hle => ?_, fun hle => ?_⟩
        · have hlen := hle.length_le
          rw [markersDir, List.append_assoc, List.length_append] at hlen
          exact absurd hlen (Nat.not_le.mpr (Nat.lt_add_of_pos_right (by simp)))
        · have hlen := hle.length_le
          rw [lockOf, List.length_append] at hlen
          exact absurd hlen (Nat.not_le.mpr (Nat.lt_add_of_pos_right (by simp)))
      · exact ⟨fun name hle => (h.parent cfg hmem).1 ((List.prefix_append _ _).trans hle),
          (h.parent cfg hmem).2⟩
      · refine ⟨fun name hle => ?_, not_lock_below⟩
        have hlen := hle.length_le
        simp [markersDir] at hlen
  | writeFile q b =>
      obtain rfl : q = join runDir cfg.artefactName := ho
      exact h.output cfg hmem
  | writeMarker dir m =>
      obtain ⟨rfl, c, rfl, hphase⟩ := ho
      refine ⟨rfl, ?_, by simp, fun c' hc' => ?_⟩
      · show '/' ∉ c.phase.toList
        rw [hphase]
        exact (h.phase_name cfg hmem).1.no_slash
      · rw [Marker.fileName, hphase]
        exact (h.marker_name cfg hmem).1
  | writeManifest dir m => exact ho
  | rename src dst => cases ho
  | _ => trivial

omit [RunFormat B] in
lemma MarkersApart.resumeOp (h : MarkersApart runDir phases p) (hmem : cfg ∈ phases) {o : Op B}
    (ho : ResumeOp runDir cfg.phase o) : Leaves runDir p o := by
  obtain ⟨hphase, hmarkers⟩ := h.phase_name cfg hmem
  cases o with
  | createDirAll q =>
      rcases ho with rfl | rfl
      · rw [join_of_isName hphase, List.append_assoc]
        refine ⟨not_marker_below (by decide), ?_⟩
        simp [lockOf, List.prefix_append_right_inj, List.cons_prefix_cons]
      · exact ⟨not_marker_below (by decide), not_lock_below⟩
  | writeFile q b =>
      obtain rfl : q = lockPath runDir cfg.phase := ho
      rw [lockPath_eq hphase.no_slash]
      exact ⟨not_markers_below (by decide), by simp⟩
  | rename src dst =>
      obtain ⟨rfl, n, rfl⟩ := ho
      rw [join_of_isName hphase, show archiveDest runDir cfg.phase n =
        archivePath runDir cfg.phase n from rfl, archivePath_eq hphase]
      refine ⟨fun name => ⟨?_, ?_⟩, fun hsrc => ?_, fun q hq => ?_⟩
      · simp [markersDir, List.prefix_append_right_inj, List.cons_prefix_cons, hmarkers]
      · simp [markersDir, List.prefix_append_right_inj, List.cons_prefix_cons]
      · simp only [attemptsOf, List.prefix_append_right_inj, List.cons_prefix_cons] at hsrc ⊢
        simpa using hsrc
      · simp only [List.mem_cons, List.not_mem_nil, or_false] at hq
        rcases hq with rfl | rfl | rfl <;>
          simp [attemptsOf, lockOf, List.prefix_append_right_inj, List.cons_prefix_cons]
  | writeMarker dir m => cases ho
  | writeManifest dir m => cases ho
  | _ => trivial

lemma atomicWrite_tracked {s : String} {n : ℕ} {bytes : B} (hw : Tracked runDir p w)
    (hdir : isDir w.disk (runDir ++ ["attempts", s, n.repr]) = true) :
    Secures perform (Tracked runDir p)
      (fun _ w' => isDir w'.disk (runDir ++ ["attempts", s, n.repr]) = true)
      (atomicWrite (runDir ++ ["attempts", s, n.repr]) "failure-summary.json" bytes) w := by
  have hpath : join (runDir ++ ["attempts", s, n.repr]) "failure-summary.json" =
      runDir ++ ["attempts", s, n.repr, "failure-summary.json"] := by
    rw [join_of_isName (by decide), List.append_assoc]
    rfl
  unfold atomicWrite
  split
  · exact Secures.throw hw
  · rw [hpath]
    refine Secures.bind (Secures.op fun answer w' hact => ?_)
    have hleaves : Leaves runDir p
        (.writeFile (runDir ++ ["attempts", s, n.repr, "failure-summary.json"]) bytes) :=
      ⟨not_markers_below (by decide), by simp⟩
    have hw' := tracked_step hleaves hw hact
    refine ⟨hw', orThrow_secures hw' fun _ => ?_⟩
    rcases hact with ⟨t', ht', rfl, _⟩ | ⟨rfl, _⟩
    · exact writeFile_isDir ht' hdir
    · exact hdir

/-- The record of a failure makes the phase's archive before it writes the failed marker. -/
lemma recordTerminalFailure_tracked (h : MarkersApart runDir phases p) (hmem : cfg ∈ phases)
    {attemptsMade : ℕ} {errorClass : String} (hw : Tracked runDir p w) :
    Secures perform (Tracked runDir p) (fun _ _ => True)
      (recordTerminalFailure runDir cfg attemptsMade errorClass) w := by
  obtain ⟨hphase, hmarkers⟩ := h.phase_name cfg hmem
  unfold recordTerminalFailure
  dsimp only
  rw [archivePath_eq hphase]
  generalize attemptsMade - 1 = n
  -- the archive of the attempt is a directory from here on
  have hcreate : Leaves (B := B) runDir p
      (.createDirAll (runDir ++ ["attempts", cfg.phase, n.repr])) := by
    refine ⟨not_marker_below (by decide), ?_⟩
    simp [lockOf, List.prefix_append_right_inj, List.cons_prefix_cons]
  refine Secures.bind (Secures.bind (Secures.op fun answer w₁ hact => ?_))
  have hw₁ := tracked_step hcreate hw hact
  refine ⟨hw₁, orThrow_secures hw₁ fun hok => ?_⟩
  have hdir : isDir w₁.disk (runDir ++ ["attempts", cfg.phase, n.repr]) = true := by
    rcases hact with ⟨t', ht', rfl, _⟩ | ⟨_, message, hfailed⟩
    · exact createDirAll_isDir ht'
    · rw [hok] at hfailed
      cases hfailed
  refine Secures.bind (Secures.mono (atomicWrite_tracked hw₁ hdir) fun _ w₂ hw₂ hdir₂ => ?_)
  refine Secures.bind (Secures.bind (Secures.op fun answer w₃ hact => ?_))
  have hmarkersDir : Leaves (B := B) runDir p (.createDirAll (markersDir runDir)) := by
    refine ⟨fun name hle => ?_, not_lock_below⟩
    have hlen := hle.length_le
    simp [markersDir] at hlen
  have hw₃ := tracked_step hmarkersDir hw₂ hact
  have hdir₃ : isDir w₃.disk (runDir ++ ["attempts", cfg.phase, n.repr]) = true := by
    rcases hact with ⟨t', ht', rfl, _⟩ | ⟨rfl, _⟩
    · exact createDirAll_isDir_of ht' hdir₂
    · exact hdir₂
  refine ⟨hw₃, orThrow_secures hw₃ fun _ => ?_⟩
  refine Secures.bind (Secures.op fun answer w₄ hact => ?_)
  have hw₄ : Tracked runDir p w₄ := by
    refine Changed.tracked hact hw₃ fun t' ht' => ?_
    have hslash : '/' ∉ (Marker.failed ⟨cfg.phase, attemptsMade, errorClass,
        displayPath (runDir ++ ["attempts", cfg.phase, n.repr])⟩).phase.toList := hphase.no_slash
    refine tracked_marker hw₃ hslash rfl (Or.inr (h.marker_name cfg hmem).2)
      (fun c hc hp => ?_) ht'
    cases hc
    have hpre : attemptsOf runDir cfg.phase <+: runDir ++ ["attempts", cfg.phase, n.repr] := by
      simp [attemptsOf, List.prefix_append_right_inj, List.cons_prefix_cons]
    rw [← hp, isDir_iff]
    refine node_above hpre (by simp [attemptsOf]) ?_
    simp [isDir_iff.mp hdir₃]
  exact ⟨hw₄, orThrow_secures hw₄ fun _ => trivial⟩

lemma emits_tracked {ε ρ : Type} {P : Op B → Prop} {q : Run B ε ρ} (hq : Emits P q)
    (hleaves : ∀ o, P o → Leaves runDir p o) (hw : Tracked runDir p w) :
    Secures perform (Tracked runDir p) (fun _ => Tracked runDir p) q w :=
  hq.secures (fun o _ _ _ ho hI _ hact => ⟨tracked_step (hleaves o ho) hI hact,
    tracked_step (hleaves o ho) hI hact⟩) hw hw

variable {eng : Engines} {lockBody : String} {attempt : ℕ}

lemma run_tracked (h : MarkersApart runDir phases p) (hmem : cfg ∈ phases)
    (hdir : inp.runDir = runDir) (hname : inp.phaseName = cfg.phase) (hw : Tracked runDir p w) :
    Secures perform (Tracked runDir p) (fun _ => Tracked runDir p)
      (PhaseRunner.run eng cfg inp attempt) w := by
  subst hdir
  have hattempt : Secures perform (Tracked inp.runDir p) (fun _ => Tracked inp.runDir p)
      (attemptPhase eng cfg inp attempt) w :=
    attemptPhase_secures (fun o s a s' ho hs hact => tracked_step (h.phaseOp hmem rfl hname ho) hs hact)
      (fun attemptsMade e s hs => recordTerminalFailure_tracked h hmem hs) hw
  refine Secures.bind (hattempt.mono fun chosen w₁ hw₁ _ => ?_)
  exact emits_tracked commit_emits (fun o ho => h.commitOp hmem ho) hw₁

lemma executeAction_tracked (h : MarkersApart runDir phases p) (hmem : cfg ∈ phases)
    (hdir : inp.runDir = runDir) (hname : inp.phaseName = cfg.phase) (action : PhaseAction)
    (hw : Tracked runDir p w) :
    Secures perform (Tracked runDir p) (fun _ => Tracked runDir p)
      (executeAction eng cfg inp lockBody action) w := by
  subst hdir
  have hresume : ∀ {ρ : Type} {q : Run B ResumeError ρ} {s : World B},
      Emits (ResumeOp inp.runDir cfg.phase) q → Tracked inp.runDir p s →
      Secures perform (Tracked inp.runDir p) (fun _ => Tracked inp.runDir p) q s :=
    fun hq hs => emits_tracked hq (fun o ho => h.resumeOp hmem ho) hs
  have hrun : ∀ (n : ℕ) (s : World B), Tracked inp.runDir p s → Secures perform (Tracked inp.runDir p)
      (fun _ => Tracked inp.runDir p) (runPhase eng cfg inp lockBody n) s := by
    intro n s hs
    refine Secures.bind ((hresume acquireLock_emits hs).mono fun _ w₁ hw₁ _ => ?_)
    refine Secures.bind ((attempt_secures (run_tracked h hmem rfl hname hw₁)).mono
      fun result w₂ hw₂ _ => ?_)
    refine Secures.bind ((hresume releaseLock_emits hw₂).mono fun _ w₃ hw₃ _ => ?_)
    cases result with
    | ok _ => exact Secures.pure hw₃ hw₃
    | error e => exact Secures.throw hw₃
  cases action with
  | skip => exact Secures.pure hw hw
  | runFresh => exact hrun 0 w hw
  | resume n =>
      exact Secures.bind ((hresume archiveCurrentAttempt_emits hw).mono fun _ w₁ hw₁ _ =>
        hrun n w₁ hw₁)

lemma createRunDir_tracked {runId workflowName : String}
    (h : createRunDir t runDir runId workflowName = some t') : Tracked runDir p ⟨t', []⟩ := by
  have hnone : ∀ q, q ≠ [] → q ≠ ["attempts"] → q ≠ ["manifest.json"] →
      t'.node (runDir ++ q) = none := by
    intro q hq hattempts hmanifest
    rw [createRunDir_node h hq, if_neg hattempts, if_neg hmanifest]
  have hmarker : ∀ name, t'.node (markersDir runDir ++ [name]) = none := by
    intro name
    rw [markersDir, List.append_assoc]
    exact hnone _ (by simp) (by simp) (by simp)
  have hlock : t'.node (lockOf runDir p) = none := hnone _ (by simp) (by simp) (by simp)
  exact ⟨fun c hc => absurd hc (by simp), fun _ => fileAt_eq_none.mpr (Or.inl (hmarker _)),
    fun name _ hnode => absurd (hmarker name) hnode,
    fileAt_eq_none.mpr (Or.inl (hnone _ (by simp) (by simp) (by simp))), by simp [isDir, hlock]⟩

lemma Reached.tracked (hapart : MarkersApart runDir phases p)
    (h : Reached perform runDir phases w) : Tracked runDir p w := by
  induction h with
  | created create => exact createRunDir_tracked create
  | run _ mem dir name steps ih => exact (run_tracked hapart mem dir name ih).invariant steps ih
  | resume _ mem dir name steps ih =>
      exact (executeAction_tracked hapart mem dir name _ ih).invariant steps ih

end Reached

section Resume

/-- The plan resumes the phase at the attempt, and in an execution without faults its directory
goes to the archive and its lock is taken. -/
structure Resumes (script : Script) (runDir : Path) (p lockBody : String) (status : StatusMap)
    (w : World B) (n : ℕ) : Prop where
  planned : planPhase w.disk runDir status p = some (.resume n)
  archived : (eval (handle script) (archiveCurrentAttempt runDir p (previousAttempt n)) w).2.1 =
    .ok ()
  locked : (eval (handle script) (acquireLock runDir p lockBody)
    (eval (handle script) (archiveCurrentAttempt runDir p (previousAttempt n)) w).2.2).2.1 = .ok ()

lemma statusOf_completed {name : String} {dir : Path}
    (h : statusOf t dir name = some (p, .completed)) :
    name = p ++ ".completed" ∧ (fileAt t (dir ++ [name])).isSome := by
  unfold statusOf at h
  cases hfile : fileAt t (dir ++ [name]) with
  | none => simp [hfile] at h
  | some bytes =>
      rw [hfile, Option.bind_some] at h
      by_cases hc : endsWith name ".completed" = true
      · obtain ⟨q, rfl⟩ := endsWith_iff.mp hc
        rw [if_pos hc, markerPhase_completed] at h
        obtain ⟨_, _, heq⟩ := Option.map_eq_some_iff.mp h
        cases heq
        exact ⟨rfl, rfl⟩
      · rw [if_neg hc] at h
        split at h
        · cases h
        · split at h <;> cases h

lemma markerPhase_failed (p : String) : markerPhase (p ++ ".failed") = p := by
  have hnone : stripSuffix (p ++ ".failed") ".completed" = none := by
    rw [stripSuffix, if_neg (by rw [not_completed_failed p]; decide)]
  rw [markerPhase, hnone, stripSuffix_append]
  rfl

lemma statusOf_failed {dir : Path} (h : (fileAt t (dir ++ [p ++ ".failed"])).isSome) :
    statusOf t dir (p ++ ".failed") = some (p, .failed) := by
  obtain ⟨bytes, hbytes⟩ := Option.isSome_iff_exists.mp h
  rw [statusOf, hbytes, Option.bind_some, not_completed_failed p, endsWith_append,
    markerPhase_failed]
  rfl

/-- A failed phase without a completed marker has the status failed. -/
lemma scanOf_failed {dir : Path} (hfailed : (fileAt t (dir ++ [p ++ ".failed"])).isSome)
    (hcompleted : fileAt t (dir ++ [p ++ ".completed"]) = none) :
    (scanOf t dir).phaseStatus.lookup p = some .failed := by
  have hstatus := statusOf_failed hfailed
  cases hlookup : (scanOf t dir).phaseStatus.lookup p with
  | none => exact absurd hstatus (scanOf_status_eq_none.mp hlookup _ _)
  | some s =>
      obtain ⟨⟨name, hname⟩, hmax⟩ := scanOf_status_eq_some hlookup
      have hrank := hmax _ _ hstatus
      cases s with
      | failed => rfl
      | completed =>
          obtain ⟨rfl, hfile⟩ := statusOf_completed hname
          simp [hcompleted] at hfile
      | started => simp [statusRank] at hrank
      | none => simp [statusRank] at hrank

lemma load_phaseStatus {now : ℤ} {ttlSeconds : ℕ} {state : RunState}
    (h : load t runDir now ttlSeconds = .ok state) :
    state.phaseStatus = (scanOf t (markersDir runDir)).phaseStatus := by
  unfold load at h
  cases hmanifest : loadManifest t runDir with
  | error e => simp [hmanifest, bind, Except.bind] at h
  | ok manifest =>
      cases hmarkers : loadMarkers t runDir with
      | error e => simp [hmanifest, hmarkers, bind, Except.bind] at h
      | ok scan =>
          have hscan : scan = scanOf t (markersDir runDir) := by
            have hfile : fileAt t (markersDir runDir) = none := by
              by_contra hne
              obtain ⟨b, hb⟩ := Option.ne_none_iff_exists'.mp hne
              have hnode := fileAt_eq_some.mp hb
              simp [loadMarkers, occupied, isDir, hnode] at hmarkers
            rw [loadMarkers_eq hfile] at hmarkers
            exact (Except.ok.inj hmarkers).symm
          simp only [hmanifest, hmarkers, bind, Except.bind] at h
          split at h
          · cases h
          · split at h
            · cases h
            · cases h
              rw [hscan]

lemma Tracked.nextAttempt (hw : Tracked runDir p w) (hname : IsName p)
    (hmarkers : isDir w.disk (markersDir runDir) = true)
    (hattempts : isDir w.disk (attemptsOf runDir p) = true) :
    ∃ n, nextAttempt w.disk runDir p = some n := by
  have hoccupied : ∀ q, isDir w.disk q = true → occupied w.disk q = true := by
    intro q hq
    simp [occupied, isDir_iff.mp hq]
  obtain ⟨attempts, hread⟩ : ∃ attempts, ((readDir w.disk (markersDir runDir)).filter
      (startsWith · (p ++ ".started."))).mapM (fun name =>
        ((fileAt w.disk (markersDir runDir ++ [name])).bind RunFormat.readStarted).map
          StartedMarker.attempt) = some attempts := by
    refine mapM_isSome fun name hmem => ?_
    obtain ⟨hdir, hstart⟩ := List.mem_filter.mp hmem
    obtain ⟨c, hc⟩ := hw.started name hstart (mem_readDir.mp hdir)
    exact ⟨c.attempt, by rw [hc, Option.map_some]⟩
  have hfromMarkers : nextAttemptFromMarkers w.disk (markersDir runDir) p =
      some (nextOf attempts) := by
    unfold nextAttemptFromMarkers
    rw [if_neg (by simp [hoccupied _ hmarkers]), if_neg (by simp [hmarkers])]
    dsimp only
    rw [hread]
    rfl
  have hpath : join (runDir ++ ["attempts"]) p = attemptsOf runDir p := by
    rw [join_of_isName hname, List.append_assoc]
    rfl
  obtain ⟨dirs, hfromDirs⟩ : ∃ m, nextAttemptFromDirs w.disk (attemptsOf runDir p) = some m := by
    unfold nextAttemptFromDirs
    rw [if_neg (by simp [hoccupied _ hattempts]), if_neg (by simp [hattempts])]
    exact ⟨_, rfl⟩
  refine ⟨max (nextOf attempts) dirs, ?_⟩
  rw [RunLoad.nextAttempt, hfromMarkers, hpath, hfromDirs]
  rfl

lemma createDirOr_eval {ε ρ : Type} {script : Script} {wrap : String → ε} {q : Path}
    {f : Unit → Run B ε ρ} (h : createDirAll w.disk q = some t) :
    (eval (handle script) (createDirOr wrap q >>= f : Run B ε ρ) w).2 =
      (eval (handle script) (f ()) ⟨t, w.log⟩).2 := by
  have hhandle : handle script (.createDirAll q) w = (.ok (), ⟨t, w.log⟩) := by
    show changed (createDirAll w.disk q) w.log w = _
    rw [h]
    rfl
  have hbind : (createDirOr wrap q >>= f : Run B ε ρ) =
      op (S := RunSig B) (.createDirAll q) >>= fun answer => orThrow wrap answer >>= f := rfl
  rw [hbind, eval_op_bind, hhandle]
  rfl

lemma createDirOr_failed {ε ρ : Type} {script : Script} {wrap : String → ε} {q : Path}
    {f : Unit → Run B ε ρ} (h : createDirAll w.disk q = none) :
    (eval (handle script) (createDirOr wrap q >>= f : Run B ε ρ) w).2 = (.error (wrap ""), w) := by
  have hhandle : handle script (.createDirAll q) w = (.error "", w) := by
    show changed (createDirAll w.disk q) w.log w = _
    rw [h]
    rfl
  have hbind : (createDirOr wrap q >>= f : Run B ε ρ) =
      op (S := RunSig B) (.createDirAll q) >>= fun answer => orThrow wrap answer >>= f := rfl
  rw [hbind, eval_op_bind, hhandle]
  rfl

lemma isName_of_valid (h : validatePhaseName p = true) : IsName p := by
  simp only [validatePhaseName, Bool.and_eq_true, decide_eq_true_eq, Bool.not_eq_true'] at h
  obtain ⟨⟨⟨⟨⟨hempty, hslash⟩, _⟩, _⟩, hdot⟩, hdotdot⟩ := h
  refine ⟨fun hmem => ?_, hempty, ?_, ?_⟩
  · have hnot : ¬ "/".toList <:+: p.toList := by simpa [contains] using hslash
    obtain ⟨l, r, hlr⟩ := List.append_of_mem hmem
    exact hnot ⟨l, r, by rw [hlr]; simp⟩
  · rintro rfl
    exact hdot (by decide)
  · rintro rfl
    exact hdotdot (by decide)

/-- The lock of a phase is taken exactly when its name is valid and nothing is in the way. -/
lemma acquireLock_ok_iff {script : Script} {lockBody : String} :
    (eval (handle script) (acquireLock runDir p lockBody) w).2.1 = .ok () ↔
      validatePhaseName p = true ∧ isDir w.disk runDir = true ∧
        fileAt w.disk (runDir ++ ["locks"]) = none ∧ isDir w.disk (lockOf runDir p) = false := by
  unfold acquireLock
  by_cases hvalid : validatePhaseName p = true
  swap
  · rw [if_neg hvalid]
    exact ⟨fun h => (by cases h), fun h => absurd h.1 hvalid⟩
  rw [if_pos hvalid]
  show (eval (handle script) (if isDir w.disk runDir then takeLock runDir p lockBody
    else (throw _ : Run B ResumeError Unit)) w).2.1 = .ok () ↔ _
  by_cases hdir : isDir w.disk runDir = true
  swap
  · rw [if_neg hdir]
    exact ⟨fun h => (by cases h), fun h => absurd h.2.1 hdir⟩
  rw [if_pos hdir]
  show (eval (handle script) (createDirOr .lockIo (runDir ++ ["locks"]) >>= fun _ =>
    writeFileOr .lockIo (lockPath runDir p) (RunFormat.ofText lockBody) :
      Run B ResumeError Unit) w).2.1 = .ok () ↔ _
  have hpath : lockPath runDir p = lockOf runDir p := lockPath_eq (isName_of_valid hvalid).no_slash
  by_cases hfile : fileAt w.disk (runDir ++ ["locks"]) = none
  · obtain ⟨t₁, hlocks⟩ := createDirAll_child hdir hfile
    have hparent : isDir t₁ (runDir ++ ["locks"]) = true := createDirAll_isDir hlocks
    have hlock : isDir t₁ (lockOf runDir p) = isDir w.disk (lockOf runDir p) := by
      rw [isDir, isDir, createDirAll_node hlocks, if_neg not_lock_below]
    rw [createDirOr_eval hlocks, hpath]
    show (eval (handle script) (orThrow ResumeError.lockIo (changed (writeFile t₁ (lockOf runDir p)
      (RunFormat.ofText lockBody)) w.log ⟨t₁, w.log⟩).1) _).2.1 = .ok () ↔ _
    by_cases hfree : isDir w.disk (lockOf runDir p) = false
    · have hwritable : Writable t₁ (lockOf runDir p) := by
        refine ⟨by simp [lockOf], hlock.trans hfree, ?_⟩
        rw [lockOf, List.dropLast_append_of_ne_nil (by simp)]
        exact hparent
      have hwrite : writeFile t₁ (lockOf runDir p) (RunFormat.ofText lockBody) =
          some (setFile t₁ _ _ hwritable) := dif_pos hwritable
      rw [hwrite]
      exact ⟨fun _ => ⟨hvalid, hdir, hfile, hfree⟩, fun _ => rfl⟩
    · have hwrite : writeFile t₁ (lockOf runDir p) (RunFormat.ofText lockBody) = none :=
        dif_neg fun hwritable => hfree (hlock.symm.trans hwritable.not_dir)
      rw [hwrite]
      exact ⟨fun h => (by cases h), fun h => absurd h.2.2.2 hfree⟩
  · have hcreate : createDirAll w.disk (runDir ++ ["locks"]) = none := by
      rw [createDirAll, if_pos]
      exact ⟨_, (List.mem_inits _ _).mpr List.prefix_rfl, Option.isSome_iff_ne_none.mpr hfile⟩
    refine ⟨fun h => ?_, fun h => absurd h.2.2.1 hfile⟩
    rw [createDirOr_failed hcreate] at h
    cases h

/-- The resumed phase gets to its run, with the lock held. -/
lemma Resumes.reaches_run {script : Script} {lockBody : String} {status : StatusMap} {n : ℕ}
    {eng : Engines} {cfg : PhaseConfig} {inp : PhaseInputs}
    (h : Resumes script inp.runDir cfg.phase lockBody status w n) :
    ∃ tr w', Steps (following (handle script)) (resumePhase eng cfg inp lockBody n) w tr
      (lockedRun eng cfg inp n) w' := by
  have harchive := eval_steps_bind (f := fun _ => runPhase eng cfg inp lockBody n) h.archived
  have hlock := eval_steps_bind (f := fun _ => lockedRun eng cfg inp n) h.locked
  exact ⟨_, _, harchive.trans hlock⟩

/-- A failed phase that never completed is planned to resume. -/
lemma Tracked.planned {now : ℤ} {ttlSeconds : ℕ} {state : RunState} (hw : Tracked runDir p w)
    (hname : IsName p) (hfailed : ∃ c, .failed c ∈ w.log ∧ c.phase = p)
    (hnot : ∀ c, .completed c ∈ w.log → c.phase ≠ p)
    (hload : load w.disk runDir now ttlSeconds = .ok state) :
    isDir w.disk runDir = true ∧ ∃ n, planPhase w.disk runDir state.phaseStatus p = some (.resume n) := by
  obtain ⟨c, hc, hphase⟩ := hfailed
  obtain ⟨hfile, hattempts⟩ := hw.failed c hc hphase
  have hmarkers : isDir w.disk (markersDir runDir) = true := by
    obtain ⟨b, hb⟩ := Option.isSome_iff_exists.mp hfile
    refine isDir_iff.mpr (w.disk.node_parent (s := p ++ ".failed") ?_)
    rw [fileAt_eq_some.mp hb]
    exact Option.some_ne_none _
  have hdir : isDir w.disk runDir = true := by
    have hnode := isDir_iff.mp hmarkers
    exact isDir_iff.mpr (w.disk.node_parent (p := runDir) (s := "markers") (by
      rw [← markersDir, hnode]
      exact Option.some_ne_none _))
  obtain ⟨n, hnext⟩ := hw.nextAttempt hname hmarkers hattempts
  refine ⟨hdir, n, ?_⟩
  rw [load_phaseStatus hload, planPhase, scanOf_failed hfile (hw.completed hnot), hnext]
  rfl

lemma archive_absent {script : Script} {n : ℕ} (h : occupied w.disk (join runDir p) = false) :
    (eval (handle script) (archiveCurrentAttempt runDir p n) w).2 = (.ok (), w) := by
  show (eval (handle script) (if occupied w.disk (join runDir p) then _
    else (pure () : Run B ResumeError Unit)) w).2 = _
  rw [h]
  rfl

lemma archive_there {script : Script} {n : ℕ} (h : occupied w.disk (join runDir p) = true) :
    (eval (handle script) (archiveCurrentAttempt runDir p n) w).2 =
      (eval (handle script) (createDirOr .io (join (runDir ++ ["attempts"]) p) >>= fun _ =>
        moveAttempt (join runDir p) (archiveDest runDir p n) : Run B ResumeError Unit) w).2 := by
  show (eval (handle script) (if occupied w.disk (join runDir p) then _
    else (pure () : Run B ResumeError Unit)) w).2 = _
  rw [h]
  rfl

lemma moveAttempt_taken {script : Script} {src dest : Path} (h : occupied w.disk dest = true) :
    (eval (handle script) (moveAttempt src dest : Run B ResumeError Unit) w).2.1 =
      .error (.io ("archive destination already exists: " ++ displayPath dest)) := by
  show (eval (handle script) (if occupied w.disk dest then
    (throw (.io ("archive destination already exists: " ++ displayPath dest)) : Run B ResumeError Unit)
    else _) w).2.1 = _
  rw [if_pos h]
  rfl

lemma moveAttempt_free {script : Script} {src dest : Path} (h : occupied w.disk dest = false) :
    (eval (handle script) (moveAttempt src dest : Run B ResumeError Unit) w).2 =
      (eval (handle script) (orThrow .io (changed (rename w.disk src dest) w.log w).1 :
        Run B ResumeError Unit) (changed (rename w.disk src dest) w.log w).2).2 := by
  show (eval (handle script) (if occupied w.disk dest then
    (throw (.io ("archive destination already exists: " ++ displayPath dest)) : Run B ResumeError Unit)
    else (op (S := RunSig B) (.rename src dest) >>= orThrow .io : Run B ResumeError Unit)) w).2 = _
  rw [h]
  rfl

/-- The archive cannot be made when the phase has a directory and its place is taken. -/
lemma archive_taken (script : Script) {n : ℕ} (hthere : occupied w.disk (join runDir p) = true)
    (htaken : occupied w.disk (archiveDest runDir p n) = true) :
    ∃ e, (eval (handle script) (archiveCurrentAttempt runDir p n) w).2.1 = .error e := by
  rw [archive_there hthere]
  cases hcreate : createDirAll w.disk (join (runDir ++ ["attempts"]) p) with
  | none => exact ⟨.io "", congrArg Prod.fst (createDirOr_failed hcreate)⟩
  | some t =>
      have hkept : occupied t (archiveDest runDir p n) = true := by
        have hnode : w.disk.node (archiveDest runDir p n) ≠ none := by
          intro hnone
          simp [occupied, hnone] at htaken
        rw [occupied, createDirAll_keeps hcreate hnode]
        exact htaken
      rw [createDirOr_eval hcreate]
      exact ⟨_, moveAttempt_taken hkept⟩

/-- Where the place in the archive is taken, the resumed phase gets to its run exactly when there is
nothing to archive and the lock takes the phase's name. -/
lemma Tracked.resumes_iff {script : Script} {lockBody : String} {status : StatusMap} {n : ℕ}
    (hw : Tracked runDir p w) (hdir : isDir w.disk runDir = true)
    (hplanned : planPhase w.disk runDir status p = some (.resume n))
    (htaken : occupied w.disk (archiveDest runDir p (previousAttempt n)) = true) :
    Resumes script runDir p lockBody status w n ↔
      occupied w.disk (join runDir p) = false ∧ validatePhaseName p = true := by
  constructor
  · intro h
    refine ⟨?_, (acquireLock_ok_iff.mp h.locked).1⟩
    by_contra hthere
    rw [Bool.not_eq_false] at hthere
    obtain ⟨e, he⟩ := archive_taken script hthere htaken
    rw [h.archived] at he
    cases he
  · rintro ⟨habsent, hvalid⟩
    refine ⟨hplanned, by rw [archive_absent habsent], ?_⟩
    rw [archive_absent habsent]
    exact acquireLock_ok_iff.mpr ⟨hvalid, hdir, hw.locks, hw.lock⟩

end Resume

end Loker.Resumability
