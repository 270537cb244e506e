import Loker.RunLayout

/-! Histories of phase runs, crashes and resumes, and the condition under which the run
directory loads after each of them. -/

namespace Loker.CrashHistories

open FileTree TextOps Programs RunFiles RunLoad LoadSpec RunOps Dispatch Strategies PhaseRunner
  Resume CommitProtocol RunLayout

variable {B : Type} [RunFormat B] {runDir : Path} {phases : List PhaseConfig} {t t' : Disk B}
  {w w' : World B}

section Histories

/-- The worlds that phase runs and resumed phases lead to, each of them stopped anywhere. -/
inductive Reached (sem : Semantics (RunSig B) (World B)) (runDir : Path)
    (phases : List PhaseConfig) : World B → Prop
  | created {t t' : Disk B} {runId workflowName : String}
      (create : createRunDir t runDir runId workflowName = some t') :
      Reached sem runDir phases ⟨t', []⟩
  | run {w w' : World B} {eng cfg inp attempt tr p} (before : Reached sem runDir phases w)
      (mem : cfg ∈ phases) (dir : inp.runDir = runDir) (name : inp.phaseName = cfg.phase)
      (steps : Steps sem (PhaseRunner.run eng cfg inp attempt) w tr p w') :
      Reached sem runDir phases w'
  | resume {w w' : World B} {eng cfg inp lockBody action tr p} (before : Reached sem runDir phases w)
      (mem : cfg ∈ phases) (dir : inp.runDir = runDir) (name : inp.phaseName = cfg.phase)
      (steps : Steps sem (executeAction eng cfg inp lockBody action) w tr p w') :
      Reached sem runDir phases w'

/-- The phases have plain names, and no output file is in the protocol's trees or in a directory
of a phase. -/
structure Layout (runDir : Path) (phases : List PhaseConfig) : Prop where
  file_kind : ∀ cfg ∈ phases, cfg.artefactKind ≠ .changesDir
  phase_name : ∀ cfg ∈ phases, IsName cfg.phase ∧
    cfg.phase ∉ ["manifest.json", "heartbeat.json", "markers"]
  output : ∀ cfg ∈ phases, ∀ s ∈ ["manifest.json", "heartbeat.json", "markers", "attempts",
    "locks"] ++ phases.map PhaseConfig.phase, ¬ runDir ++ [s] <+: join runDir cfg.artefactName
  parent : ∀ cfg ∈ phases, ¬ heartbeatPath runDir <+: parentOf runDir cfg.artefactName

/-- An artefact is not written over one of another digest whose manifest entry the sweep would
still keep. -/
def KeepsDigests (runDir : Path) (phases : List PhaseConfig) : Op B → World B → Prop
  | .writeFile p b, w => (∃ cfg ∈ phases, p = join runDir cfg.artefactName) →
      ∀ m, manifestAt w.disk runDir = some m → ∀ e ∈ m.entries, SweepKeeps w.disk runDir e →
        join runDir e.name = p → RunFormat.sha256Hex b = e.sha256
  | _, _ => True

/-- The names and the paths of the phases' artefacts. -/
def ArtefactName (phases : List PhaseConfig) (name : String) : Prop :=
  ∃ cfg ∈ phases, name = cfg.artefactName

def ArtefactPath (runDir : Path) (phases : List PhaseConfig) (p : Path) : Prop :=
  ∃ cfg ∈ phases, p = join runDir cfg.artefactName

variable {cfg : PhaseConfig} {inp : PhaseInputs}

lemma Layout.phaseClear (h : Layout runDir phases) (hmem : cfg ∈ phases) :
    PhaseClear runDir (ArtefactPath runDir phases) cfg.phase where
  isName := (h.phase_name cfg hmem).1
  not_protocol := (h.phase_name cfg hmem).2
  apart s hs q hq := by
    obtain ⟨other, hother, rfl⟩ := hq
    refine h.output other hother s ?_
    simp only [List.mem_cons, List.not_mem_nil, or_false] at hs
    rcases hs with rfl | rfl | rfl | rfl | rfl
    · simp
    · simp
    · simp
    · simp
    · exact List.mem_append_right _ (List.mem_map_of_mem hmem)

/-- The write of an artefact is safe when it keeps the digests. -/
lemma Layout.artefact (h : Layout runDir phases) (hmem : cfg ∈ phases) {b : B}
    (hkeeps : KeepsDigests runDir phases (.writeFile (join runDir cfg.artefactName) b) w) :
    FileSafe runDir w.disk (join runDir cfg.artefactName) b := by
  have hout : ∀ s ∈ ["manifest.json", "heartbeat.json", "markers"], ∀ rest,
      join runDir cfg.artefactName ≠ runDir ++ s :: rest := by
    intro s hs rest heq
    refine h.output cfg hmem s (List.mem_append_left _ ?_) ?_
    · simp only [List.mem_cons, List.not_mem_nil, or_false] at hs ⊢
      tauto
    · rw [heq, List.prefix_append_right_inj]
      simp
  refine ⟨hout _ (by simp) [], hout _ (by simp) [], fun name _ => ?_,
    fun heq => absurd heq (hout _ (by simp) []), hkeeps ⟨cfg, hmem, rfl⟩⟩
  rw [markersDir, List.append_assoc]
  exact hout _ (by simp) [name]

/-- Where the directory is safe, an operation of a phase that keeps the digests is harmless. -/
lemma Layout.harmless (h : Layout runDir phases) (hmem : cfg ∈ phases) (hdir : inp.runDir = runDir)
    (hname : inp.phaseName = cfg.phase) {o : Op B} (ho : ActionOp cfg inp o)
    (hw : Safe runDir (ArtefactName phases) w) (hkeeps : KeepsDigests runDir phases o w) :
    Harmless runDir o w := by
  have hnames : ∀ name, ArtefactName phases name → ArtefactPath runDir phases (join runDir name) := by
    rintro _ ⟨other, hother, rfl⟩
    exact ⟨other, hother, rfl⟩
  have hclear := h.phaseClear hmem
  rcases ho with hphase | hcommit | hresume
  · exact (hclear.phaseOp hdir hname hphase).harmless hw hnames
  · subst hdir
    by_cases hartefact : ∃ b, o = .writeFile (join inp.runDir cfg.artefactName) b
    · obtain ⟨b, rfl⟩ := hartefact
      exact h.artefact hmem hkeeps
    · exact (hclear.commitOp (h.parent cfg hmem) hcommit
        fun b hb => hartefact ⟨b, hb⟩).harmless hw hnames
  · subst hdir
    exact (hclear.resumeOp hresume).harmless hw hnames

lemma createRunDir_safe {names : String → Prop} {runId workflowName : String}
    (h : createRunDir t runDir runId workflowName = some t') : Safe runDir names ⟨t', []⟩ := by
  have hfile : fileAt t' (manifestPath runDir) =
      some (RunFormat.ofManifest (Manifest.new runId (some workflowName))) := by
    rw [fileAt_eq_some, manifestPath, createRunDir_node h (by simp)]
    rfl
  have hmanifest : manifestAt t' runDir = some (Manifest.new runId (some workflowName)) := by
    simp [manifestAt, hfile]
  have hnone : ∀ q, q ≠ [] → q ≠ ["attempts"] → q ≠ ["manifest.json"] →
      t'.node (runDir ++ q) = none := by
    intro q hq hattempts hmanifest
    rw [createRunDir_node h hq, if_neg hattempts, if_neg hmanifest]
  have hmarker : ∀ name, fileAt t' (markersDir runDir ++ [name]) = none := by
    intro name
    rw [markersDir, List.append_assoc]
    exact fileAt_eq_none.mpr (Or.inl (hnone _ (by simp) (by simp) (by simp)))
  have hconsistent : Consistent t' runDir (Manifest.new runId (some workflowName)) :=
    { manifest := hmanifest
      version := rfl
      entry_version := by simp [Manifest.new]
      file_kind := by simp [Manifest.new]
      markers := fileAt_eq_none.mpr (Or.inl (hnone _ (by simp) (by simp) (by simp)))
      heartbeat := by
        refine ⟨none, ?_⟩
        have hnode := hnone ["heartbeat.json"] (by simp) (by simp) (by simp)
        simp [readHeartbeat, occupied, heartbeatPath, hnode]
      kept := by simp [Manifest.new] }
  refine ⟨⟨_, hconsistent⟩, fun m hm e he => ?_, fun name bytes _ hbytes => ?_,
    fun m hm => absurd hm (by simp)⟩
  · obtain rfl := Option.some.inj (hmanifest.symm.trans hm)
    simp [Manifest.new] at he
  · rw [hmarker] at hbytes
    cases hbytes

lemma Reached.safe (hlayout : Layout runDir phases)
    (h : Reached (guarded (KeepsDigests runDir phases) perform) runDir phases w) :
    Safe runDir (ArtefactName phases) w := by
  induction h with
  | created create => exact createRunDir_safe create
  | @run w w' eng cfg inp attempt tr p _ mem dir name steps ih =>
      have hkind := hlayout.file_kind cfg mem
      refine steps.invariant
        (Meets.transfer (run_secures dir ⟨cfg, mem, rfl⟩ hkind ih) run_emits ?_ ih) ih
      intro o s a s' ho hs hact
      exact ⟨hlayout.harmless mem dir name (ho.imp_right Or.inl) hs hact.1, hact.2⟩
  | @resume w w' eng cfg inp lockBody action tr p _ mem dir name steps ih =>
      subst dir
      have hkind := hlayout.file_kind cfg mem
      refine steps.invariant (Meets.transfer
        (executeAction_secures action ⟨cfg, mem, rfl⟩ hkind ih) (executeAction_emits action) ?_ ih) ih
      intro o s a s' ho hs hact
      exact ⟨hlayout.harmless mem rfl name ho hs hact.1, hact.2⟩

end Histories

section Design

/-- Engines that pass every text on. -/
def plainEngines : Engines where
  template := .ok
  anyFailEvaluate _ := .ok ()
  aggregateVote _ := .error "no vote"
  aggregate _ _ := .error "no aggregate"
  redactSecrets s := s
  truncateExcerpt s _ := s
  buildFailureEnvelope _ prompt := prompt

def designPhase : PhaseConfig := .single "design" "claude" "Go" "design.md"

def designInputs : PhaseInputs := ⟨["claude"], none, "design", none, ["run"], "r1"⟩

def newRun : World Doc := ⟨(createRunDir Disk.empty ["run"] "r1" "design").getD Disk.empty, []⟩

lemma newRun_reached (sem : Semantics (RunSig Doc) (World Doc)) :
    Reached sem ["run"] [designPhase] newRun :=
  .created (show createRunDir Disk.empty ["run"] "r1" "design" = some newRun.disk from rfl)

lemma design_layout : Layout ["run"] [designPhase] where
  file_kind := by decide
  phase_name := by decide
  output := by decide
  parent := by decide

/-- While the manifest is empty every operation keeps the digests. -/
lemma keepsDigests_of_empty {o : Op Doc} {w : World Doc}
    (h : manifestAt w.disk ["run"] = some (Manifest.new "r1" (some "design"))) :
    KeepsDigests ["run"] [designPhase] o w := by
  cases o with
  | writeFile p b =>
      intro _ m hm e he
      obtain rfl := Option.some.inj (h.symm.trans hm)
      simp [Manifest.new] at he
  | _ => trivial

end Design

end Loker.CrashHistories
