import Loker.CrashHistories

/-! What the resume command decides from a loaded run directory, and when it gets to a plan. -/

namespace Loker.ResumeDecision

open FileTree TextOps Programs RunFiles RunLoad RunOps Dispatch Strategies PhaseRunner Resume

variable {B : Type} [RunFormat B] {t : Disk B} {runDir : Path} {now : ℤ} {ttlSeconds : ℕ}
  {find : String → Option (List PhaseConfig)} {state : RunState} {phases : List String}
  {configs : List PhaseConfig}

section Decide

inductive Decision where
  | loadFailed (e : LoadError)
  | inProgress (heartbeat : Heartbeat)
  | allComplete
  | noState
  | manifestFailed (e : ManifestError)
  | noWorkflowName
  | workflowNotFound (name : String)
  | noPhases
  | planFailed (e : ResumeError)
  | execute (actions : List (PhaseConfig × PhaseAction))
  deriving DecidableEq, Repr

/-- The plan over the phases of the workflow that the manifest names. -/
def planWorkflow (t : Disk B) (runDir : Path) (state : RunState)
    (find : String → Option (List PhaseConfig)) (name : String) : Decision :=
  match find name with
  | none => .workflowNotFound name
  | some [] => .noPhases
  | some (cfg :: configs) =>
      match plan t runDir state (cfg :: configs) with
      | .ok actions => .execute actions
      | .error e => .planFailed e

def planManifest (t : Disk B) (runDir : Path) (state : RunState)
    (find : String → Option (List PhaseConfig)) : Decision :=
  match manifestLoad t runDir with
  | .error e => .manifestFailed e
  | .ok manifest =>
      match manifest.workflowName with
      | none => .noWorkflowName
      | some name => planWorkflow t runDir state find name

/-- The two guards on the statuses of the phases that have a marker, and then the plan. -/
def decideStatus (t : Disk B) (runDir : Path) (state : RunState)
    (find : String → Option (List PhaseConfig)) : Decision :=
  if state.phaseStatus ≠ [] ∧ ∀ x ∈ state.phaseStatus, x.2 = .completed then .allComplete
  else if ∀ x ∈ state.phaseStatus, x.2 = .none then .noState
  else planManifest t runDir state find

/-- The resume command; `find` locates a workflow and gives its phase configurations. -/
def resumeDecision (t : Disk B) (runDir : Path) (now : ℤ) (ttlSeconds : ℕ)
    (find : String → Option (List PhaseConfig)) : Decision :=
  match load t runDir now ttlSeconds with
  | .error e => .loadFailed e
  | .ok state =>
      match state.heartbeat with
      | some (.live heartbeat) => .inProgress heartbeat
      | _ => decideStatus t runDir state find

end Decide

section Faithful

def CompletedIn (state : RunState) (p : String) : Prop :=
  state.phaseStatus.lookup p = some .completed

instance (state : RunState) (p : String) : Decidable (CompletedIn state p) :=
  inferInstanceAs (Decidable (_ = _))

/-- What the decision plans, in order. -/
def Decision.actions : Decision → List (PhaseConfig × PhaseAction)
  | .execute actions => actions
  | _ => []

/-- The command gets to a plan over these phase configurations. -/
structure ResumeReady (t : Disk B) (runDir : Path) (find : String → Option (List PhaseConfig))
    (state : RunState) (configs : List PhaseConfig) : Prop where
  not_live : ∀ heartbeat, state.heartbeat ≠ some (.live heartbeat)
  unfinished : ∃ x ∈ state.phaseStatus, x.2 ≠ .completed
  started : ∃ x ∈ state.phaseStatus, x.2 ≠ .none
  found : ∃ manifest name, manifestLoad t runDir = .ok manifest ∧
    manifest.workflowName = some name ∧ find name = some configs
  readable : ∀ cfg ∈ configs, (planPhase t runDir state.phaseStatus cfg.phase).isSome

lemma planPhase_skip {status : StatusMap} {p : String}
    (h : planPhase t runDir status p = some .skip) : status.lookup p = some .completed := by
  unfold planPhase at h
  split at h
  · cases h
  · next hstatus => exact hstatus
  · obtain ⟨n, _, hn⟩ := Option.map_eq_some_iff.mp h
    cases hn
  · obtain ⟨n, _, hn⟩ := Option.map_eq_some_iff.mp h
    cases hn
  · cases h

lemma plan_eq_ok {actions : List (PhaseConfig × PhaseAction)}
    (h : plan t runDir state configs = .ok actions) :
    actions.map Prod.fst = configs ∧
      ∀ x ∈ actions, planPhase t runDir state.phaseStatus x.1.phase = some x.2 := by
  have hmap : configs.mapM (fun cfg =>
      (planPhase t runDir state.phaseStatus cfg.phase).map (cfg, ·)) = some actions := by
    unfold plan at h
    split at h
    · next actions' hactions =>
      rw [hactions, Except.ok.inj h]
    · cases h
  clear h
  induction configs generalizing actions with
  | nil =>
      obtain rfl : actions = [] := by simpa using hmap.symm
      simp
  | cons cfg configs ih =>
      rw [List.mapM_cons] at hmap
      obtain ⟨x, hx, hmap⟩ := Option.bind_eq_some_iff.mp hmap
      obtain ⟨rest, hrest, hactions⟩ := Option.bind_eq_some_iff.mp hmap
      obtain ⟨action, haction, rfl⟩ := Option.map_eq_some_iff.mp hx
      obtain rfl : (cfg, action) :: rest = actions := Option.some.inj hactions
      obtain ⟨hfst, hplan⟩ := ih hrest
      exact ⟨by rw [List.map_cons, hfst], List.forall_mem_cons.mpr ⟨haction, hplan⟩⟩

lemma plan_ok (h : ∀ cfg ∈ configs, (planPhase t runDir state.phaseStatus cfg.phase).isSome) :
    ∃ actions, plan t runDir state configs = .ok actions := by
  have hsome : ∀ cfg ∈ configs, ∃ x : PhaseConfig × PhaseAction,
      (planPhase t runDir state.phaseStatus cfg.phase).map (cfg, ·) = some x := by
    intro cfg hcfg
    obtain ⟨action, haction⟩ := Option.isSome_iff_exists.mp (h cfg hcfg)
    exact ⟨(cfg, action), by rw [haction, Option.map_some]⟩
  obtain ⟨actions, hactions⟩ := mapM_isSome hsome
  exact ⟨actions, by rw [plan, hactions]⟩

lemma ResumeReady.execute (h : ResumeReady t runDir find state configs)
    (hne : configs ≠ []) (hload : load t runDir now ttlSeconds = .ok state) :
    ∃ actions, resumeDecision t runDir now ttlSeconds find = .execute actions ∧
      plan t runDir state configs = .ok actions := by
  obtain ⟨actions, hplan⟩ := plan_ok h.readable
  obtain ⟨manifest, name, hmanifest, hname, hfind⟩ := h.found
  obtain ⟨x, hx, hunfinished⟩ := h.unfinished
  obtain ⟨y, hy, hstarted⟩ := h.started
  obtain ⟨cfg, rest, rfl⟩ := List.exists_cons_of_ne_nil hne
  refine ⟨actions, ?_, hplan⟩
  have hstatus : decideStatus t runDir state find = .execute actions := by
    unfold decideStatus
    rw [if_neg fun hall => hunfinished (hall.2 x hx), if_neg fun hall => hstarted (hall y hy)]
    simp only [planManifest, hmanifest, hname, planWorkflow, hfind, hplan]
  unfold resumeDecision
  rw [hload]
  dsimp only
  split
  · next heartbeat hlive => exact absurd hlive (h.not_live heartbeat)
  · exact hstatus

/-- A decision that runs anything was ready for it. -/
lemma ready_of_execute {actions : List (PhaseConfig × PhaseAction)}
    (hload : load t runDir now ttlSeconds = .ok state)
    (h : resumeDecision t runDir now ttlSeconds find = .execute actions) :
    ∃ configs, ResumeReady t runDir find state configs ∧
      plan t runDir state configs = .ok actions := by
  unfold resumeDecision at h
  rw [hload] at h
  dsimp only at h
  split at h
  · cases h
  next hlive =>
  unfold decideStatus at h
  split at h
  · cases h
  next hall =>
  split at h
  · cases h
  next hnone =>
  unfold planManifest at h
  split at h
  · cases h
  next manifest hmanifest =>
  split at h
  · cases h
  next name hname =>
  unfold planWorkflow at h
  split at h
  · cases h
  · cases h
  next cfg configs hfind =>
  split at h
  swap
  · cases h
  next actions' hplan =>
  cases h
  obtain ⟨hfst, hactions⟩ := plan_eq_ok hplan
  simp only [not_forall, exists_prop] at hnone
  obtain ⟨y, hy, hstarted⟩ := hnone
  refine ⟨cfg :: configs, ⟨hlive, ?_, ⟨y, hy, hstarted⟩, ⟨manifest, name, hmanifest, hname, hfind⟩,
    fun c hc => ?_⟩, hplan⟩
  · by_contra hcompleted
    refine hall ⟨List.ne_nil_of_mem hy, fun x hx => ?_⟩
    by_contra hne
    exact hcompleted ⟨x, hx, hne⟩
  · rw [← hfst] at hc
    obtain ⟨x, hx, rfl⟩ := List.mem_map.mp hc
    rw [hactions x hx]
    rfl

end Faithful

section Truncated

open CrashHistories

def reviewPhase : PhaseConfig := .single "review" "claude" "Go" "review.md"

/-- The run directory when the first of two phases has just completed. -/
def afterDesign : World Doc :=
  (eval (handle ⟨fun _ => .ok "one", fun _ => .ok .pass⟩)
    (PhaseRunner.run plainEngines designPhase designInputs 0) newRun).2.2

def designCompleted : RunState :=
  ⟨"r1", [⟨"design.md", .designMd, 1, "tone", .single, some "design", some 0⟩], [],
    [("design", .completed)], none⟩

lemma afterDesign_load : load afterDesign.disk ["run"] 0 60 = .ok designCompleted := by decide

lemma afterDesign_reached : Reached perform ["run"] [designPhase, reviewPhase] afterDesign := by
  have hcreated : Reached perform ["run"] [designPhase, reviewPhase] newRun :=
    .created (show createRunDir Disk.empty ["run"] "r1" "design" = some newRun.disk from rfl)
  exact .run hcreated List.mem_cons_self rfl rfl (eval_runs (handle_performs _) _ _)

end Truncated

end Loker.ResumeDecision
