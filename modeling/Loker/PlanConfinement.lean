import Loker.PlanCommands

/-! Where the plan commands write: which contents keep them inside the project. -/

namespace Loker.PlanConfinement

open FileTree LexicalPaths PlanCommands Programs SpecBlocks SpecFiles TomlText

section Runs

variable {S : Signature} {ρ ε τ : Type} {P : S.Op → Prop}

/-- Every operation may answer anything. -/
def anyAnswer (S : Signature) : Semantics S Unit := fun _ _ _ _ => True

/-- Every operation gives its usual answer. -/
def usual (S : Signature) [∀ o, Inhabited (S.Answer o)] (o : S.Op) (s : Unit) :
    S.Answer o × Unit := (default, s)

/-- What holds of every operation of every run holds of every operation that is asked for. -/
lemma emits_of_runs [∀ o, Inhabited (S.Answer o)] {p : Prog S ρ}
    (h : ∀ tr r, Runs (anyAnswer S) p () tr r () → ∀ e ∈ tr, P e.op) : Emits P p := by
  induction p with
  | ret r => trivial
  | act o next ih =>
    constructor
    · have hruns : Runs (anyAnswer S) (.act o next) () (eval (usual S) (.act o next) ()).1
          (eval (usual S) (.act o next) ()).2.1 () := eval_runs (fun _ _ => trivial) _ ()
      exact h _ _ hruns _ List.mem_cons_self
    · intro a
      apply ih
      intro tr r hrun e he
      exact h (⟨o, a⟩ :: tr) r (.act trivial hrun) e (List.mem_cons_of_mem _ he)

lemma emits_iff_runs [∀ o, Inhabited (S.Answer o)] {p : Prog S ρ} :
    Emits P p ↔ ∀ tr r, Runs (anyAnswer S) p () tr r () → ∀ e ∈ tr, P e.op :=
  ⟨fun h _ _ hrun => (hrun.emits h).2, emits_of_runs⟩

/-- What a sequence asks for includes what its first part does. -/
lemma emits_first {p : ExceptT ε (Prog S) ρ} {f : ρ → ExceptT ε (Prog S) τ}
    (h : Emits P (p >>= f : ExceptT ε (Prog S) τ)) : Emits P p := by
  revert h
  refine Prog.rec (motive := fun p => Emits P (Prog.bind p (ExceptT.bindCont f)) → Emits P p)
    ?_ ?_ (show Prog S (Except ε ρ) from p)
  · intro _ _
    trivial
  · intro o next ih h
    exact ⟨h.1, fun a => ih a (h.2 a)⟩

lemma emits_forM {α : Type} {f : α → ExceptT ε (Prog S) Unit} {xs : List α}
    (h : ∀ x ∈ xs, Emits P (f x)) : Emits P (xs.forM f : ExceptT ε (Prog S) Unit) := by
  induction xs with
  | nil => trivial
  | cons x xs ih =>
    apply Emits.exceptBind (h x List.mem_cons_self)
    intro _
    exact ih fun y hy => h y (List.mem_cons_of_mem _ hy)

end Runs

instance : ∀ o, Inhabited (PlanOps.Answer o)
  | .effect _ => ⟨.ok ()⟩
  | .generate _ _ _ => ⟨.generated ""⟩
  | .fix _ _ _ => ⟨.generated ""⟩

section Confinement

/-- The files and directories that an operation may create or overwrite, in a project whose own
directory is there. -/
def Touches (dir : RawPath) : Op → RawPath → Prop
  | .effect (.createDirAll path), q => dir.Beyond path q
  | .effect (.write path _), q => q = path
  | .effect (.updateSpecStatus path _ _), q => q = path
  | _, _ => False

def Untouched (dir : RawPath) (o : Op) : Prop := ∀ q, ¬ Touches dir o q

/-- At most the status of a subtask is written. -/
def TargetUntouched (dir : RawPath) (o : Op) : Prop :=
  (∃ path status error, o = .effect (.updateSpecStatus path status error)) ∨ Untouched dir o

/-- Inside the project; the files of the specs inside their directory. -/
def ImplementKeeps (dir : RawPath) (o : Op) : Prop :=
  ∀ q, Touches dir o q → dir.Inside q ∧
    ∀ path status error, o = .effect (.updateSpecStatus path status error) →
      (specsDir dir).Inside q

/-- Inside the specs' directory, or on the way to it. -/
def SpecKeeps (dir : RawPath) (o : Op) : Prop :=
  ∀ q, Touches dir o q → dir.Inside q ∧ ((specsDir dir).Inside q ∨ dir.Beyond (specsDir dir) q)

variable (lib : Library) (tables : CharTables) (dir : RawPath)

/-- The steps that are run and found, with what is found of them. -/
def visits (filter : Option String) (content : RoadmapContent) : List (RoadmapStep × Found) :=
  match readRoadmap lib content with
  | .error _ => []
  | .ok roadmap => ((stepsToRun filter roadmap).map fun step =>
      (step.1, content.found step.2)).filter fun visit => visit.2.present

/-- Every run of the command stays inside the project, and of a step or a subtask whose path does
not, nothing is written. -/
structure ImplementConfined (filter : Option String) (content : RoadmapContent) : Prop where
  inside : ∀ verify tr r, Runs (ρ := Except String Unit) (anyAnswer PlanOps)
    (implement lib dir verify filter content) () tr r () → ∀ e ∈ tr, ImplementKeeps dir e.op
  refused_dir : ∀ visit ∈ visits lib filter content, ¬ Contained visit.1.dir → ∀ verify tr r,
    Runs (ρ := Except String Unit) (anyAnswer PlanOps)
      (implementStep lib dir verify visit.1 visit.2) () tr r () → ∀ e ∈ tr, Untouched dir e.op
  refused_file : ∀ visit ∈ visits lib filter content, ∀ task ∈ subtasksOf lib visit.2.entries,
    ∀ target, task.2.file = some target → ¬ Contained target → ∀ verify parentWhat tr r,
    Runs (ρ := Except String Unit) (anyAnswer PlanOps)
      (implementSubtask dir verify (stepDirOf dir visit.1) parentWhat task) () tr r () →
    ∀ e ∈ tr, TargetUntouched dir e.op

structure SpecConfined (task : String) (content : PlanContent) : Prop where
  inside : ∀ backendCount tr r, Runs (ρ := Except String Unit) (anyAnswer PlanOps)
    (runSpec lib tables dir backendCount task content) () tr r () → ∀ e ∈ tr, SpecKeeps dir e.op
  refused_spec : ∀ spec ∈ sortedSpecs lib content.output,
    ¬ Contained (SpecFiles.stepDir spec.1 spec.2) → ∀ tr r,
    Runs (ρ := Except String Unit) (anyAnswer PlanOps) (writeSpec lib tables dir content spec)
      () tr r () → ∀ e ∈ tr, Untouched dir e.op
  refused_subtask : ∀ spec ∈ sortedSpecs lib content.output,
    ∀ subtask ∈ subtasksFor lib content spec.1,
    ¬ Contained (SpecFiles.stepDir spec.1 spec.2 ++ "/" ++ subtaskFile subtask) → ∀ tr r,
    Runs (ρ := Except String Unit) (anyAnswer PlanOps) (writeSubtask tables
      ((specsDir dir).join (SpecFiles.stepDir spec.1 spec.2)) subtask) () tr r () →
    ∀ e ∈ tr, Untouched dir e.op

/-- The subtask is worked on. -/
def Actionable (task : DirEntry × SubtaskSpec) (target : String) : Prop :=
  task.2.status ≠ .complete ∧ task.2.file = some target

/-- No step that has a subtask to work on, and no target of such a subtask, is absolute or climbs
out of its directory. -/
def ImplementSafe (filter : Option String) (content : RoadmapContent) : Prop :=
  ∀ visit ∈ visits lib filter content, ∀ task ∈ subtasksOf lib visit.2.entries, ∀ target,
    Actionable task target → Contained target ∧ Contained visit.1.dir

/-- No spec and no subtask has a name that climbs out of the specs' directory. -/
def SpecSafe (content : PlanContent) : Prop :=
  ∀ spec ∈ sortedSpecs lib content.output, Contained (SpecFiles.stepDir spec.1 spec.2) ∧
    ∀ subtask ∈ subtasksFor lib content spec.1,
      Contained (SpecFiles.stepDir spec.1 spec.2 ++ "/" ++ subtaskFile subtask)

end Confinement

section Effects

variable {dir : RawPath} {P : Op → Prop} {e : Effect}

lemma attempt_emits (h : P (.effect e)) : Emits (S := PlanOps) P (attempt e) := Emits.op h

lemma perform_emits (h : P (.effect e)) : Emits (S := PlanOps) P (perform e) := by
  apply Emits.exceptBind (attempt_emits h)
  intro answer
  cases answer with
  | ok _ => trivial
  | error _ => trivial

lemma createDirAll_keeps {path : RawPath} (h : ∀ q, dir.Beyond path q → dir.Inside q) :
    ImplementKeeps dir (.effect (.createDirAll path)) := fun q hq => ⟨h q hq, nofun⟩

lemma write_keeps {path : RawPath} {text : String} (h : dir.Inside path) :
    ImplementKeeps dir (.effect (.write path text)) := by
  rintro q rfl
  exact ⟨h, nofun⟩

lemma untouched_keeps {o : Op} (h : Untouched dir o) : ImplementKeeps dir o :=
  fun q hq => absurd hq (h q)

lemma specsDir_inside (dir : RawPath) : dir.Inside (specsDir dir) := by
  have hspecs : specsDir dir = ⟨dir.rooted, dir.parts ++ [".arf", "specs"]⟩ := by
    rw [specsDir, join_relative (by decide), join_relative (by decide), List.append_assoc]
    rfl
  rw [hspecs]
  exact inside_of_walk (by decide)

lemma normalComponents_name {name : String} (h : IsName name) : normalComponents name = [name] := by
  rw [normalComponents, components_of_no_slash h.no_slash, List.filter_cons_of_pos, List.filter_nil]
  rw [decide_eq_true_eq]
  exact ⟨h.ne_empty, h.ne_dot⟩

lemma absolute_name {name : String} (h : IsName name) : absolute name = false := by
  rw [absolute, decide_eq_false_iff_not]
  intro hhead
  exact h.no_slash (List.mem_of_mem_head? hhead)

/-- A file of a directory below a base is below the base. -/
lemma entry_inside {base : RawPath} {below name : String} (h : Contained below)
    (hname : IsName name) : base.Inside ((base.join below).join name) := by
  rw [join_relative (absolute_name hname), join_relative h.1, normalComponents_name hname,
    List.append_assoc]
  apply inside_of_walk
  obtain ⟨names, hnames⟩ := Option.isSome_iff_exists.mp h.2
  rw [walk_append, hnames, Option.bind_some, walk, if_neg hname.ne_dotdot]
  rfl

end Effects

section Implement

variable {lib : Library} {dir stepDir : RawPath} {verify : Bool} {target code parentWhat : String}
  {task : DirEntry × SubtaskSpec}

/-- Making the directories above a contained path makes none outside its base. -/
lemma beyond_parent {q : RawPath} (h : Contained target)
    (hq : dir.Beyond ⟨dir.rooted, (dir.parts ++ normalComponents target).dropLast⟩ q) :
    dir.Inside q := by
  by_cases hnil : normalComponents target = []
  · rw [hnil, List.append_nil] at hq
    exact absurd ⟨hq.1, hq.2.1.trans (List.dropLast_prefix _)⟩ hq.2.2
  · rw [List.dropLast_append_of_ne_nil hnil] at hq
    exact beyond_inside (walk_front (List.dropLast_prefix _) h.2) hq

lemma writeTarget_emits (h : Contained target) :
    Emits (S := PlanOps) (ImplementKeeps dir) (writeTarget dir target code) := by
  have hwrite : Emits (S := PlanOps) (ImplementKeeps dir)
      (perform (.write (dir.join target) code)) := perform_emits (write_keeps h.inside)
  unfold writeTarget
  dsimp only
  cases hparent : (dir.join target).parent with
  | none => exact hwrite
  | some parent =>
    apply Emits.exceptBind
    · apply perform_emits
      apply createDirAll_keeps
      intro q hq
      rw [RawPath.parent, join_relative h.1] at hparent
      split at hparent
      · cases hparent
      · obtain rfl := Option.some.inj hparent
        exact beyond_parent h hq
    · exact fun _ => hwrite

lemma verifyLoop_emits (h : Contained target) (attempts : ℕ) (code : String) :
    Emits (S := PlanOps) (ImplementKeeps dir) (verifyLoop dir target attempts code) := by
  induction attempts generalizing code with
  | zero =>
    unfold verifyLoop
    apply Emits.exceptBind (attempt_emits (untouched_keeps fun _ => id))
    intro answer
    cases answer with
    | ok _ => trivial
    | error _ => trivial
  | succ attempts ih =>
    unfold verifyLoop
    apply Emits.exceptBind (attempt_emits (untouched_keeps fun _ => id))
    intro answer
    cases answer with
    | ok _ => trivial
    | error error =>
      dsimp only
      apply Emits.exceptBind (Emits.op (untouched_keeps fun _ => id))
      intro fixed
      cases fixed with
      | aborted _ => trivial
      | failed _ => trivial
      | generated output =>
        dsimp only
        cases cleanCodeOutput output with
        | panicked => trivial
        | rejected => trivial
        | code fixedCode =>
          apply Emits.exceptBind (perform_emits (write_keeps h.inside))
          intro _
          exact ih fixedCode

lemma updateSpecStatus_keeps {step : RoadmapStep} {name error : String} {status : SubtaskStatus}
    (h : Contained step.dir) (hname : IsName name) : ImplementKeeps dir
      (.effect (.updateSpecStatus ((stepDirOf dir step).join name) status error)) := by
  rintro q rfl
  have hinside : (specsDir dir).Inside ((stepDirOf dir step).join name) := entry_inside h hname
  exact ⟨(specsDir_inside dir).trans hinside, fun _ _ _ _ => hinside⟩

lemma implementSubtask_emits {step : RoadmapStep}
    (h : ∀ target, Actionable task target → Contained target ∧ Contained step.dir) :
    Emits (S := PlanOps) (ImplementKeeps dir)
      (implementSubtask dir verify (stepDirOf dir step) parentWhat task) := by
  unfold implementSubtask
  split
  · trivial
  next hstatus =>
  cases hfile : task.2.file with
  | none => trivial
  | some target =>
    obtain ⟨htarget, hdir⟩ := h target ⟨hstatus, hfile⟩
    have hname := task.1.isName
    apply Emits.exceptBind (Emits.op (untouched_keeps fun _ => id))
    intro generation
    cases generation with
    | aborted _ => trivial
    | failed _ => exact perform_emits (updateSpecStatus_keeps hdir hname)
    | generated output =>
      dsimp only
      cases cleanCodeOutput output with
      | panicked => trivial
      | rejected => exact perform_emits (updateSpecStatus_keeps hdir hname)
      | code cleanCode =>
        apply Emits.exceptBind (writeTarget_emits htarget)
        intro _
        apply Emits.exceptBind
        · unfold checkTarget
          split
          · exact verifyLoop_emits htarget 3 cleanCode
          · trivial
        · intro succeeded
          apply Emits.exceptBind (perform_emits (updateSpecStatus_keeps hdir hname))
          intro _
          cases succeeded with
          | false => trivial
          | true =>
            apply Emits.exceptBind (attempt_emits (untouched_keeps fun _ => id))
            intro _
            trivial

lemma read_emits (path : RawPath) :
    Emits (S := PlanOps) (ImplementKeeps dir) (perform (.read path)) :=
  perform_emits (untouched_keeps fun _ => id)

lemma implementStep_emits {visit : RoadmapStep × Found}
    (h : ∀ task ∈ subtasksOf lib visit.2.entries, ∀ target, Actionable task target →
      Contained target ∧ Contained visit.1.dir) :
    Emits (S := PlanOps) (ImplementKeeps dir) (implementStep lib dir verify visit.1 visit.2) := by
  unfold implementStep
  split
  · apply Emits.exceptBind
    · cases visit.2.spec with
      | none => trivial
      | some _ => exact read_emits _
    intro _
    apply Emits.exceptBind (read_emits _)
    intro _
    apply Emits.exceptBind (emits_forM fun _ _ => read_emits _)
    intro _
    exact emits_forM fun task htask => implementSubtask_emits (h task htask)
  · trivial

lemma implement_emits {filter : Option String} {content : RoadmapContent}
    (h : ImplementSafe lib filter content) : Emits (S := PlanOps) (ImplementKeeps dir)
      (implement lib dir verify filter content) := by
  apply Emits.exceptBind
  · unfold readRoadmapFile
    split
    · exact read_emits _
    · trivial
  intro _
  unfold implementSteps
  cases hread : readRoadmap lib content with
  | error _ => trivial
  | ok roadmap =>
    dsimp only
    split
    · trivial
    apply Emits.exceptBind (perform_emits (untouched_keeps fun _ => id))
    intro _
    apply emits_forM
    intro step hstep
    cases hpresent : (content.found step.2).present with
    | false =>
      rw [implementStep, if_neg (by rw [hpresent]; decide)]
      trivial
    | true =>
      have hvisit : (step.1, content.found step.2) ∈ visits lib filter content := by
        rw [visits, hread]
        exact List.mem_filter.mpr ⟨List.mem_map.mpr ⟨step, hstep, rfl⟩, hpresent⟩
      have hsafe := h _ hvisit
      exact implementStep_emits hsafe

end Implement

section Refusals

variable {lib : Library} {dir stepDir : RawPath} {verify : Bool} {target parentWhat : String}
  {task : DirEntry × SubtaskSpec} {P : Op → Prop} {filter : Option String}
  {content : RoadmapContent}

lemma perform_then {e : Effect} {f : Unit → Command Unit}
    (h : Emits (S := PlanOps) P (perform e >>= f : Command Unit)) :
    Emits (S := PlanOps) P (f ()) := h.2 (.ok ())

lemma generate_then {target parentWhat : String} {subtask : SubtaskSpec}
    {f : Generation → Command Unit} (generation : Generation)
    (h : Emits (S := PlanOps) P (generate target parentWhat subtask >>= f : Command Unit)) :
    Emits (S := PlanOps) P (f generation) := h.2 generation

lemma perform_all {α : Type} (e : α → Effect) (xs : List α) :
    (eval (S := PlanOps) (ρ := Except String Unit) (usual PlanOps)
      (xs.forM fun x => perform (e x) : Command Unit) ()).2.1 = .ok () := by
  induction xs with
  | nil => rfl
  | cons x xs ih => exact ih

/-- The effects may all work. -/
lemma forM_perform_then {α : Type} {e : α → Effect} {xs : List α} {f : Unit → Command Unit}
    (h : Emits (S := PlanOps) P ((xs.forM fun x => perform (e x) : Command Unit) >>= f :
      Command Unit)) : Emits (S := PlanOps) P (f ()) :=
  ((eval_steps_bind (perform_all e xs)).emits h).1

lemma not_untouched_write {path : RawPath} {text : String} :
    ¬ Emits (S := PlanOps) (Untouched dir) (perform (.write path text)) :=
  fun h => h.1 path rfl

lemma not_targetUntouched_write {path : RawPath} {text : String} :
    ¬ Emits (S := PlanOps) (TargetUntouched dir) (perform (.write path text)) := by
  intro h
  rcases h.1 with ⟨_, _, _, hstatus⟩ | huntouched
  · cases hstatus
  · exact huntouched path rfl

/-- A subtask that is worked on may have its target written. -/
lemma actionable_written (h : Actionable task target) : ¬ Emits (S := PlanOps)
    (TargetUntouched dir) (implementSubtask dir verify stepDir parentWhat task) := by
  intro hemits
  have hclean : cleanCodeOutput "" = .code "" := by decide
  rw [implementSubtask, if_neg h.1, h.2] at hemits
  have hgenerated := generate_then (.generated "") hemits
  dsimp only at hgenerated
  rw [hclean] at hgenerated
  have hwritten : Emits (S := PlanOps) (TargetUntouched dir) (writeTarget dir target "") :=
    emits_first hgenerated
  unfold writeTarget at hwritten
  dsimp only at hwritten
  cases hparent : (dir.join target).parent with
  | none =>
    rw [hparent] at hwritten
    exact not_targetUntouched_write hwritten
  | some parent =>
    rw [hparent] at hwritten
    exact not_targetUntouched_write (perform_then hwritten)

/-- Its status may be written, in its step's directory. -/
lemma actionable_updated (h : Actionable task target) : ¬ Emits (S := PlanOps)
    (Untouched dir) (implementSubtask dir verify stepDir parentWhat task) := by
  intro hemits
  rw [implementSubtask, if_neg h.1, h.2] at hemits
  exact (hemits.2 (.failed "")).1 _ rfl

lemma not_actionable_skipped (h : ∀ target, ¬ Actionable task target) :
    implementSubtask dir verify stepDir parentWhat task = pure () := by
  unfold implementSubtask
  split
  · rfl
  next hstatus =>
  cases hfile : task.2.file with
  | none => rfl
  | some target => exact absurd ⟨hstatus, hfile⟩ (h target)

lemma tasks_updated {tasks : List (DirEntry × SubtaskSpec)} (htask : task ∈ tasks)
    (h : Actionable task target) : ¬ Emits (S := PlanOps) (Untouched dir)
      (tasks.forM (implementSubtask dir verify stepDir parentWhat) : Command Unit) := by
  induction tasks with
  | nil => cases htask
  | cons head tasks ih =>
    intro hemits
    by_cases hhead : ∃ target, Actionable head target
    · obtain ⟨target', hhead⟩ := hhead
      exact actionable_updated hhead (emits_first hemits)
    · have hskipped : implementSubtask dir verify stepDir parentWhat head = pure () :=
        not_actionable_skipped fun target' hactionable => hhead ⟨target', hactionable⟩
      have hne : task ≠ head := by
        rintro rfl
        exact hhead ⟨target, h⟩
      have hrest : task ∈ tasks := (List.mem_cons.mp htask).resolve_left hne
      apply ih hrest
      change Emits (S := PlanOps) _ (implementSubtask dir verify stepDir parentWhat head >>=
        fun _ => tasks.forM (implementSubtask dir verify stepDir parentWhat) : Command Unit)
        at hemits
      rw [hskipped] at hemits
      exact hemits

lemma step_updated {visit : RoadmapStep × Found} (hpresent : visit.2.present = true)
    (htask : task ∈ subtasksOf lib visit.2.entries) (h : Actionable task target) :
    ¬ Emits (S := PlanOps) (Untouched dir) (implementStep lib dir verify visit.1 visit.2) := by
  intro hemits
  rw [implementStep, if_pos hpresent] at hemits
  have hread : ∀ spec : Option String, ∀ f : Unit → Command Unit,
      Emits (S := PlanOps) (Untouched dir) (readSpec dir visit.1 spec >>= f : Command Unit) →
      Emits (S := PlanOps) (Untouched dir) (f ()) := by
    intro spec f hf
    cases spec with
    | none => exact hf
    | some _ => exact perform_then hf
  exact tasks_updated htask h (forM_perform_then (perform_then (hread _ _ hemits)))

/-- Of a step without a subtask to work on, nothing is written. -/
lemma step_untouched {visit : RoadmapStep × Found}
    (h : ∀ task ∈ subtasksOf lib visit.2.entries, ∀ target, ¬ Actionable task target) :
    Emits (S := PlanOps) (Untouched dir) (implementStep lib dir verify visit.1 visit.2) := by
  have hread : ∀ path, Emits (S := PlanOps) (Untouched dir) (perform (.read path)) :=
    fun path => perform_emits fun _ => id
  unfold implementStep
  split
  · apply Emits.exceptBind
    · cases visit.2.spec with
      | none => trivial
      | some _ => exact hread _
    intro _
    apply Emits.exceptBind (hread _)
    intro _
    apply Emits.exceptBind (emits_forM fun _ _ => hread _)
    intro _
    apply emits_forM
    intro task htask
    rw [not_actionable_skipped (h task htask)]
    trivial
  · trivial

lemma visits_present {visit : RoadmapStep × Found} (h : visit ∈ visits lib filter content) :
    visit.2.present = true := by
  unfold visits at h
  split at h
  · cases h
  · exact (List.mem_filter.mp h).2

/-- When the implement command keeps to the project. -/
lemma implementConfined_iff :
    ImplementConfined lib dir filter content ↔ ImplementSafe lib filter content := by
  constructor
  · intro h visit hvisit task htask target hactionable
    constructor
    · by_contra hout
      have hemits := emits_of_runs (S := PlanOps) (P := TargetUntouched dir)
        (h.refused_file visit hvisit task htask target hactionable.2 hout true "")
      exact actionable_written hactionable hemits
    · by_contra hout
      have hemits := emits_of_runs (S := PlanOps) (P := Untouched dir)
        (h.refused_dir visit hvisit hout true)
      exact step_updated (visits_present hvisit) htask hactionable hemits
  · intro h
    constructor
    · intro verify
      exact emits_iff_runs.mp (implement_emits h)
    · intro visit hvisit hout verify
      exact emits_iff_runs.mp (step_untouched fun task htask target hactionable =>
        hout (h visit hvisit task htask target hactionable).2)
    · intro visit hvisit task htask target hfile hout verify parentWhat
      have hstatus : task.2.status = .complete := by
        by_contra hstatus
        exact hout (h visit hvisit task htask target ⟨hstatus, hfile⟩).1
      rw [implementSubtask, if_pos hstatus]
      exact emits_iff_runs.mp trivial

end Refusals

section Spec

variable {lib : Library} {tables : CharTables} {dir : RawPath} {content : PlanContent}
  {spec : String × SpecEntry} {subtask : String × SubtaskEntry} {task noSpecs : String}

lemma twoDigits_head (n : ℕ) (s : String) :
    ∃ c cs, (twoDigits n ++ s).toList = c :: cs ∧ c ≠ '/' := by
  cases hchars : (twoDigits n).toList with
  | nil =>
    have hne : twoDigits n ≠ "" := by
      unfold twoDigits
      split
      · simp
      · exact (isName_repr n).ne_empty
    exact absurd (String.toList_inj.mp hchars) hne
  | cons c cs =>
    refine ⟨c, cs ++ s.toList, by rw [String.toList_append, hchars, List.cons_append], ?_⟩
    rintro rfl
    have hmem : '/' ∈ (twoDigits n).toList := by
      rw [hchars]
      exact List.mem_cons_self
    unfold twoDigits at hmem
    split at hmem
    · rw [String.toList_append] at hmem
      rcases List.mem_append.mp hmem with hmem | hmem
      · exact absurd hmem (by decide)
      · exact slash_not_mem_repr n hmem
    · exact slash_not_mem_repr n hmem

/-- A numbered name is relative, whatever the name. -/
lemma numbered_relative (n : ℕ) (s : String) : absolute (twoDigits n ++ s) = false := by
  obtain ⟨c, cs, hchars, hc⟩ := twoDigits_head n s
  rw [absolute, hchars, List.head?_cons, decide_eq_false_iff_not, Option.some.injEq]
  exact hc

lemma subtaskFile_relative (subtask : String × SubtaskEntry) :
    absolute (subtaskFile subtask) = false := by
  rw [subtaskFile, String.append_assoc, String.append_assoc]
  exact numbered_relative _ _

lemma join_join {base : RawPath} {a b : String} (ha : absolute a = false)
    (hb : absolute b = false) (hab : absolute (a ++ "/" ++ b) = false) :
    (base.join a).join b = base.join (a ++ "/" ++ b) := by
  rw [join_relative hb, join_relative ha, join_relative hab, List.append_assoc]
  congr 2
  rw [normalComponents, normalComponents, normalComponents, components_concat, List.filter_append]

lemma untouched_specKeeps {o : Op} (h : Untouched dir o) : SpecKeeps dir o :=
  fun q hq => absurd hq (h q)

lemma write_specKeeps {path : RawPath} {text : String} (h : (specsDir dir).Inside path) :
    SpecKeeps dir (.effect (.write path text)) := by
  rintro q rfl
  exact ⟨(specsDir_inside dir).trans h, Or.inl h⟩

lemma specsDir_eq (dir : RawPath) :
    specsDir dir = ⟨dir.rooted, dir.parts ++ [".arf", "specs"]⟩ := by
  rw [specsDir, join_relative (by decide), join_relative (by decide), List.append_assoc]
  rfl

lemma specsDir_created : SpecKeeps dir (.effect (.createDirAll (specsDir dir))) := by
  intro q hq
  refine ⟨?_, Or.inr hq⟩
  have hbeyond : dir.Beyond (specsDir dir) q := hq
  rw [specsDir_eq] at hbeyond
  exact beyond_inside (by decide) hbeyond

/-- What is made for a directory below the specs' is below them or above them. -/
lemma stepDir_created {s : String} (h : Contained s) :
    SpecKeeps dir (.effect (.createDirAll ((specsDir dir).join s))) := by
  intro q hq
  have hbeyond : dir.Beyond ((specsDir dir).join s) q := hq
  rw [join_relative h.1] at hbeyond
  by_cases habove : q.parts <+: (specsDir dir).parts
  · have hspecs : dir.Beyond (specsDir dir) q := ⟨hbeyond.1, habove, hbeyond.2.2⟩
    exact specsDir_created q hspecs
  · have hinside : (specsDir dir).Inside q :=
      beyond_inside h.2 ⟨hbeyond.1, hbeyond.2.1, fun hq => habove hq.2⟩
    exact ⟨(specsDir_inside dir).trans hinside, Or.inl hinside⟩

lemma spec_arf : IsName "spec.arf" := ⟨by decide, by decide, by decide, by decide⟩

lemma writeSubtask_emits {below : String} (hbelow : absolute below = false)
    (h : Contained (below ++ "/" ++ subtaskFile subtask)) : Emits (S := PlanOps) (SpecKeeps dir)
      (writeSubtask tables ((specsDir dir).join below) subtask) := by
  have hinside : (specsDir dir).Inside
      (((specsDir dir).join below).join (subtaskFile subtask)) := by
    rw [join_join hbelow (subtaskFile_relative subtask) h.1]
    exact h.inside
  exact perform_emits (write_specKeeps hinside)

lemma writeSpec_emits (h : Contained (SpecFiles.stepDir spec.1 spec.2))
    (hsubtasks : ∀ subtask ∈ subtasksFor lib content spec.1,
      Contained (SpecFiles.stepDir spec.1 spec.2 ++ "/" ++ subtaskFile subtask)) :
    Emits (S := PlanOps) (SpecKeeps dir) (writeSpec lib tables dir content spec) := by
  have hspec : (specsDir dir).Inside
      (((specsDir dir).join (SpecFiles.stepDir spec.1 spec.2)).join "spec.arf") :=
    entry_inside h spec_arf
  have hwrite : Emits (S := PlanOps) (SpecKeeps dir) (perform
      (.write (((specsDir dir).join (SpecFiles.stepDir spec.1 spec.2)).join "spec.arf")
        (formatSpec tables spec.2))) := perform_emits (write_specKeeps hspec)
  unfold writeSpec
  apply Emits.exceptBind (perform_emits (stepDir_created h))
  intro _
  apply Emits.exceptBind hwrite
  intro _
  exact emits_forM fun subtask hsubtask => writeSubtask_emits h.1 (hsubtasks subtask hsubtask)

lemma writePlan_emits (h : SpecSafe lib content) :
    Emits (S := PlanOps) (SpecKeeps dir) (writePlan lib tables dir noSpecs task content) := by
  have hroadmap : Contained "roadmap.arf" := by decide
  unfold writePlan
  dsimp only
  split
  · trivial
  apply Emits.exceptBind (perform_emits specsDir_created)
  intro _
  apply Emits.exceptBind (perform_emits (write_specKeeps hroadmap.inside))
  intro _
  apply Emits.exceptBind (emits_forM fun _ _ => perform_emits (untouched_specKeeps fun _ => id))
  intro _
  apply emits_forM
  intro spec hspec
  exact writeSpec_emits (h spec hspec).1 (h spec hspec).2

lemma runSpec_emits (h : SpecSafe lib content) (backendCount : ℕ) :
    Emits (S := PlanOps) (SpecKeeps dir)
      (runSpec lib tables dir backendCount task content) := by
  have hask : ∀ e : Effect, Untouched dir (.effect e) →
      Emits (S := PlanOps) (SpecKeeps dir) (perform e) :=
    fun e he => perform_emits (untouched_specKeeps he)
  unfold runSpec runSingleBackend
  apply Emits.exceptBind (hask _ fun _ => id)
  intro _
  split
  · apply Emits.exceptBind (hask _ fun _ => id)
    intro _
    apply Emits.exceptBind (hask _ fun _ => id)
    intro _
    exact writePlan_emits h
  · apply Emits.exceptBind (hask _ fun _ => id)
    intro _
    apply Emits.exceptBind (hask _ fun _ => id)
    intro _
    apply Emits.exceptBind (hask _ fun _ => id)
    intro _
    apply Emits.exceptBind (hask _ fun _ => id)
    intro _
    exact writePlan_emits h

/-- When the spec command keeps to the specs' directory. -/
lemma specConfined_iff : SpecConfined lib tables dir task content ↔ SpecSafe lib content := by
  constructor
  · intro h spec hspec
    constructor
    · by_contra hout
      have hemits := emits_of_runs (S := PlanOps) (P := Untouched dir)
        (h.refused_spec spec hspec hout)
      exact not_untouched_write (emits_first (perform_then hemits))
    · intro subtask hsubtask
      by_contra hout
      have hemits := emits_of_runs (S := PlanOps) (P := Untouched dir)
        (h.refused_subtask spec hspec subtask hsubtask hout)
      exact not_untouched_write hemits
  · intro h
    constructor
    · intro backendCount
      exact emits_iff_runs.mp (runSpec_emits h backendCount)
    · intro spec hspec hout
      exact absurd (h spec hspec).1 hout
    · intro spec hspec subtask hsubtask hout
      exact absurd ((h spec hspec).2 subtask hsubtask) hout

end Spec

section Claim

/-- Which roadmaps, subtasks and specs keep the two commands where they belong. -/
theorem plan_commands_confined_iff (lib : Library) (tables : CharTables) (dir : RawPath)
    (filter : Option String) (roadmap : RoadmapContent) (task : String) (plan : PlanContent) :
    (ImplementConfined lib dir filter roadmap ↔ ImplementSafe lib filter roadmap) ∧
      (SpecConfined lib tables dir task plan ↔ SpecSafe lib plan) :=
  ⟨implementConfined_iff, specConfined_iff⟩

lemma visits_found {lib : Library} {filter : Option String} {content : RoadmapContent}
    {visit : RoadmapStep × Found} (h : visit ∈ visits lib filter content) :
    ∃ i, visit.2 = content.found i := by
  unfold visits at h
  split at h
  · cases h
  · obtain ⟨hvisit, _⟩ := List.mem_filter.mp h
    obtain ⟨step, _, rfl⟩ := List.mem_map.mp hvisit
    exact ⟨step.2, rfl⟩

def project : RawPath := ⟨true, ["home", "user", "project"]⟩

/-- A subtask with a target beside the project. -/
def strayEntry : DirEntry where
  name := "01-handler.arf"
  isName := ⟨by decide, by decide, by decide, by decide⟩
  content := "what = \"The handler\"\nfile = \"../outside.rs\"\n"

def strayRoadmap : RoadmapContent where
  specsPresent := true
  roadmap := some ("what = \"Login\"\n\n[[steps]]\norder = 1\nspec = \"login\"\n" ++
    "dir = \"01-login\"\nsummary = \"Login form\"\n")
  found _ := ⟨true, none, [strayEntry]⟩

/-- A spec with a name that leads out of the project. -/
def strayPlan : PlanContent where
  output := "[spec.a/../../../../out]\nwhat = \"Out\"\nwhy = \"Asked for\"\n"
  breakdown _ := none

lemma strayRoadmap_unsafe : ¬ ImplementSafe plainReader none strayRoadmap := by
  intro hsafe
  have hdirs : (visits plainReader none strayRoadmap).map (fun visit => visit.1.dir) =
      ["01-login"] := by decide +kernel
  have htasks : (subtasksOf plainReader [strayEntry]).map
      (fun task => (task.2.status, task.2.file)) = [(.pending, some "../outside.rs")] := by
    decide +kernel
  have hvisit : "01-login" ∈ (visits plainReader none strayRoadmap).map
      fun visit => visit.1.dir := by
    rw [hdirs]
    exact List.mem_cons_self
  have htask : (SubtaskStatus.pending, some "../outside.rs") ∈
      (subtasksOf plainReader [strayEntry]).map fun task => (task.2.status, task.2.file) := by
    rw [htasks]
    exact List.mem_cons_self
  obtain ⟨visit, hvisit, _⟩ := List.mem_map.mp hvisit
  obtain ⟨task, htask, htarget⟩ := List.mem_map.mp htask
  obtain ⟨hstatus, hfile⟩ := Prod.mk.inj htarget
  obtain ⟨_, hfound⟩ := visits_found hvisit
  have hentries : visit.2.entries = [strayEntry] := by rw [hfound]; rfl
  rw [← hentries] at htask
  have hactionable : Actionable task "../outside.rs" := ⟨by rw [hstatus]; decide, hfile⟩
  have hcontained := (hsafe visit hvisit task htask _ hactionable).1
  exact absurd hcontained (by decide)

lemma strayPlan_unsafe : ¬ SpecSafe plainReader strayPlan := by
  intro hsafe
  have hdirs : (sortedSpecs plainReader strayPlan.output).map
      (fun spec => SpecFiles.stepDir spec.1 spec.2) = ["00-a/../../../../out"] := by decide +kernel
  have hspec : "00-a/../../../../out" ∈ (sortedSpecs plainReader strayPlan.output).map
      fun spec => SpecFiles.stepDir spec.1 spec.2 := by
    rw [hdirs]
    exact List.mem_cons_self
  obtain ⟨spec, hspec, hdir⟩ := List.mem_map.mp hspec
  have hcontained := (hsafe spec hspec).1
  rw [hdir] at hcontained
  exact absurd hcontained (by decide)

/-- The target and the spec's directory are made outside the project. -/
theorem stray_paths_written :
    ¬ ImplementConfined plainReader project none strayRoadmap ∧
      ¬ SpecConfined plainReader latinTables project "Out" strayPlan ∧
      (project.join "../outside.rs").normal = ⟨0, ["home", "user", "outside.rs"]⟩ ∧
      ((specsDir project).join "00-a/../../../../out").normal = ⟨0, ["home", "user", "out"]⟩ ∧
      (project.join "/etc/hosts").normal = ⟨0, ["etc", "hosts"]⟩ := by
  have htarget : (project.join "../outside.rs").normal = ⟨0, ["home", "user", "outside.rs"]⟩ := by
    decide
  have hspec : ((specsDir project).join "00-a/../../../../out").normal =
      ⟨0, ["home", "user", "out"]⟩ := by decide
  have habsolute : (project.join "/etc/hosts").normal = ⟨0, ["etc", "hosts"]⟩ := by decide
  refine ⟨fun h => strayRoadmap_unsafe (implementConfined_iff.mp h),
    fun h => strayPlan_unsafe (specConfined_iff.mp h), htarget, hspec, habsolute⟩

end Claim

end Loker.PlanConfinement
