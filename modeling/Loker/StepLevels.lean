import Loker.StepWorkflow

/-! The levels in which the steps of a workflow run: the depths of the steps and the check of each
step's dependencies at the start of its level. -/

namespace Loker.StepLevels

open TextOps RunLoad Programs

section Model

/-- A step with what decides whether it runs. -/
structure Step extends StepWorkflow.Step where
  «when» : Option String := none
  continueOnError : Option Bool := none
  deriving DecidableEq, Repr

structure Workflow where
  name : String
  steps : List Step := []
  continueOnError : Bool := false
  deriving DecidableEq, Repr

def stepContinueOnError (wf : Workflow) (step : Step) : Bool :=
  step.continueOnError.getD wf.continueOnError

def findStep (steps : List Step) (name : String) : Option Step :=
  steps.find? fun step => step.name = name

inductive WorkflowError where
  | missingDependency (workflow step missing : String)
  | circularDependency (workflow chain : String)
  | duplicateStepNames (workflow : String) (duplicates : List String)
  | minDepsSuccessWithoutDeps (workflow step : String)
  | stepNotFound (step : String)
  | outOfFuel
  deriving DecidableEq, Repr

end Model

section Depths

abbrev Depths := List (String × ℕ)

def Depths.insert (depths : Depths) (name : String) (depth : ℕ) : Depths :=
  (name, depth) :: depths.filter (·.1 ≠ name)

/-- The depths of some steps one after the other. -/
def depthsOf (depthOf : String → Depths → Except WorkflowError (ℕ × Depths)) :
    List String → Depths → Except WorkflowError (List ℕ × Depths)
  | [], depths => .ok ([], depths)
  | dep :: deps, depths => do
      let (d, depths) ← depthOf dep depths
      let (ds, depths) ← depthsOf depthOf deps depths
      pure (d :: ds, depths)

/-- The chain of steps from the one that is met again. -/
def chainOf (visiting : List String) (name : String) : String :=
  " -> ".intercalate (visiting.dropWhile (· ≠ name) ++ [name])

/-- No dependency has depth 0; a step is one deeper than its deepest dependency. -/
def calcDepth (wf : Workflow) : ℕ → String → List String → Depths →
    Except WorkflowError (ℕ × Depths)
  | 0, _, _, _ => .error .outOfFuel
  | fuel + 1, name, visiting, depths =>
      match depths.lookup name with
      | some d => .ok (d, depths)
      | none =>
          if name ∈ visiting then .error (.circularDependency wf.name (chainOf visiting name))
          else
            match findStep wf.steps name with
            | none => .error (.stepNotFound name)
            | some step => do
                let (ds, depths) ← depthsOf (fun dep => calcDepth wf fuel dep (visiting ++ [name]))
                  step.dependsOn depths
                let depth := if step.dependsOn = [] then 0 else ds.max?.getD 0 + 1
                pure (depth, depths.insert name depth)

def duplicateNames (steps : List Step) : List String :=
  ((steps.map fun step => step.name).filter fun name =>
    1 < (steps.map fun step => step.name).count name).dedup

def checkDependencies (wf : Workflow) : Except WorkflowError Unit :=
  wf.steps.forM fun step => step.dependsOn.forM fun dep =>
    if (findStep wf.steps dep).isSome then .ok ()
    else .error (.missingDependency wf.name step.name dep)

def checkMinDeps (wf : Workflow) : Except WorkflowError Unit :=
  wf.steps.forM fun step =>
    if 0 < step.minDepsSuccess.getD 0 ∧ step.dependsOn = [] then
      .error (.minDepsSuccessWithoutDeps wf.name step.name)
    else .ok ()

def allDepths (wf : Workflow) : Except WorkflowError Depths := do
  let (_, depths) ← depthsOf (fun name => calcDepth wf (wf.steps.length + 1) name [])
    (wf.steps.map fun step => step.name) []
  pure depths

/-- The names of each depth, in some order of the map. -/
def levelsOf (depths : Depths) : List (List String) :=
  (List.range ((depths.map Prod.snd).max?.getD 0 + 1)).map fun d =>
    (depths.filter fun x => x.2 = d).map Prod.fst

def groupByDepth (wf : Workflow) : Except WorkflowError (List (List String)) :=
  if duplicateNames wf.steps ≠ [] then
    .error (.duplicateStepNames wf.name (duplicateNames wf.steps))
  else do
    checkDependencies wf
    checkMinDeps wf
    let depths ← allDepths wf
    pure (levelsOf depths)

end Depths

section Levels

structure StepResult where
  name : String
  output : String
  success : Bool
  deriving DecidableEq, Repr

/-- The results by step; a later one of the same name replaces the earlier. -/
abbrev Results := String → Option StepResult

def Results.insert (results : Results) (r : StepResult) : Results :=
  Function.update results r.name (some r)

/-- Conditions and the texts of steps go through the template engine. -/
structure Engine where
  evaluateCondition : String → Results → Bool
  interpolate : Step → Results → Except String Unit

inductive RunError where
  | group (e : WorkflowError)
  | stepNotFound (step : String)
  | failed (message : String)
  deriving DecidableEq, Repr

/-- `skipped` lists the steps whose condition was not met. -/
structure Progress where
  results : Results
  ordered : List StepResult
  skipped : List String

structure Level where
  progress : Progress
  stepsToRun : List Step

variable (eng : Engine) (wf : Workflow)

def depFailed (results : Results) (dep : String) : Bool :=
  ((results dep).map fun r => !r.success).getD false

def depSucceeded (results : Results) (dep : String) : Bool :=
  ((results dep).map StepResult.success).getD false

def depContinueOnError (dep : String) : Bool :=
  ((findStep wf.steps dep).map (stepContinueOnError wf)).getD false

def hardFailedDeps (results : Results) (step : Step) : List String :=
  step.dependsOn.filter fun dep => depFailed results dep && !depContinueOnError wf dep

def successfulDeps (results : Results) (step : Step) : ℕ :=
  step.dependsOn.countP (depSucceeded results)

def consensusMessage (step : Step) (successful min : ℕ) : String :=
  "Consensus not reached: " ++ successful.repr ++ "/" ++ step.dependsOn.length.repr ++
    " dependencies succeeded (need " ++ min.repr ++ ")"

/-- Why the dependencies keep a step from running: the text of the record of a skipped step and
that of the error. -/
def obstacle (results : Results) (step : Step) : Option (String × String) :=
  match step.minDepsSuccess with
  | some min =>
      let successful := successfulDeps results step
      if successful < min then
        let message := consensusMessage step successful min
        some (message, "step '" ++ step.name ++ "' - " ++ message)
      else none
  | none =>
      let failed := ", ".intercalate (hardFailedDeps wf results step)
      if hardFailedDeps wf results step ≠ [] then
        some ("dependency failed (" ++ failed ++ ")",
          "step '" ++ step.name ++ "' depends on failed step(s): " ++ failed)
      else none

def conditionMet (results : Results) (step : Step) : Bool :=
  (step.when.map fun condition => eng.evaluateCondition condition results).getD true

def Progress.record (p : Progress) (r : StepResult) : Progress :=
  { p with results := p.results.insert r, ordered := p.ordered ++ [r] }

/-- One step at the start of its level: it is skipped, recorded as failed or run. -/
def prepareStep (level : Level) (step : Step) : Except RunError Level :=
  let results := level.progress.results
  if conditionMet eng results step = false then
    .ok { level with progress :=
      { level.progress with skipped := level.progress.skipped ++ [step.name] } }
  else
    match obstacle wf results step with
    | some (record, message) =>
        if stepContinueOnError wf step then
          .ok { level with progress :=
            level.progress.record ⟨step.name, "Skipped: " ++ record, false⟩ }
        else .error (.failed ("Workflow '" ++ wf.name ++ "' failed: " ++ message))
    | none =>
        match eng.interpolate step results with
        | .error message => .error (.failed message)
        | .ok () => .ok { level with stepsToRun := level.stepsToRun ++ [step] }

def prepareName (level : Level) (name : String) : Except RunError Level :=
  match findStep wf.steps name with
  | none => .error (.stepNotFound name)
  | some step => prepareStep eng wf level step

def prepareLevel (p : Progress) (names : List String) : Except RunError Level :=
  names.foldlM (prepareName eng wf) ⟨p, []⟩

variable (outcome : Step → String × Bool)

/-- A step that runs ends in some outcome. -/
def execute (step : Step) : StepResult := ⟨step.name, (outcome step).1, (outcome step).2⟩

/-- The steps of a level run side by side; their results are stored when all are done. -/
def runLevel (p : Progress) (names : List String) : Except RunError Progress := do
  let level ← prepareLevel eng wf p names
  pure ((level.stepsToRun.map (execute outcome)).foldl Progress.record level.progress)

def runLevels (p : Progress) (levels : List (List String)) : Except RunError Progress :=
  levels.foldlM (runLevel eng wf outcome) p

def initial : Progress := ⟨fun _ => none, [], []⟩

def run : Except RunError (List StepResult) :=
  match groupByDepth wf with
  | .error e => .error (.group e)
  | .ok levels => (runLevels eng wf outcome initial levels).map Progress.ordered

end Levels

section Binding

variable {ε α β : Type}

/-- What each element's step preserves, going through the list preserves. -/
lemma foldlM_invariant {f : β → α → Except ε β} {I : β → Prop} {xs : List α} {b b' : β}
    (h : xs.foldlM f b = .ok b') (hb : I b)
    (hstep : ∀ x ∈ xs, ∀ acc acc', I acc → f acc x = .ok acc' → I acc') : I b' := by
  induction xs generalizing b with
  | nil =>
      cases h
      exact hb
  | cons x xs ih =>
      rw [List.foldlM_cons] at h
      obtain ⟨acc, hacc, hrest⟩ := bind_eq_ok h
      exact ih hrest (hstep x List.mem_cons_self b acc hb hacc)
        fun y hy => hstep y (List.mem_cons_of_mem _ hy)

/-- What each element's step brings about and the others preserve holds for every element. -/
lemma foldlM_each {f : β → α → Except ε β} {P : β → α → Prop} {xs : List α} {b b' : β}
    (h : xs.foldlM f b = .ok b') (hself : ∀ x ∈ xs, ∀ acc acc', f acc x = .ok acc' → P acc' x)
    (hkeep : ∀ x ∈ xs, ∀ y acc acc', P acc y → f acc x = .ok acc' → P acc' y) :
    ∀ x ∈ xs, P b' x := by
  induction xs generalizing b with
  | nil => simp
  | cons x xs ih =>
      rw [List.foldlM_cons] at h
      obtain ⟨acc, hacc, hrest⟩ := bind_eq_ok h
      have hlater : ∀ y ∈ xs, ∀ z acc acc', P acc z → f acc y = .ok acc' → P acc' z :=
        fun y hy => hkeep y (List.mem_cons_of_mem _ hy)
      refine List.forall_mem_cons.mpr ⟨?_, ?_⟩
      · exact foldlM_invariant (I := fun acc => P acc x) hrest
          (hself x List.mem_cons_self b acc hacc) fun y hy acc acc' => hlater y hy x acc acc'
      · exact ih hrest (fun y hy => hself y (List.mem_cons_of_mem _ hy)) hlater

end Binding

section Layered

variable {wf : Workflow} {depths depths' : Depths} {name : String} {d : ℕ}

lemma lookup_insert (depths : Depths) (name k : String) (d : ℕ) :
    (depths.insert name d).lookup k = if k = name then some d else depths.lookup k := by
  unfold Depths.insert
  by_cases h : k = name
  · simp [h]
  · rw [lookup_cons_ne h, lookup_filter_ne h, if_neg h]

lemma lookup_of_mem {β : Type} {xs : List (String × β)} {k : String} {v : β}
    (hkeys : (xs.map Prod.fst).Nodup) (h : (k, v) ∈ xs) : xs.lookup k = some v := by
  induction xs with
  | nil => cases h
  | cons x xs ih =>
      rw [List.map_cons, List.nodup_cons] at hkeys
      rcases List.mem_cons.mp h with rfl | h
      · simp
      · have hne : k ≠ x.1 := by
          rintro rfl
          exact hkeys.1 (List.mem_map.mpr ⟨_, h, rfl⟩)
        rw [show x = (x.1, x.2) from rfl, lookup_cons_ne hne]
        exact ih hkeys.2 h

lemma mem_of_lookup {β : Type} {xs : List (String × β)} {k : String} {v : β}
    (h : xs.lookup k = some v) : (k, v) ∈ xs := by
  obtain ⟨l, r, rfl, -⟩ := List.lookup_eq_some_iff.mp h
  simp

/-- Each name is there once, and the dependencies of its step are there with smaller depths. -/
structure Layered (steps : List Step) (depths : Depths) : Prop where
  keys : (depths.map Prod.fst).Nodup
  lower : ∀ k d, depths.lookup k = some d → ∃ step, findStep steps k = some step ∧
    ∀ dep ∈ step.dependsOn, ∃ d', depths.lookup dep = some d' ∧ d' < d

/-- The depths found so far stay, and the steps that are being visited get none. -/
structure Grows (visiting : List String) (depths depths' : Depths) : Prop where
  kept : ∀ k d, depths.lookup k = some d → depths'.lookup k = some d
  fresh : ∀ v ∈ visiting, depths.lookup v = none → depths'.lookup v = none

lemma Grows.refl (visiting : List String) (depths : Depths) : Grows visiting depths depths :=
  ⟨fun _ _ h => h, fun _ _ h => h⟩

lemma Grows.trans {visiting : List String} {depths₁ depths₂ depths₃ : Depths}
    (h : Grows visiting depths₁ depths₂) (h' : Grows visiting depths₂ depths₃) :
    Grows visiting depths₁ depths₃ :=
  ⟨fun k d hk => h'.kept k d (h.kept k d hk), fun v hv hnone => h'.fresh v hv (h.fresh v hv hnone)⟩

lemma depthsOf_spec {depthOf : String → Depths → Except WorkflowError (ℕ × Depths)}
    {visiting : List String} (hspec : ∀ dep depths d depths', depthOf dep depths = .ok (d, depths') →
      Layered wf.steps depths →
      Layered wf.steps depths' ∧ Grows visiting depths depths' ∧ depths'.lookup dep = some d)
    {deps : List String} {ds : List ℕ} (h : depthsOf depthOf deps depths = .ok (ds, depths'))
    (hdepths : Layered wf.steps depths) :
    Layered wf.steps depths' ∧ Grows visiting depths depths' ∧
      ∀ dep ∈ deps, ∃ d ∈ ds, depths'.lookup dep = some d := by
  induction deps generalizing depths ds with
  | nil =>
      cases h
      exact ⟨hdepths, Grows.refl _ _, by simp⟩
  | cons dep deps ih =>
      obtain ⟨⟨d, depths₁⟩, hfirst, h⟩ := bind_eq_ok h
      obtain ⟨⟨ds', depths₂⟩, hrest, h⟩ := bind_eq_ok h
      cases h
      obtain ⟨hlayered₁, hgrows₁, hlookup₁⟩ := hspec dep depths d depths₁ hfirst hdepths
      obtain ⟨hlayered₂, hgrows₂, hlookup₂⟩ := ih hrest hlayered₁
      refine ⟨hlayered₂, hgrows₁.trans hgrows₂, List.forall_mem_cons.mpr ⟨?_, fun dep' hdep' => ?_⟩⟩
      · exact ⟨d, List.mem_cons_self, hgrows₂.kept dep d hlookup₁⟩
      · obtain ⟨d', hd', hlookup⟩ := hlookup₂ dep' hdep'
        exact ⟨d', List.mem_cons_of_mem _ hd', hlookup⟩

/-- A step that is inserted above all its dependencies keeps the layers. -/
lemma Layered.insert {step : Step} {ds : List ℕ} (h : Layered wf.steps depths)
    (hstep : findStep wf.steps name = some step) (hfresh : depths.lookup name = none)
    (hdeps : ∀ dep ∈ step.dependsOn, ∃ d ∈ ds, depths.lookup dep = some d) :
    Layered wf.steps
      (depths.insert name (if step.dependsOn = [] then 0 else ds.max?.getD 0 + 1)) := by
  have hother : ∀ dep d, depths.lookup dep = some d → dep ≠ name := by
    rintro dep d hd rfl
    rw [hfresh] at hd
    cases hd
  constructor
  · unfold Depths.insert
    rw [List.map_cons, List.nodup_cons]
    refine ⟨fun hmem => ?_, h.keys.sublist (List.Sublist.map _ List.filter_sublist)⟩
    obtain ⟨x, hx, hname⟩ := List.mem_map.mp hmem
    have hne := (List.mem_filter.mp hx).2
    simp [hname] at hne
  · intro k d hk
    rw [lookup_insert] at hk
    split at hk
    · next heq =>
      subst heq
      refine ⟨step, hstep, fun dep hdep => ?_⟩
      obtain ⟨d', hd', hlookup⟩ := hdeps dep hdep
      refine ⟨d', ?_, ?_⟩
      · rw [lookup_insert, if_neg (hother dep d' hlookup), hlookup]
      · have hne : step.dependsOn ≠ [] := List.ne_nil_of_mem hdep
        have hle := List.le_max?_getD_of_mem (k := 0) hd'
        rw [if_neg hne] at hk
        have heq := Option.some.inj hk
        omega
    · obtain ⟨step', hstep', hlower⟩ := h.lower k d hk
      refine ⟨step', hstep', fun dep hdep => ?_⟩
      obtain ⟨d', hlookup, hlt⟩ := hlower dep hdep
      exact ⟨d', by rw [lookup_insert, if_neg (hother dep d' hlookup), hlookup], hlt⟩

lemma calcDepth_spec {fuel : ℕ} {visiting : List String}
    (h : calcDepth wf fuel name visiting depths = .ok (d, depths'))
    (hdepths : Layered wf.steps depths) :
    Layered wf.steps depths' ∧ Grows visiting depths depths' ∧ depths'.lookup name = some d := by
  induction fuel generalizing name visiting depths d depths' with
  | zero => cases h
  | succ fuel ih =>
      unfold calcDepth at h
      split at h
      · next d' hlookup =>
        cases h
        exact ⟨hdepths, Grows.refl _ _, hlookup⟩
      next hnone =>
      split at h
      · cases h
      next hnot =>
      split at h
      · cases h
      next step hstep =>
      obtain ⟨⟨ds, depths₁⟩, hds, h⟩ := bind_eq_ok h
      cases h
      obtain ⟨hlayered, hgrows, hlookup⟩ :=
        depthsOf_spec (fun dep depths d depths' hdep hl => ih hdep hl) hds hdepths
      have hfresh : depths₁.lookup name = none := hgrows.fresh name (by simp) hnone
      refine ⟨hlayered.insert hstep hfresh hlookup, ⟨fun k d hk => ?_, fun v hv hv' => ?_⟩, ?_⟩
      · have hne : k ≠ name := by
          rintro rfl
          rw [hnone] at hk
          cases hk
        rw [lookup_insert, if_neg hne, hgrows.kept k d hk]
      · have hne : v ≠ name := fun heq => hnot (heq ▸ hv)
        rw [lookup_insert, if_neg hne, hgrows.fresh v (List.mem_append_left _ hv) hv']
      · rw [lookup_insert, if_pos rfl]

lemma allDepths_spec (h : allDepths wf = .ok depths) :
    Layered wf.steps depths ∧ ∀ step ∈ wf.steps, ∃ d, depths.lookup step.name = some d := by
  obtain ⟨⟨ds, depths₁⟩, hds, h⟩ := bind_eq_ok h
  cases h
  have hempty : Layered wf.steps [] := ⟨List.nodup_nil, by simp⟩
  obtain ⟨hlayered, -, hlookup⟩ := depthsOf_spec
    (fun dep depths d depths' hdep hl => calcDepth_spec hdep hl) hds hempty
  refine ⟨hlayered, fun step hstep => ?_⟩
  obtain ⟨d, -, hd⟩ := hlookup step.name (List.mem_map_of_mem hstep)
  exact ⟨d, hd⟩

lemma groupByDepth_ok {levels : List (List String)} (h : groupByDepth wf = .ok levels) :
    ∃ depths, levels = levelsOf depths ∧ Layered wf.steps depths := by
  unfold groupByDepth at h
  split at h
  · cases h
  obtain ⟨-, -, h⟩ := bind_eq_ok h
  obtain ⟨-, -, h⟩ := bind_eq_ok h
  obtain ⟨depths, hdepths, h⟩ := bind_eq_ok h
  cases h
  exact ⟨depths, rfl, (allDepths_spec hdepths).1⟩

end Layered

section Fuel

variable {wf : Workflow} {depths : Depths} {name : String}

lemma depthsOf_error {depthOf : String → Depths → Except WorkflowError (ℕ × Depths)}
    {deps : List String} {e : WorkflowError} (h : depthsOf depthOf deps depths = .error e) :
    ∃ dep ∈ deps, ∃ depths', depthOf dep depths' = .error e := by
  induction deps generalizing depths with
  | nil => cases h
  | cons dep deps ih =>
      unfold depthsOf at h
      cases hfirst : depthOf dep depths with
      | error e' =>
          rw [hfirst] at h
          cases h
          exact ⟨dep, List.mem_cons_self, depths, hfirst⟩
      | ok x =>
          rw [hfirst] at h
          cases hrest : depthsOf depthOf deps x.2 with
          | error e' =>
              simp only [hrest, bind, Except.bind] at h
              cases h
              obtain ⟨dep', hdep', depths', herror⟩ := ih hrest
              exact ⟨dep', List.mem_cons_of_mem _ hdep', depths', herror⟩
          | ok y =>
              simp only [hrest, bind, Except.bind, pure, Except.pure] at h
              cases h

lemma mem_names_of_findStep {steps : List Step} {step : Step} (h : findStep steps name = some step) :
    step ∈ steps ∧ step.name = name :=
  ⟨List.mem_of_find?_eq_some h, by simpa using List.find?_some h⟩

/-- The steps being visited are different steps of the workflow, so there are never too many. -/
lemma calcDepth_fuel {fuel : ℕ} {visiting : List String} (hnodup : visiting.Nodup)
    (hnames : ∀ v ∈ visiting, v ∈ wf.steps.map fun step => step.name)
    (hfuel : wf.steps.length < fuel + visiting.length) :
    calcDepth wf fuel name visiting depths ≠ .error .outOfFuel := by
  induction fuel generalizing name visiting depths with
  | zero =>
      have hlength := (List.subperm_of_subset hnodup hnames).length_le
      rw [List.length_map] at hlength
      omega
  | succ fuel ih =>
      intro h
      unfold calcDepth at h
      split at h
      · cases h
      split at h
      · cases h
      next hnot =>
      split at h
      · cases h
      next step hstep =>
      obtain ⟨hmem, hname⟩ := mem_names_of_findStep hstep
      cases hds : depthsOf (fun dep => calcDepth wf fuel dep (visiting ++ [name]))
          step.dependsOn depths with
      | ok x =>
          rw [hds] at h
          cases h
      | error e =>
          rw [hds] at h
          cases h
          obtain ⟨dep, -, depths', herror⟩ := depthsOf_error hds
          refine ih ?_ ?_ ?_ herror
          · exact List.nodup_append.mpr ⟨hnodup, List.nodup_singleton name, by
              rintro v hv w hw rfl
              exact hnot (List.mem_singleton.mp hw ▸ hv)⟩
          · intro v hv
            rcases List.mem_append.mp hv with hv | hv
            · exact hnames v hv
            · rw [List.mem_singleton.mp hv, ← hname]
              exact List.mem_map_of_mem hmem
          · rw [List.length_append, List.length_singleton]
            omega

/-- The recursion over the dependencies always ends. -/
theorem allDepths_fuel (wf : Workflow) : allDepths wf ≠ .error .outOfFuel := by
  intro h
  unfold allDepths at h
  cases hds : depthsOf (fun name => calcDepth wf (wf.steps.length + 1) name [])
      (wf.steps.map fun step => step.name) [] with
  | ok x =>
      rw [hds] at h
      cases h
  | error e =>
      rw [hds] at h
      cases h
      obtain ⟨dep, -, depths', herror⟩ := depthsOf_error hds
      exact calcDepth_fuel List.nodup_nil nofun (by simp) herror

end Fuel

section Execution

variable {eng : Engine} {wf : Workflow} {outcome : Step → String × Bool} {p p' : Progress}
  {level level' : Level} {names : List String} {step : Step}

/-- The dependency keeps no step from running: it succeeded, its condition was not met, or it
failed with `continue_on_error`. -/
def Met (wf : Workflow) (p : Progress) (dep : String) : Prop :=
  depSucceeded p.results dep = true ∨ dep ∈ p.skipped ∨
    depFailed p.results dep = true ∧ depContinueOnError wf dep = true

/-- The different dependencies that succeeded. -/
def distinctSuccesses (results : Results) (step : Step) : ℕ :=
  step.dependsOn.dedup.countP (depSucceeded results)

def Ready (wf : Workflow) (p : Progress) (step : Step) : Prop :=
  (∀ dep ∈ step.dependsOn, Met wf p dep) ∨
    ∃ n, step.minDepsSuccess = some n ∧ n ≤ distinctSuccesses p.results step

/-- Names that are listed more than once do not make up the number of successes the step needs:
dependencies that reach it without one that would keep the step from running are as many names. -/
def CountsNames (wf : Workflow) (step : Step) : Prop :=
  ∀ n, step.minDepsSuccess = some n → ∀ succeeded : String → Bool,
    (∃ dep ∈ step.dependsOn, succeeded dep = false ∧ depContinueOnError wf dep = false) →
    n ≤ step.dependsOn.countP succeeded → n ≤ step.dependsOn.dedup.countP succeeded

lemma countsNames_of_nodup (h : step.dependsOn.Nodup) : CountsNames wf step := by
  intro n _ succeeded _ hcount
  rwa [h.dedup]

/-- The step is executed in a level; `pre` are the levels before it and `p` is what they came to. -/
def Executed (eng : Engine) (wf : Workflow) (outcome : Step → String × Bool)
    (levels pre : List (List String)) (p : Progress) (step : Step) : Prop :=
  ∃ names post level, levels = pre ++ names :: post ∧
    runLevels eng wf outcome initial pre = .ok p ∧ prepareLevel eng wf p names = .ok level ∧
    step ∈ level.stepsToRun

lemma record_results (r : StepResult) (dep : String) :
    (p.record r).results dep = if dep = r.name then some r else p.results dep := by
  by_cases h : dep = r.name
  · simp [Progress.record, Results.insert, h]
  · simp [Progress.record, Results.insert, h]

/-- What one step at the start of its level leads to. -/
lemma prepareStep_cases (h : prepareStep eng wf level step = .ok level') :
    (level'.progress.results = level.progress.results ∧
      level'.progress.skipped = level.progress.skipped ++ [step.name] ∧
      level'.stepsToRun = level.stepsToRun) ∨
    (∃ r : StepResult, r.name = step.name ∧ level'.progress = level.progress.record r ∧
      level'.stepsToRun = level.stepsToRun) ∨
    (level'.progress = level.progress ∧ level'.stepsToRun = level.stepsToRun ++ [step] ∧
      obstacle wf level.progress.results step = none) := by
  unfold prepareStep at h
  dsimp only at h
  split at h
  · cases h
    exact Or.inl ⟨rfl, rfl, rfl⟩
  split at h
  · split at h
    · cases h
      exact Or.inr (Or.inl ⟨_, rfl, rfl, rfl⟩)
    · cases h
  · next hobstacle =>
    split at h
    · cases h
    · cases h
      exact Or.inr (Or.inr ⟨rfl, rfl, hobstacle⟩)

lemma prepareName_ok {name : String} (h : prepareName eng wf level name = .ok level') :
    ∃ step, findStep wf.steps name = some step ∧ step.name = name ∧
      prepareStep eng wf level step = .ok level' := by
  unfold prepareName at h
  split at h
  · cases h
  · next step hstep => exact ⟨step, hstep, (mem_names_of_findStep hstep).2, h⟩

/-- What holds of a level while its steps are looked at: results of other steps are untouched, and
whoever is to run met no obstacle. -/
structure Prepared (wf : Workflow) (p : Progress) (names : List String) (level : Level) : Prop where
  frame : ∀ dep, dep ∉ names → level.progress.results dep = p.results dep
  runs : ∀ step ∈ level.stepsToRun, findStep wf.steps step.name = some step ∧ step.name ∈ names ∧
    ∃ results : Results, (∀ dep, dep ∉ names → results dep = p.results dep) ∧
      obstacle wf results step = none

lemma prepareLevel_spec (h : prepareLevel eng wf p names = .ok level) :
    Prepared wf p names level := by
  have hinitial : Prepared wf p names ⟨p, []⟩ := ⟨fun _ _ => rfl, by simp⟩
  refine foldlM_invariant (I := Prepared wf p names) h hinitial
    fun name hname acc acc' hacc hstep => ?_
  obtain ⟨step, hfind, rfl, hprepare⟩ := prepareName_ok hstep
  rcases prepareStep_cases hprepare with ⟨hresults, -, hruns⟩ | ⟨r, hr, hprogress, hruns⟩ |
    ⟨hprogress, hruns, hobstacle⟩
  · exact ⟨by rw [hresults]; exact hacc.frame, by rw [hruns]; exact hacc.runs⟩
  · refine ⟨fun dep hdep => ?_, by rw [hruns]; exact hacc.runs⟩
    have hne : dep ≠ r.name := by
      rw [hr]
      rintro rfl
      exact hdep hname
    rw [hprogress, record_results, if_neg hne, hacc.frame dep hdep]
  · refine ⟨by rw [hprogress]; exact hacc.frame, fun s hs => ?_⟩
    rw [hruns] at hs
    rcases List.mem_append.mp hs with hs | hs
    · exact hacc.runs s hs
    · obtain rfl := List.mem_singleton.mp hs
      exact ⟨hfind, hname, acc.progress.results, hacc.frame, hobstacle⟩

/-- The step of the name has been dealt with. -/
def Processed (p : Progress) (name : String) : Prop :=
  (p.results name).isSome ∨ name ∈ p.skipped

lemma Processed.record {name : String} (h : Processed p name) (r : StepResult) :
    Processed (p.record r) name := by
  rcases h with h | h
  · left
    rw [record_results]
    split
    · rfl
    · exact h
  · exact Or.inr h

lemma processed_record (r : StepResult) : Processed (p.record r) r.name := by
  left
  rw [record_results, if_pos rfl]
  rfl

lemma prepareLevel_keeps {name : String} (h : prepareLevel eng wf p names = .ok level)
    (hname : Processed p name) : Processed level.progress name := by
  refine foldlM_invariant (I := fun level => Processed level.progress name) h hname
    fun n _ acc acc' hacc hstep => ?_
  obtain ⟨step, -, rfl, hprepare⟩ := prepareName_ok hstep
  rcases prepareStep_cases hprepare with ⟨hresults, hskipped, -⟩ | ⟨r, hr, hprogress, -⟩ |
    ⟨hprogress, -, -⟩
  · unfold Processed at hacc ⊢
    rw [hresults, hskipped]
    exact hacc.imp_right (List.mem_append_left _)
  · rw [hprogress]
    exact hacc.record r
  · rw [hprogress]
    exact hacc

lemma prepareLevel_processes (h : prepareLevel eng wf p names = .ok level) :
    ∀ name ∈ names, Processed level.progress name ∨ ∃ s ∈ level.stepsToRun, s.name = name := by
  refine foldlM_each (P := fun level name =>
    Processed level.progress name ∨ ∃ s ∈ level.stepsToRun, s.name = name) h ?_ ?_
  · intro name _ acc acc' hstep
    obtain ⟨step, -, rfl, hprepare⟩ := prepareName_ok hstep
    rcases prepareStep_cases hprepare with ⟨-, hskipped, -⟩ | ⟨r, hr, hprogress, -⟩ |
      ⟨-, hruns, -⟩
    · exact Or.inl (Or.inr (by rw [hskipped]; simp))
    · left
      rw [hprogress, ← hr]
      exact processed_record r
    · exact Or.inr ⟨step, by rw [hruns]; simp, rfl⟩
  · intro n _ name acc acc' hacc hstep
    obtain ⟨step, -, rfl, hprepare⟩ := prepareName_ok hstep
    rcases prepareStep_cases hprepare with ⟨hresults, hskipped, hruns⟩ | ⟨r, hr, hprogress, hruns⟩ |
      ⟨hprogress, hruns, -⟩
    · refine hacc.imp (fun hp => ?_) fun hs => by rwa [hruns]
      unfold Processed at hp ⊢
      rw [hresults, hskipped]
      exact hp.imp_right (List.mem_append_left _)
    · refine hacc.imp (fun hp => ?_) fun hs => by rwa [hruns]
      rw [hprogress]
      exact hp.record r
    · refine hacc.imp (fun hp => by rwa [hprogress]) ?_
      rintro ⟨s, hs, hname⟩
      exact ⟨s, by rw [hruns]; exact List.mem_append_left _ hs, hname⟩

lemma foldl_record_keeps {name : String} (h : Processed p name) (rs : List StepResult) :
    Processed (rs.foldl Progress.record p) name := by
  induction rs generalizing p with
  | nil => exact h
  | cons r rs ih => exact ih (h.record r)

lemma foldl_record_processes {rs : List StepResult} {r : StepResult} (h : r ∈ rs) :
    Processed (rs.foldl Progress.record p) r.name := by
  induction rs generalizing p with
  | nil => cases h
  | cons r' rs ih =>
      rcases List.mem_cons.mp h with rfl | h
      · exact foldl_record_keeps (processed_record r) rs
      · exact ih h

/-- Every step of the levels that have run is processed. -/
lemma runLevels_processes {levels : List (List String)}
    (h : runLevels eng wf outcome p levels = .ok p') :
    ∀ names ∈ levels, ∀ name ∈ names, Processed p' name := by
  refine foldlM_each (P := fun p names => ∀ name ∈ names, Processed p name) h ?_ ?_
  · intro names _ acc acc' hlevel name hname
    obtain ⟨level, hprepare, hrun⟩ := bind_eq_ok hlevel
    cases hrun
    rcases prepareLevel_processes hprepare name hname with hp | ⟨s, hs, rfl⟩
    · exact foldl_record_keeps hp _
    · exact foldl_record_processes (r := execute outcome s) (List.mem_map_of_mem hs)
  · intro names _ names' acc acc' hacc hlevel name hname
    obtain ⟨level, hprepare, hrun⟩ := bind_eq_ok hlevel
    cases hrun
    exact foldl_record_keeps (prepareLevel_keeps hprepare (hacc name hname)) _

end Execution

section Safety

variable {eng : Engine} {wf : Workflow} {outcome : Step → String × Bool} {p : Progress}
  {step : Step} {depths : Depths} {levels pre : List (List String)}

lemma obstacle_congr {results results' : Results}
    (h : ∀ dep ∈ step.dependsOn, results dep = results' dep) :
    obstacle wf results step = obstacle wf results' step := by
  have hfailed : hardFailedDeps wf results step = hardFailedDeps wf results' step := by
    refine List.filter_congr fun dep hdep => ?_
    rw [depFailed, depFailed, h dep hdep]
  have hsuccesses : successfulDeps results step = successfulDeps results' step := by
    refine List.countP_congr fun dep hdep => ?_
    rw [depSucceeded, depSucceeded, h dep hdep]
  unfold obstacle
  rw [hfailed, hsuccesses]

/-- A processed dependency that is no hard failure is met. -/
lemma met_of_processed {dep : String} (h : Processed p dep)
    (hsoft : depFailed p.results dep = true → depContinueOnError wf dep = true) : Met wf p dep := by
  rcases h with hsome | hskipped
  · obtain ⟨r, hr⟩ := Option.isSome_iff_exists.mp hsome
    cases hsuccess : r.success with
    | true => exact Or.inl (by simp [depSucceeded, hr, hsuccess])
    | false =>
        have hfailed : depFailed p.results dep = true := by simp [depFailed, hr, hsuccess]
        exact Or.inr (Or.inr ⟨hfailed, hsoft hfailed⟩)
  · exact Or.inr (Or.inl hskipped)

lemma succeeded_of_not_failed {results : Results} {dep : String}
    (h : depFailed results dep = true) : depSucceeded results dep = false := by
  unfold depFailed at h
  unfold depSucceeded
  cases hr : results dep with
  | none => simp [hr] at h
  | some r => simpa [hr] using h

/-- Whatever a step's dependencies have come to, it runs only when it is ready, exactly when it
counts names. -/
theorem obstacle_ready_iff :
    (∀ p, (∀ dep ∈ step.dependsOn, Processed p dep) → obstacle wf p.results step = none →
      Ready wf p step) ↔ CountsNames wf step := by
  constructor
  · intro h n hn succeeded hbad hcount
    let results : Results := fun dep => some ⟨dep, "", succeeded dep⟩
    have hsucceeded : depSucceeded results = succeeded := by
      funext dep
      simp [depSucceeded, results]
    have hobstacle : obstacle wf results step = none := by
      have henough : ¬ successfulDeps results step < n := by
        rw [successfulDeps, hsucceeded]
        omega
      unfold obstacle
      rw [hn]
      simp only [henough, if_false]
    rcases h ⟨results, [], []⟩ (fun dep _ => Or.inl rfl) hobstacle with hmet | ⟨n', hn', hdistinct⟩
    · obtain ⟨dep, hdep, hfalse, hsoft⟩ := hbad
      rcases hmet dep hdep with hsuccess | hskipped | ⟨-, hcontinue⟩
      · rw [hsucceeded, hfalse] at hsuccess
        cases hsuccess
      · cases hskipped
      · rw [hsoft] at hcontinue
        cases hcontinue
    · obtain rfl : n = n' := Option.some.inj (hn.symm.trans hn')
      rwa [distinctSuccesses, hsucceeded] at hdistinct
  · intro hcounts p hprocessed hobstacle
    by_cases hbad : ∃ dep ∈ step.dependsOn, depFailed p.results dep = true ∧
        depContinueOnError wf dep = false
    · right
      unfold obstacle at hobstacle
      cases hn : step.minDepsSuccess with
      | none =>
          rw [hn] at hobstacle
          obtain ⟨dep, hdep, hfailed, hsoft⟩ := hbad
          have hmem : dep ∈ hardFailedDeps wf p.results step :=
            List.mem_filter.mpr ⟨hdep, by simp [hfailed, hsoft]⟩
          simp [List.ne_nil_of_mem hmem] at hobstacle
      | some n =>
          rw [hn] at hobstacle
          refine ⟨n, rfl, hcounts n hn (depSucceeded p.results) ?_ ?_⟩
          · obtain ⟨dep, hdep, hfailed, hsoft⟩ := hbad
            exact ⟨dep, hdep, succeeded_of_not_failed hfailed, hsoft⟩
          · by_contra hfew
            have hlt : successfulDeps p.results step < n := by
              rw [successfulDeps]
              omega
            simp [hlt] at hobstacle
    · left
      intro dep hdep
      refine met_of_processed (hprocessed dep hdep) fun hfailed => ?_
      by_contra hsoft
      exact hbad ⟨dep, hdep, hfailed, Bool.eq_false_of_not_eq_true hsoft⟩

lemma mem_levelsOf {k : ℕ} {names : List String} {name : String}
    (h : (levelsOf depths)[k]? = some names) : name ∈ names ↔ (name, k) ∈ depths := by
  unfold levelsOf at h
  rw [List.getElem?_map] at h
  obtain ⟨d, hd, rfl⟩ := Option.map_eq_some_iff.mp h
  obtain rfl : d = k := by
    obtain ⟨hlt, heq⟩ := List.getElem?_eq_some_iff.mp hd
    rw [List.getElem_range] at heq
    exact heq.symm
  constructor
  · intro hmem
    obtain ⟨⟨name', d'⟩, hx, rfl⟩ := List.mem_map.mp hmem
    obtain ⟨hlisted, heq⟩ := List.mem_filter.mp hx
    obtain rfl : d' = d := by simpa using heq
    exact hlisted
  · exact fun hmem => List.mem_map.mpr ⟨(name, d), List.mem_filter.mpr ⟨hmem, by simp⟩, rfl⟩

lemma mem_level (h : List.Forall₂ List.Perm levels (levelsOf depths)) {k : ℕ} {names : List String}
    {name : String} (hk : levels[k]? = some names) : name ∈ names ↔ (name, k) ∈ depths := by
  obtain ⟨hlt, rfl⟩ := List.getElem?_eq_some_iff.mp hk
  have hlt' : k < (levelsOf depths).length := h.length_eq ▸ hlt
  have hperm := h.get hlt hlt'
  rw [← mem_levelsOf (List.getElem?_eq_getElem hlt')]
  exact hperm.mem_iff

/-- Every dependency of a step in a level is in an earlier level, and not in its own. -/
lemma earlier_of_level (hlayered : Layered wf.steps depths)
    (hlevels : List.Forall₂ List.Perm levels (levelsOf depths)) {names : List String}
    {post : List (List String)} (hsplit : levels = pre ++ names :: post)
    (hstep : findStep wf.steps step.name = some step) (hname : step.name ∈ names) {dep : String}
    (hdep : dep ∈ step.dependsOn) : (∃ earlier ∈ pre, dep ∈ earlier) ∧ dep ∉ names := by
  have hk : levels[pre.length]? = some names := by simp [hsplit]
  have hdepth := lookup_of_mem hlayered.keys ((mem_level hlevels hk).mp hname)
  obtain ⟨step', hstep', hlower⟩ := hlayered.lower _ _ hdepth
  obtain rfl : step = step' := Option.some.inj (hstep.symm.trans hstep')
  obtain ⟨d, hd, hlt⟩ := hlower dep hdep
  constructor
  · obtain ⟨earlier, hearlier⟩ : ∃ earlier, pre[d]? = some earlier :=
      ⟨_, List.getElem?_eq_getElem hlt⟩
    have hlevel : levels[d]? = some earlier := by
      rw [hsplit, List.getElem?_append_left hlt, hearlier]
    exact ⟨earlier, List.mem_of_getElem? hearlier, (mem_level hlevels hlevel).mpr (mem_of_lookup hd)⟩
  · intro hmem
    have hsame := lookup_of_mem hlayered.keys ((mem_level hlevels hk).mp hmem)
    rw [hd] at hsame
    have heq := Option.some.inj hsame
    omega

/-- In every run of a workflow whose steps count names, a step is executed only after all its
dependencies have been processed in earlier levels, and only when it is ready. -/
theorem executed_ready {grouped : List (List String)} (hgroup : groupByDepth wf = .ok grouped)
    (hlevels : List.Forall₂ List.Perm levels grouped) (hcounts : ∀ s ∈ wf.steps, CountsNames wf s)
    (h : Executed eng wf outcome levels pre p step) :
    (∀ dep ∈ step.dependsOn, (∃ earlier ∈ pre, dep ∈ earlier) ∧ Processed p dep) ∧
      Ready wf p step := by
  obtain ⟨depths, rfl, hlayered⟩ := groupByDepth_ok hgroup
  obtain ⟨names, post, level, hsplit, hreached, hprepare, hrun⟩ := h
  obtain ⟨hstep, hname, results, hframe, hobstacle⟩ := (prepareLevel_spec hprepare).runs step hrun
  have hprocessed := runLevels_processes hreached
  have hdeps : ∀ dep ∈ step.dependsOn, (∃ earlier ∈ pre, dep ∈ earlier) ∧ Processed p dep := by
    intro dep hdep
    obtain ⟨earlier, hmem, hin⟩ := (earlier_of_level hlayered hlevels hsplit hstep hname hdep).1
    exact ⟨⟨earlier, hmem, hin⟩, hprocessed earlier hmem dep hin⟩
  refine ⟨hdeps, ?_⟩
  have hsame : ∀ dep ∈ step.dependsOn, results dep = p.results dep := fun dep hdep =>
    hframe dep (earlier_of_level hlayered hlevels hsplit hstep hname hdep).2
  rw [obstacle_congr hsame] at hobstacle
  have hmem := (mem_names_of_findStep hstep).1
  exact obstacle_ready_iff.mpr (hcounts step hmem) p (fun dep hdep => (hdeps dep hdep).2) hobstacle

end Safety

section Repeated

def lenient : Engine := ⟨fun _ _ => true, fun _ _ => .ok ()⟩

def lastStep (deps : List String) : Step :=
  { name := "c", dependsOn := deps, minDepsSuccess := some 2 }

/-- Two steps and a third one that needs two of the dependencies it lists. -/
def consensus (deps : List String) : Workflow where
  name := "consensus"
  steps := [{ name := "a" }, { name := "b" }, lastStep deps]

/-- Only the steps with these names succeed. -/
def succeeds (names : List String) (step : Step) : String × Bool := (step.name, step.name ∈ names)

def afterFirstLevel (names : List String) : Progress :=
  (initial.record ⟨"b", "b", "b" ∈ names⟩).record ⟨"a", "a", "a" ∈ names⟩

lemma consensus_levels (names deps : List String) :
    runLevels lenient (consensus deps) (succeeds names) initial [["b", "a"]] =
      .ok (afterFirstLevel names) := rfl

lemma lastStep_executed (names deps : List String)
    (h : obstacle (consensus deps) (afterFirstLevel names).results (lastStep deps) = none) :
    Executed lenient (consensus deps) (succeeds names) [["b", "a"], ["c"]] [["b", "a"]]
      (afterFirstLevel names) (lastStep deps) := by
  have hlevel : prepareLevel lenient (consensus deps) (afterFirstLevel names) ["c"] =
      .ok ⟨afterFirstLevel names, [lastStep deps]⟩ := by
    have hprepare : prepareStep lenient (consensus deps) ⟨afterFirstLevel names, []⟩
        (lastStep deps) = .ok ⟨afterFirstLevel names, [lastStep deps]⟩ := by
      have hcondition : conditionMet lenient (afterFirstLevel names).results (lastStep deps) =
          true := rfl
      simp only [prepareStep, hcondition, h]
      rfl
    have hname : prepareName lenient (consensus deps) ⟨afterFirstLevel names, []⟩ "c" =
        .ok ⟨afterFirstLevel names, [lastStep deps]⟩ := hprepare
    simp only [prepareLevel, List.foldlM_cons, List.foldlM_nil, hname]
    rfl
  exact ⟨["c"], [], _, rfl, consensus_levels names deps, hlevel, List.mem_singleton.mpr rfl⟩

theorem executed_ready_consensus :
    Ready (consensus ["a", "b"]) (afterFirstLevel ["a", "b"]) (lastStep ["a", "b"]) := by
  have hlevels : groupByDepth (consensus ["a", "b"]) = .ok [["b", "a"], ["c"]] := by decide
  have hcounts : ∀ s ∈ (consensus ["a", "b"]).steps, CountsNames (consensus ["a", "b"]) s := by
    intro s hs
    have hnodup : ∀ s ∈ (consensus ["a", "b"]).steps, s.dependsOn.Nodup := by decide
    exact countsNames_of_nodup (hnodup s hs)
  have hrun := lastStep_executed ["a", "b"] ["a", "b"] (by decide)
  exact (executed_ready hlevels (List.forall₂_same.mpr fun _ _ => List.Perm.refl _) hcounts hrun).2

/-- A step that lists its first dependency twice runs with that one success, after the failure of
the second. -/
theorem repeated_dependency_executed :
    groupByDepth (consensus ["a", "a", "b"]) = .ok [["b", "a"], ["c"]] ∧
      Executed lenient (consensus ["a", "a", "b"]) (succeeds ["a"]) [["b", "a"], ["c"]]
        [["b", "a"]] (afterFirstLevel ["a"]) (lastStep ["a", "a", "b"]) ∧
      ¬ Ready (consensus ["a", "a", "b"]) (afterFirstLevel ["a"]) (lastStep ["a", "a", "b"]) := by
  refine ⟨by decide, lastStep_executed _ _ (by decide), ?_⟩
  rintro (hmet | ⟨n, hn, hdistinct⟩)
  · rcases hmet "b" (by decide) with h | h | ⟨-, h⟩
    · exact absurd h (by decide)
    · exact absurd h (by decide)
    · exact absurd h (by decide)
  · obtain rfl : 2 = n := Option.some.inj hn
    exact absurd hdistinct (by decide)

end Repeated

end Loker.StepLevels
