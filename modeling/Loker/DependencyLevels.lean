import Loker.StepLevels

/-! Which workflows have levels, and that a step's level is the length of its longest chain of
dependencies. -/

namespace Loker.DependencyLevels

section Chains

variable {α : Type} {R : α → α → Prop} {rank : α → Option ℕ} {a b : α} {n : ℕ}

/-- No way along the relation leads back. -/
def Acyclic (R : α → α → Prop) : Prop := ∀ a, ¬ Relation.TransGen R a a

/-- The longest chain from the element on has `n` steps. -/
structure HasHeight (R : α → α → Prop) (a : α) (n : ℕ) : Prop where
  reached : ∃ path, List.IsChain R (a :: path) ∧ path.length = n
  longest : ∀ path, List.IsChain R (a :: path) → path.length ≤ n

/-- Ranks that go down along the relation, and that somewhere go down by one only. -/
structure Ranked (R : α → α → Prop) (rank : α → Option ℕ) : Prop where
  lower : ∀ a n b, rank a = some n → R a b → ∃ m, rank b = some m ∧ m < n
  tight : ∀ a n, rank a = some (n + 1) → ∃ b, R a b ∧ rank b = some n

lemma Ranked.longest (h : Ranked R rank) {path : List α} (hchain : List.IsChain R (a :: path))
    (hrank : rank a = some n) : path.length ≤ n := by
  induction path generalizing a n with
  | nil => exact Nat.zero_le n
  | cons b path ih =>
      obtain ⟨hfirst, hrest⟩ := List.isChain_cons_cons.mp hchain
      obtain ⟨m, hm, hlt⟩ := h.lower a n b hrank hfirst
      have hle := ih hrest hm
      rw [List.length_cons]
      omega

lemma Ranked.reached (h : Ranked R rank) (hrank : rank a = some n) :
    ∃ path, List.IsChain R (a :: path) ∧ path.length = n := by
  induction n generalizing a with
  | zero => exact ⟨[], List.isChain_singleton a, rfl⟩
  | succ n ih =>
      obtain ⟨b, hfirst, hb⟩ := h.tight a n hrank
      obtain ⟨path, hchain, hlen⟩ := ih hb
      exact ⟨b :: path, List.isChain_cons_cons.mpr ⟨hfirst, hchain⟩, by simp [hlen]⟩

lemma Ranked.height (h : Ranked R rank) (hrank : rank a = some n) : HasHeight R a n :=
  ⟨h.reached hrank, fun _ hchain => h.longest hchain hrank⟩

lemma Ranked.transGen (h : Ranked R rank) (hway : Relation.TransGen R a b)
    (hrank : rank a = some n) : ∃ m, rank b = some m ∧ m < n := by
  induction hway with
  | single hfirst => exact h.lower a n _ hrank hfirst
  | tail _ hlast ih =>
      obtain ⟨m, hm, hlt⟩ := ih
      obtain ⟨k, hk, hklt⟩ := h.lower _ m _ hm hlast
      exact ⟨k, hk, by omega⟩

/-- Where everything that has a successor is ranked, no way leads back. -/
lemma Ranked.acyclic (h : Ranked R rank) (hall : ∀ a b, R a b → ∃ n, rank a = some n) :
    Acyclic R := by
  intro a hway
  obtain ⟨b, hfirst, _⟩ := Relation.TransGen.head'_iff.mp hway
  obtain ⟨n, hn⟩ := hall a b hfirst
  obtain ⟨m, hm, hlt⟩ := h.transGen hway hn
  rw [hn] at hm
  have heq := Option.some.inj hm
  omega

end Chains

section Depths

open StepLevels RunLoad Programs

variable {wf : Workflow} {depths depths' : Depths} {name : String} {d fuel : ℕ}
  {visiting : List String}

/-- The step of the first name lists the second one. -/
def DependsOn (steps : List Step) (a b : String) : Prop :=
  ∃ step, findStep steps a = some step ∧ b ∈ step.dependsOn

/-- A step that is not at the bottom is one above a dependency. -/
def Tight (steps : List Step) (depths : Depths) : Prop :=
  ∀ k d, depths.lookup k = some (d + 1) →
    ∃ dep, DependsOn steps k dep ∧ depths.lookup dep = some d

lemma depthsOf_tight
    (htight : ∀ dep depths d depths', calcDepth wf fuel dep visiting depths = .ok (d, depths') →
      Layered wf.steps depths → Tight wf.steps depths → Tight wf.steps depths')
    {deps : List String} {ds : List ℕ}
    (h : depthsOf (fun dep => calcDepth wf fuel dep visiting) deps depths = .ok (ds, depths'))
    (hlayered : Layered wf.steps depths) (hdepths : Tight wf.steps depths) :
    Tight wf.steps depths' ∧ ∀ d ∈ ds, ∃ dep ∈ deps, depths'.lookup dep = some d := by
  induction deps generalizing depths ds with
  | nil =>
      cases h
      exact ⟨hdepths, nofun⟩
  | cons dep deps ih =>
      obtain ⟨⟨d, depths₁⟩, hfirst, h⟩ := bind_eq_ok h
      obtain ⟨⟨ds', depths₂⟩, hrest, h⟩ := bind_eq_ok h
      cases h
      obtain ⟨hlayered₁, _, hlookup₁⟩ := calcDepth_spec hfirst hlayered
      obtain ⟨hlayered₂, hgrows₂, _⟩ :=
        depthsOf_spec (fun dep depths d depths' hdep hl => calcDepth_spec hdep hl) hrest hlayered₁
      obtain ⟨htight₂, hdeps₂⟩ := ih hrest hlayered₁ (htight dep depths d depths₁ hfirst hlayered hdepths)
      refine ⟨htight₂, List.forall_mem_cons.mpr ⟨?_, fun d' hd' => ?_⟩⟩
      · exact ⟨dep, List.mem_cons_self, hgrows₂.kept dep d hlookup₁⟩
      · obtain ⟨dep', hdep', hlookup⟩ := hdeps₂ d' hd'
        exact ⟨dep', List.mem_cons_of_mem _ hdep', hlookup⟩

/-- A step that is inserted one above its deepest dependency. -/
lemma Tight.insert {step : Step} {ds : List ℕ} (h : Tight wf.steps depths)
    (hstep : findStep wf.steps name = some step) (hfresh : depths.lookup name = none)
    (hds : step.dependsOn ≠ [] → ds ≠ [])
    (hdeps : ∀ d ∈ ds, ∃ dep ∈ step.dependsOn, depths.lookup dep = some d) :
    Tight wf.steps
      (depths.insert name (if step.dependsOn = [] then 0 else ds.max?.getD 0 + 1)) := by
  have hother : ∀ dep d, depths.lookup dep = some d → dep ≠ name := by
    rintro dep d hd rfl
    rw [hfresh] at hd
    cases hd
  intro k d hk
  rw [lookup_insert] at hk
  split at hk
  · next heq =>
    subst heq
    have hvalue := Option.some.inj hk
    split at hvalue
    · cases hvalue
    · next hne =>
      obtain ⟨m, hm⟩ := Option.isSome_iff_exists.mp (List.isSome_max?_of_ne_nil (hds hne))
      rw [hm, Option.getD_some] at hvalue
      obtain rfl : m = d := Nat.succ.inj hvalue
      obtain ⟨dep, hdep, hlookup⟩ := hdeps m (List.max?_mem hm)
      exact ⟨dep, ⟨step, hstep, hdep⟩, by rw [lookup_insert, if_neg (hother dep m hlookup), hlookup]⟩
  · obtain ⟨dep, hdep, hlookup⟩ := h k d hk
    exact ⟨dep, hdep, by rw [lookup_insert, if_neg (hother dep d hlookup), hlookup]⟩

lemma calcDepth_tight (h : calcDepth wf fuel name visiting depths = .ok (d, depths'))
    (hlayered : Layered wf.steps depths) (hdepths : Tight wf.steps depths) :
    Tight wf.steps depths' := by
  induction fuel generalizing name visiting depths d depths' with
  | zero => cases h
  | succ fuel ih =>
      unfold calcDepth at h
      split at h
      · cases h
        exact hdepths
      next hnone =>
      split at h
      · cases h
      split at h
      · cases h
      next step hstep =>
      obtain ⟨⟨ds, depths₁⟩, hds, h⟩ := bind_eq_ok h
      cases h
      obtain ⟨_, hgrows, hsome⟩ :=
        depthsOf_spec (fun dep depths d depths' hdep hl => calcDepth_spec hdep hl) hds hlayered
      obtain ⟨htight, hdeps⟩ := depthsOf_tight (fun _ _ _ _ h hl ht => ih h hl ht) hds hlayered hdepths
      refine htight.insert hstep (hgrows.fresh name (by simp) hnone) (fun hne => ?_) hdeps
      obtain ⟨dep, hdep⟩ := List.exists_mem_of_ne_nil _ hne
      obtain ⟨d', hd', _⟩ := hsome dep hdep
      exact List.ne_nil_of_mem hd'

/-- Without a way back, and with a step for every dependency, nothing but fuel can run out. -/
lemma calcDepth_error {e : WorkflowError} (hacyclic : Acyclic (DependsOn wf.steps))
    (hdeps : ∀ a b, DependsOn wf.steps a b → (findStep wf.steps b).isSome)
    (hvisiting : ∀ v ∈ visiting, Relation.TransGen (DependsOn wf.steps) v name)
    (hname : (findStep wf.steps name).isSome)
    (h : calcDepth wf fuel name visiting depths = .error e) : e = .outOfFuel := by
  induction fuel generalizing name visiting depths with
  | zero =>
      cases h
      rfl
  | succ fuel ih =>
      unfold calcDepth at h
      split at h
      · cases h
      split at h
      · next hseen => exact absurd (hvisiting name hseen) (hacyclic name)
      split at h
      · next hnone =>
        rw [hnone] at hname
        cases hname
      next step hstep =>
      cases hds : depthsOf (fun dep => calcDepth wf fuel dep (visiting ++ [name]))
          step.dependsOn depths with
      | ok x =>
          rw [hds] at h
          cases h
      | error e' =>
          rw [hds] at h
          cases h
          obtain ⟨dep, hdep, depths', herror⟩ := depthsOf_error hds
          have hlast : DependsOn wf.steps name dep := ⟨step, hstep, hdep⟩
          refine ih (fun v hv => ?_) (hdeps name dep hlast) herror
          rcases List.mem_append.mp hv with hv | hv
          · exact (hvisiting v hv).tail hlast
          · rw [List.mem_singleton.mp hv]
            exact .single hlast

lemma isSome_findStep {steps : List Step} :
    (findStep steps name).isSome ↔ name ∈ steps.map fun step => step.name := by
  rw [findStep, List.find?_isSome]
  simp

lemma allDepths_ok (hacyclic : Acyclic (DependsOn wf.steps))
    (hdeps : ∀ a b, DependsOn wf.steps a b → (findStep wf.steps b).isSome) :
    ∃ depths, allDepths wf = .ok depths := by
  cases hall : allDepths wf with
  | ok depths => exact ⟨depths, rfl⟩
  | error e =>
      have hfuel := allDepths_fuel wf
      unfold allDepths at hall
      cases hds : depthsOf (fun name => calcDepth wf (wf.steps.length + 1) name [])
          (wf.steps.map fun step => step.name) [] with
      | ok x =>
          rw [hds] at hall
          cases hall
      | error e' =>
          obtain ⟨name, hname, depths', herror⟩ := depthsOf_error hds
          have he := calcDepth_error hacyclic hdeps (by simp) (isSome_findStep.mpr hname) herror
          apply absurd _ hfuel
          rw [allDepths, hds, he]
          rfl

end Depths

section Levels

open StepLevels RunLoad Programs

variable {wf : Workflow} {depths : Depths} {levels : List (List String)}

/-- What a workflow needs to have levels. -/
structure Layerable (wf : Workflow) : Prop where
  names : (wf.steps.map fun step => step.name).Nodup
  deps : ∀ step ∈ wf.steps, ∀ dep ∈ step.dependsOn, dep ∈ wf.steps.map fun step => step.name
  minDeps : ∀ step ∈ wf.steps, step.dependsOn = [] → ¬ 0 < step.minDepsSuccess.getD 0
  acyclic : Acyclic (DependsOn wf.steps)

lemma duplicateNames_eq_nil {steps : List Step} :
    duplicateNames steps = [] ↔ (steps.map fun step => step.name).Nodup := by
  unfold duplicateNames
  rw [List.dedup_eq_nil, List.filter_eq_nil_iff, List.nodup_iff_count_le_one]
  constructor
  · intro h name
    by_cases hmem : name ∈ steps.map fun step => step.name
    · simpa using h name hmem
    · rw [List.count_eq_zero_of_not_mem hmem]
      exact Nat.zero_le 1
  · intro h name _
    simpa using h name

lemma checkDependencies_ok : checkDependencies wf = .ok () ↔
    ∀ step ∈ wf.steps, ∀ dep ∈ step.dependsOn, dep ∈ wf.steps.map fun step => step.name := by
  unfold checkDependencies
  rw [forM_ok_iff]
  refine forall₂_congr fun step _ => ?_
  rw [forM_ok_iff]
  refine forall₂_congr fun dep _ => ?_
  rw [← isSome_findStep]
  split <;> simp_all

lemma checkMinDeps_ok : checkMinDeps wf = .ok () ↔
    ∀ step ∈ wf.steps, step.dependsOn = [] → ¬ 0 < step.minDepsSuccess.getD 0 := by
  unfold checkMinDeps
  rw [forM_ok_iff]
  refine forall₂_congr fun step _ => ?_
  split
  · next h => exact ⟨nofun, fun hmin => absurd h.1 (hmin h.2)⟩
  · next h => exact ⟨fun _ hnil hpos => h ⟨hpos, hnil⟩, fun _ => rfl⟩

/-- The depths rank the steps along their dependencies. -/
lemma ranked_of_depths (hlayered : Layered wf.steps depths) (htight : Tight wf.steps depths) :
    Ranked (DependsOn wf.steps) fun name => depths.lookup name where
  lower a n b hrank hdep := by
    obtain ⟨step, hstep, hlower⟩ := hlayered.lower a n hrank
    obtain ⟨step', hstep', hmem⟩ := hdep
    obtain rfl : step = step' := Option.some.inj (hstep.symm.trans hstep')
    exact hlower b hmem
  tight := htight

lemma allDepths_ranked (h : allDepths wf = .ok depths) :
    Layered wf.steps depths ∧ (∀ step ∈ wf.steps, ∃ d, depths.lookup step.name = some d) ∧
      Ranked (DependsOn wf.steps) fun name => depths.lookup name := by
  obtain ⟨hlayered, hall⟩ := allDepths_spec h
  obtain ⟨⟨ds, depths₁⟩, hds, h⟩ := bind_eq_ok h
  cases h
  have hempty : Layered wf.steps [] := ⟨List.nodup_nil, by simp⟩
  obtain ⟨htight, _⟩ := depthsOf_tight (fun _ _ _ _ h hl ht => calcDepth_tight h hl ht) hds hempty nofun
  exact ⟨hlayered, hall, ranked_of_depths hlayered htight⟩

lemma groupByDepth_ok_iff : (∃ levels, groupByDepth wf = .ok levels) ↔ Layerable wf := by
  constructor
  · rintro ⟨levels, h⟩
    unfold groupByDepth at h
    split at h
    · cases h
    next hnames =>
    obtain ⟨_, hdeps, h⟩ := bind_eq_ok h
    obtain ⟨_, hmin, h⟩ := bind_eq_ok h
    obtain ⟨depths, hdepths, h⟩ := bind_eq_ok h
    obtain ⟨_, hall, hranked⟩ := allDepths_ranked hdepths
    refine ⟨duplicateNames_eq_nil.mp (not_not.mp hnames), checkDependencies_ok.mp hdeps,
      checkMinDeps_ok.mp hmin, hranked.acyclic ?_⟩
    rintro a b ⟨step, hstep, _⟩
    obtain ⟨hmem, rfl⟩ := mem_names_of_findStep hstep
    exact hall step hmem
  · rintro ⟨hnames, hdeps, hmin, hacyclic⟩
    have hfound : ∀ a b, DependsOn wf.steps a b → (findStep wf.steps b).isSome := by
      rintro a b ⟨step, hstep, hdep⟩
      exact isSome_findStep.mpr (hdeps step (mem_names_of_findStep hstep).1 b hdep)
    obtain ⟨depths, hdepths⟩ := allDepths_ok hacyclic hfound
    refine ⟨levelsOf depths, ?_⟩
    unfold groupByDepth
    rw [if_neg (not_not.mpr (duplicateNames_eq_nil.mpr hnames)), checkDependencies_ok.mpr hdeps,
      checkMinDeps_ok.mpr hmin, hdepths]
    rfl

lemma groupByDepth_depths (h : groupByDepth wf = .ok levels) :
    ∃ depths, allDepths wf = .ok depths ∧ levels = levelsOf depths := by
  unfold groupByDepth at h
  split at h
  · cases h
  obtain ⟨_, _, h⟩ := bind_eq_ok h
  obtain ⟨_, _, h⟩ := bind_eq_ok h
  obtain ⟨depths, hdepths, h⟩ := bind_eq_ok h
  cases h
  exact ⟨depths, hdepths, rfl⟩

/-- Where no two steps have one name, each step is found by its own. -/
lemma findStep_of_nodup {steps : List Step} {step : Step}
    (hnames : (steps.map fun step => step.name).Nodup) (h : step ∈ steps) :
    findStep steps step.name = some step := by
  induction steps with
  | nil => cases h
  | cons s steps ih =>
      rw [List.map_cons, List.nodup_cons] at hnames
      rcases List.mem_cons.mp h with rfl | h
      · simp [findStep]
      · have hne : s.name ≠ step.name := fun heq => hnames.1 (heq ▸ List.mem_map_of_mem h)
        rw [findStep, List.find?_cons_of_neg (by simpa using hne)]
        exact ih hnames.2 h

lemma length_levelsOf : (levelsOf depths).length = (depths.map Prod.snd).max?.getD 0 + 1 := by
  simp [levelsOf]

/-- The level of a name is there. -/
lemma exists_level {name : String} {d : ℕ} (h : (name, d) ∈ depths) :
    ∃ names, (levelsOf depths)[d]? = some names ∧ name ∈ names := by
  have hmem : d ∈ depths.map Prod.snd := List.mem_map.mpr ⟨_, h, rfl⟩
  have hle := List.le_max?_getD_of_mem (k := 0) hmem
  have hlt : d < (levelsOf depths).length := by
    rw [length_levelsOf]
    omega
  exact ⟨_, List.getElem?_eq_getElem hlt, (mem_levelsOf (List.getElem?_eq_getElem hlt)).mpr h⟩

lemma mem_flatten_levelsOf {name : String} :
    name ∈ (levelsOf depths).flatten ↔ name ∈ depths.map Prod.fst := by
  rw [List.mem_flatten]
  constructor
  · rintro ⟨names, hnames, hname⟩
    obtain ⟨k, hk⟩ := List.mem_iff_getElem?.mp hnames
    exact List.mem_map.mpr ⟨_, (mem_levelsOf hk).mp hname, rfl⟩
  · intro h
    obtain ⟨⟨name, d⟩, hmem, rfl⟩ := List.mem_map.mp h
    obtain ⟨names, hnames, hname⟩ := exists_level hmem
    exact ⟨names, List.mem_of_getElem? hnames, hname⟩

lemma nodup_flatten_levelsOf (hkeys : (depths.map Prod.fst).Nodup) :
    (levelsOf depths).flatten.Nodup := by
  rw [List.nodup_flatten]
  constructor
  · intro names hnames
    obtain ⟨d, _, rfl⟩ := List.mem_map.mp hnames
    exact hkeys.sublist (List.filter_sublist.map _)
  · rw [List.pairwise_iff_getElem]
    intro i j hi hj hlt name hfirst hsecond
    have hi' := (mem_levelsOf (List.getElem?_eq_getElem hi)).mp hfirst
    have hj' := (mem_levelsOf (List.getElem?_eq_getElem hj)).mp hsecond
    have heq := (lookup_of_mem hkeys hi').symm.trans (lookup_of_mem hkeys hj')
    have := Option.some.inj heq
    omega

lemma perm_flatten {α : Type} {xs ys : List (List α)} (h : List.Forall₂ List.Perm xs ys) :
    xs.flatten.Perm ys.flatten := by
  induction h with
  | nil => exact .refl []
  | cons hfirst _ ih =>
      rw [List.flatten_cons, List.flatten_cons]
      exact hfirst.append ih

/-- The levels of a workflow: there are levels exactly if nothing is wrong with the steps, each
step is in one level, its dependencies are in lower ones, and the level's number is the length of
the step's longest chain of dependencies. -/
theorem groupByDepth_correct (wf : Workflow) :
    ((∃ levels, groupByDepth wf = .ok levels) ↔ Layerable wf) ∧
    ∀ grouped levels, groupByDepth wf = .ok grouped → List.Forall₂ List.Perm levels grouped →
      levels.flatten.Perm (wf.steps.map fun step => step.name) ∧
      ∀ step ∈ wf.steps, ∀ k names, levels[k]? = some names → step.name ∈ names →
        (∀ dep ∈ step.dependsOn, ∃ j < k, ∃ lower, levels[j]? = some lower ∧ dep ∈ lower) ∧
        HasHeight (DependsOn wf.steps) step.name k := by
  refine ⟨groupByDepth_ok_iff, fun grouped levels hgroup hlevels => ?_⟩
  have hnames := (groupByDepth_ok_iff.mp ⟨grouped, hgroup⟩).names
  obtain ⟨depths, hdepths, rfl⟩ := groupByDepth_depths hgroup
  obtain ⟨hlayered, hall, hranked⟩ := allDepths_ranked hdepths
  constructor
  · refine (perm_flatten hlevels).trans ?_
    rw [List.perm_ext_iff_of_nodup (nodup_flatten_levelsOf hlayered.keys) hnames]
    intro name
    rw [mem_flatten_levelsOf]
    constructor
    · intro hkey
      obtain ⟨⟨name, d⟩, hmem, rfl⟩ := List.mem_map.mp hkey
      obtain ⟨step, hstep, _⟩ := hlayered.lower name d (lookup_of_mem hlayered.keys hmem)
      obtain ⟨hlisted, rfl⟩ := mem_names_of_findStep hstep
      exact List.mem_map_of_mem hlisted
    · intro hname
      obtain ⟨step, hstep, rfl⟩ := List.mem_map.mp hname
      obtain ⟨d, hd⟩ := hall step hstep
      exact List.mem_map.mpr ⟨_, mem_of_lookup hd, rfl⟩
  · intro step hstep k names hk hname
    have hrank := lookup_of_mem hlayered.keys ((mem_level hlevels hk).mp hname)
    refine ⟨fun dep hdep => ?_, hranked.height hrank⟩
    have hlast : DependsOn wf.steps step.name dep := ⟨step, findStep_of_nodup hnames hstep, hdep⟩
    obtain ⟨j, hj, hlt⟩ := hranked.lower _ k dep hrank hlast
    have hlength : j < levels.length := by
      obtain ⟨_, hlevel, _⟩ := exists_level (mem_of_lookup hj)
      rw [hlevels.length_eq]
      exact (List.getElem?_eq_some_iff.mp hlevel).1
    have hlevel := List.getElem?_eq_getElem hlength
    exact ⟨j, hlt, _, hlevel, (mem_level hlevels hlevel).mpr (mem_of_lookup hj)⟩

/-- A dependency listed twice and a step that is reached by a short and a long way. -/
def twoWays : Workflow where
  name := "review"
  steps := [⟨{ name := "plan" }, none, none⟩, ⟨{ name := "merge", dependsOn := ["plan", "write"] }, none, none⟩,
    ⟨{ name := "write", dependsOn := ["plan", "plan"] }, none, none⟩]

theorem groupByDepth_correct_twoWays :
    groupByDepth twoWays = .ok [["plan"], ["write"], ["merge"]] ∧
      HasHeight (DependsOn twoWays.steps) "merge" 2 := by
  have hgroup : groupByDepth twoWays = .ok [["plan"], ["write"], ["merge"]] := by decide
  have hlevels : List.Forall₂ List.Perm [["plan"], ["write"], ["merge"]]
      [["plan"], ["write"], ["merge"]] := List.forall₂_same.mpr fun names _ => .refl names
  have hmerge : ⟨{ name := "merge", dependsOn := ["plan", "write"] }, none, none⟩ ∈ twoWays.steps :=
    List.mem_cons_of_mem _ List.mem_cons_self
  exact ⟨hgroup, (((groupByDepth_correct twoWays).2 _ _ hgroup hlevels).2 _ hmerge 2 ["merge"] rfl
    (by simp)).2⟩

end Levels

end Loker.DependencyLevels
