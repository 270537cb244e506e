import Loker.StepWorkflow
import Loker.Overriding

/-! Workflows that extend one another: a child's steps are laid over its parent's. -/

namespace Loker.WorkflowInheritance

open Overriding
open StepWorkflow (Step)

section Model

structure Workflow extends StepWorkflow.Workflow where
  description : Option String := none
  «extends» : Option String := none
  continueOnError : Bool := false
  deriving DecidableEq, Repr

/-- The last step of a name, as the index is collected. -/
def nameToIndex (steps : List Step) (name : String) : Option ℕ :=
  steps.zipIdx.foldl (fun found x => if x.1.name = name then some x.2 else found) none

/-- The index is the parent's alone: a step that was appended is not looked up. -/
def mergeSteps (parent child : List Step) : List Step :=
  child.foldl (place Step.name (nameToIndex parent)) parent

def mergeWorkflows (parent child : Workflow) : Workflow where
  name := child.name
  description := child.description.or parent.description
  «extends» := none
  steps := mergeSteps parent.steps child.steps
  continueOnError := child.continueOnError || parent.continueOnError
  timeout := child.timeout.or parent.timeout

def stepNames (wf : Workflow) : List String := wf.steps.map Step.name

def UniqueNames (wf : Workflow) : Prop := (stepNames wf).Nodup

instance (wf : Workflow) : Decidable (UniqueNames wf) :=
  inferInstanceAs (Decidable (stepNames wf).Nodup)

/-- An inheritance chain whose neighbours are merged in some order. -/
inductive Merging where
  | leaf (wf : Workflow)
  | merge (parents children : Merging)

/-- The chain itself, from the outermost parent on. -/
def Merging.chain : Merging → List Workflow
  | .leaf wf => [wf]
  | .merge parents children => parents.chain ++ children.chain

def Merging.result : Merging → Workflow
  | .leaf wf => wf
  | .merge parents children => mergeWorkflows parents.result children.result

end Model

section Index

variable {steps : List Step} {s : Step} {name : String}

lemma nameToIndex_snoc : nameToIndex (steps ++ [s]) name =
    if s.name = name then some steps.length else nameToIndex steps name := by
  rw [nameToIndex, List.zipIdx_append, List.foldl_append]
  simp only [List.zipIdx_singleton, List.foldl_cons, List.foldl_nil, Nat.zero_add]
  rfl

/-- With unique names the index holds every name's position. -/
lemma positions_nameToIndex (hunique : (steps.map Step.name).Nodup) :
    Positions Step.name steps (nameToIndex steps) := by
  induction steps using List.reverseRecOn with
  | nil =>
    intro name i
    simp [nameToIndex]
  | append_singleton steps s ih =>
    rw [List.map_append, List.nodup_append] at hunique
    obtain ⟨hsteps, _, hapart⟩ := hunique
    have hfresh : s.name ∉ steps.map Step.name := fun hmem => hapart _ hmem s.name (by simp) rfl
    intro name i
    rw [nameToIndex_snoc, List.map_append, List.map_singleton]
    split
    · next hname =>
      subst hname
      constructor
      · intro hindex
        cases hindex
        simp
      · intro hat
        rcases Nat.lt_trichotomy i steps.length with hlt | heq | hgt
        · rw [List.getElem?_append_left (by simpa using hlt)] at hat
          exact absurd (List.mem_of_getElem? hat) hfresh
        · rw [heq]
        · rw [List.getElem?_eq_none (by simp; omega)] at hat
          cases hat
    · next hname =>
      rw [ih hsteps name i]
      rcases Nat.lt_or_ge i steps.length with hlt | hge
      · rw [List.getElem?_append_left (by simpa using hlt)]
      · rw [List.getElem?_append_right (by simpa using hge),
          List.getElem?_eq_none (by simpa using hge)]
        constructor
        · nofun
        · intro hat
          have hmem := List.mem_of_getElem? hat
          exact absurd (List.mem_singleton.mp hmem).symm hname

end Index

section Merge

variable {parent child grandchild : Workflow}

lemma steps_merge (hparent : UniqueNames parent) (hchild : UniqueNames child) :
    (mergeWorkflows parent child).steps = override Step.name parent.steps child.steps :=
  foldl_place (positions_nameToIndex hparent) hparent hchild

lemma stepNames_merge (hparent : UniqueNames parent) (hchild : UniqueNames child) :
    stepNames (mergeWorkflows parent child) =
      stepNames parent ++ (stepNames child).filter (· ∉ stepNames parent) := by
  rw [stepNames, steps_merge hparent hchild, keys_override]
  rfl

lemma unique_merge (hparent : UniqueNames parent) (hchild : UniqueNames child) :
    UniqueNames (mergeWorkflows parent child) := by
  rw [UniqueNames, stepNames, steps_merge hparent hchild]
  exact nodup_override hparent hchild

lemma merge_assoc (hparent : UniqueNames parent) (hchild : UniqueNames child)
    (hgrandchild : UniqueNames grandchild) :
    mergeWorkflows (mergeWorkflows parent child) grandchild =
      mergeWorkflows parent (mergeWorkflows child grandchild) := by
  have hsteps : (mergeWorkflows (mergeWorkflows parent child) grandchild).steps =
      (mergeWorkflows parent (mergeWorkflows child grandchild)).steps := by
    rw [steps_merge (unique_merge hparent hchild) hgrandchild, steps_merge hparent hchild,
      steps_merge hparent (unique_merge hchild hgrandchild), steps_merge hchild hgrandchild,
      override_assoc]
  have hdescription : grandchild.description.or (child.description.or parent.description) =
      (grandchild.description.or child.description).or parent.description :=
    (Option.or_assoc ..).symm
  have htimeout : grandchild.timeout.or (child.timeout.or parent.timeout) =
      (grandchild.timeout.or child.timeout).or parent.timeout := (Option.or_assoc ..).symm
  have hcontinue : (grandchild.continueOnError || (child.continueOnError || parent.continueOnError))
      = ((grandchild.continueOnError || child.continueOnError) || parent.continueOnError) :=
    (Bool.or_assoc ..).symm
  unfold mergeWorkflows at hsteps ⊢
  simp only at hsteps
  rw [Workflow.mk.injEq, StepWorkflow.Workflow.mk.injEq]
  exact ⟨⟨rfl, hsteps, htimeout⟩, hdescription, rfl, hcontinue⟩

end Merge

section Chains

variable {parent : Workflow} {rest : List Workflow}

lemma unique_foldl (hparent : UniqueNames parent) (hrest : ∀ wf ∈ rest, UniqueNames wf) :
    UniqueNames (rest.foldl mergeWorkflows parent) := by
  induction rest generalizing parent with
  | nil => exact hparent
  | cons child rest ih =>
    apply ih (unique_merge hparent (hrest child List.mem_cons_self))
    intro wf hwf
    exact hrest wf (List.mem_cons_of_mem _ hwf)

/-- The outermost parent may also be merged last. -/
lemma foldl_merge {root : Workflow} (hroot : UniqueNames root) (hparent : UniqueNames parent)
    (hrest : ∀ wf ∈ rest, UniqueNames wf) :
    rest.foldl mergeWorkflows (mergeWorkflows root parent) =
      mergeWorkflows root (rest.foldl mergeWorkflows parent) := by
  induction rest generalizing parent with
  | nil => rfl
  | cons child rest ih =>
    have hchild := hrest child List.mem_cons_self
    rw [List.foldl_cons, List.foldl_cons, merge_assoc hroot hparent hchild]
    apply ih (unique_merge hparent hchild)
    intro wf hwf
    exact hrest wf (List.mem_cons_of_mem _ hwf)

/-- Every order merges a chain as the loader does, one child after the other. -/
lemma result_eq_foldl (m : Merging) (hunique : ∀ wf ∈ m.chain, UniqueNames wf) :
    ∃ root rest, m.chain = root :: rest ∧ m.result = rest.foldl mergeWorkflows root := by
  induction m with
  | leaf wf => exact ⟨wf, [], rfl, rfl⟩
  | merge parents children ihparents ihchildren =>
    have habove : ∀ wf ∈ parents.chain, UniqueNames wf :=
      fun wf hwf => hunique wf (List.mem_append_left _ hwf)
    have hbelow : ∀ wf ∈ children.chain, UniqueNames wf :=
      fun wf hwf => hunique wf (List.mem_append_right _ hwf)
    obtain ⟨root, rest, hchain, hresult⟩ := ihparents habove
    obtain ⟨root', rest', hchain', hresult'⟩ := ihchildren hbelow
    rw [hchain] at habove
    rw [hchain'] at hbelow
    have hroot : UniqueNames (rest.foldl mergeWorkflows root) :=
      unique_foldl (habove root List.mem_cons_self)
        fun wf hwf => habove wf (List.mem_cons_of_mem _ hwf)
    refine ⟨root, rest ++ root' :: rest', ?_, ?_⟩
    · rw [Merging.chain, hchain, hchain', List.cons_append]
    · rw [Merging.result, hresult, hresult', List.foldl_append, List.foldl_cons]
      apply (foldl_merge hroot (hbelow root' List.mem_cons_self) _).symm
      intro wf hwf
      exact hbelow wf (List.mem_cons_of_mem _ hwf)

/-- The child's steps win, in the parent's places or after them, and a chain may be merged in
any order of its neighbours. -/
theorem merge_workflows :
    (∀ parent child : Workflow, UniqueNames parent → UniqueNames child →
      UniqueNames (mergeWorkflows parent child) ∧
      (∀ name, name ∈ stepNames (mergeWorkflows parent child) ↔
        name ∈ stepNames parent ∨ name ∈ stepNames child) ∧
      (∀ step ∈ child.steps, step ∈ (mergeWorkflows parent child).steps) ∧
      (∀ step ∈ parent.steps, step.name ∉ stepNames child →
        step ∈ (mergeWorkflows parent child).steps) ∧
      stepNames (mergeWorkflows parent child) =
        stepNames parent ++ (stepNames child).filter (· ∉ stepNames parent)) ∧
    ∀ m m' : Merging, m.chain = m'.chain → (∀ wf ∈ m.chain, UniqueNames wf) →
      m.result = m'.result := by
  constructor
  · intro parent child hparent hchild
    have hsteps := steps_merge hparent hchild
    refine ⟨unique_merge hparent hchild, ?_, ?_, ?_, stepNames_merge hparent hchild⟩
    · intro name
      rw [stepNames, hsteps]
      exact mem_keys_override
    · intro step hstep
      rw [hsteps]
      exact mem_override_upper hchild hstep
    · intro step hstep hnew
      rw [hsteps]
      exact mem_override_lower hstep hnew
  · intro m m' hchain hunique
    obtain ⟨root, rest, hlist, hresult⟩ := result_eq_foldl m hunique
    obtain ⟨root', rest', hlist', hresult'⟩ := result_eq_foldl m' (hchain ▸ hunique)
    have hsame : root :: rest = root' :: rest' := by rw [← hlist, hchain, hlist']
    cases hsame
    rw [hresult, hresult']

def base : Workflow where
  name := "base"
  steps := [{ name := "build" }, { name := "test" }]
  timeout := some 1000

def nightly : Workflow where
  name := "nightly"
  «extends» := some "base"
  steps := [{ name := "test", retries := 2 }, { name := "report" }]

def weekly : Workflow where
  name := "weekly"
  «extends» := some "nightly"
  steps := [{ name := "report", shell := some "mail" }, { name := "build", retries := 1 }]

theorem merge_workflows_weekly :
    (UniqueNames (mergeWorkflows base nightly) ∧
      stepNames (mergeWorkflows base nightly) = ["build", "test", "report"]) ∧
    (Merging.merge (.merge (.leaf base) (.leaf nightly)) (.leaf weekly)).result =
      (Merging.merge (.leaf base) (.merge (.leaf nightly) (.leaf weekly))).result := by
  constructor
  · obtain ⟨hunique, _, _, _, hnames⟩ :=
      merge_workflows.1 base nightly (by decide) (by decide)
    exact ⟨hunique, hnames.trans (by decide)⟩
  · apply merge_workflows.2 _ _ rfl
    intro wf hwf
    rcases List.mem_cons.mp hwf with rfl | hwf
    · decide
    · rcases List.mem_cons.mp hwf with rfl | hwf
      · decide
      · rw [List.mem_singleton.mp hwf]
        decide

end Chains

end Loker.WorkflowInheritance
