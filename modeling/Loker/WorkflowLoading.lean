import Loker.EditFiles
import Loker.ParentChains
import Loker.Summary
import Loker.WorkflowInheritance

/-! Loading a workflow with the workflows that it extends. -/

namespace Loker.WorkflowLoading

open EditFiles (joinPath)
open ParentChains
open Summary (trimEndMatches)
open TextOps (endsWith)
open WorkflowInheritance

section Model

inductive WorkflowSource where
  | file (path : String)
  | embedded (name content : String)
  deriving DecidableEq, Repr

inductive FileKind where
  | file
  | other
  deriving DecidableEq, Repr

/-- The files as they are while a workflow is loaded, and the TOML parser. -/
structure Environment where
  metadata : String → Option FileKind
  readToString : String → Option String
  homeDir : Option String
  embedded : String → Option String
  fromStr : String → Except String Workflow

inductive LoadError where
  | depthExceeded
  | unreadable (path : String)
  | unparsable (source : WorkflowSource) (message : String)
  | parentNotFound (parent : String) (child : WorkflowSource)
  | invalid (e : StepWorkflow.WorkflowError)
  deriving DecidableEq, Repr

variable (env : Environment)

/-- The directories that are searched, the preferred ones first. -/
def searched (dir filename : String) : List String :=
  [joinPath (joinPath dir ".loker/workflows") filename,
    joinPath (joinPath dir ".lok/workflows") filename] ++
    match env.homeDir with
    | none => []
    | some home =>
        [joinPath (joinPath home ".config/loker/workflows") filename,
          joinPath (joinPath home ".config/lok/workflows") filename]

def findWorkflowIn (name dir : String) : Option WorkflowSource :=
  if env.metadata (joinPath dir name) = some .file then some (.file (joinPath dir name))
  else
    let filename := if endsWith name ".toml" then name else name ++ ".toml"
    match (searched env dir filename).find? fun path => (env.metadata path).isSome with
    | some path => some (.file path)
    | none =>
        (env.embedded (trimEndMatches name ".toml")).map
          (.embedded (trimEndMatches name ".toml"))

def findWorkflow (name : String) : Option WorkflowSource := findWorkflowIn env name "."

/-- `toml::from_str` on what the source holds. -/
def parseSource : WorkflowSource → Except LoadError Workflow
  | .file path =>
      match env.readToString path with
      | none => .error (.unreadable path)
      | some content => (env.fromStr content).mapError (.unparsable (.file path))
  | .embedded name content =>
      (env.fromStr content).mapError (.unparsable (.embedded name content))

def validated (wf : Workflow) : Except LoadError Workflow :=
  match StepWorkflow.validate wf.toWorkflow with
  | .ok () => .ok wf
  | .error e => .error (.invalid e)

/-- What follows the parsing, for files and embedded workflows alike. -/
def resolveExtends (loadParent : WorkflowSource → Except LoadError Workflow)
    (source : WorkflowSource) (wf : Workflow) : Except LoadError Workflow :=
  match wf.extends with
  | none => validated wf
  | some parentName =>
      match findWorkflow env parentName with
      | none => .error (.parentNotFound parentName source)
      | some parentSource =>
          loadParent parentSource >>= fun parent => validated (mergeWorkflows parent wf)

/-- The depth goes up to this one. -/
def maxDepth : ℕ := 10

/-- `levels` is one more than the depths that are left. -/
def loadWorkflowFromSourceWithDepth : (levels : ℕ) → WorkflowSource → Except LoadError Workflow
  | 0, _ => .error .depthExceeded
  | levels + 1, source =>
      parseSource env source >>= resolveExtends env (loadWorkflowFromSourceWithDepth levels) source

def loadWorkflowFromSource (source : WorkflowSource) : Except LoadError Workflow :=
  loadWorkflowFromSourceWithDepth env (maxDepth + 1) source

def loadWorkflow (path : String) : Except LoadError Workflow :=
  loadWorkflowFromSource env (.file path)

end Model

section Spec

variable (env : Environment)

/-- A source's workflow, with the source of the one that it extends. -/
def next (source : WorkflowSource) : Except LoadError (Workflow × Option WorkflowSource) :=
  parseSource env source >>= fun wf =>
    match wf.extends with
    | none => .ok (wf, none)
    | some parentName =>
        match findWorkflow env parentName with
        | none => .error (.parentNotFound parentName source)
        | some parentSource => .ok (wf, some parentSource)

/-- A child with its parents, the nearest one first. -/
def merged (child : Workflow) : List Workflow → Workflow
  | [] => child
  | parent :: parents => mergeWorkflows (merged parent parents) child

def Valid (wf : Workflow) : Prop := StepWorkflow.validate wf.toWorkflow = .ok ()

/-- The source's workflow and all that it inherits from. -/
def Inherits (source : WorkflowSource) (chain : List Workflow) : Prop := Chain (next env) source chain

def build : Option Workflow → Workflow → Except LoadError Workflow
  | none, wf => validated wf
  | some parent, wf => validated (mergeWorkflows parent wf)

end Spec

section Chains

variable {env : Environment} {source : WorkflowSource} {wf child : Workflow}
  {parents : List Workflow} {levels : ℕ}

lemma validated_eq_ok : validated child = .ok wf ↔ child = wf ∧ Valid wf := by
  unfold validated Valid
  cases hvalid : StepWorkflow.validate child.toWorkflow with
  | error e =>
    constructor
    · intro h
      cases h
    · rintro ⟨rfl, h⟩
      rw [hvalid] at h
      cases h
  | ok u =>
    constructor
    · intro h
      cases h
      exact ⟨rfl, hvalid⟩
    · rintro ⟨rfl, _⟩
      rfl

/-- The loader climbs the chain of parents. -/
lemma load_eq_resolve : loadWorkflowFromSourceWithDepth env levels source =
    resolve (next env) build .depthExceeded levels source := by
  induction levels generalizing source with
  | zero => rfl
  | succ levels ih =>
    rw [loadWorkflowFromSourceWithDepth, resolve, next]
    cases parseSource env source with
    | error e => rfl
    | ok wf =>
      simp only [bind, Except.bind, resolveExtends]
      cases wf.extends with
      | none => rfl
      | some parentName =>
        dsimp only
        cases findWorkflow env parentName with
        | none => rfl
        | some parentSource =>
          simp only [ih]
          rfl

/-- A chain is built when each part of it from the outermost parent on is valid. -/
lemma buildAll_eq_ok : buildAll build child parents = .ok wf ↔ merged child parents = wf ∧
    ∀ first rest, first :: rest <:+ child :: parents → Valid (merged first rest) := by
  induction parents generalizing child wf with
  | nil =>
    rw [buildAll, build, validated_eq_ok, merged]
    constructor
    · rintro ⟨rfl, hvalid⟩
      refine ⟨rfl, fun first rest hsuffix => ?_⟩
      have hsame := hsuffix.eq_of_length_le (by simp)
      simp only [List.cons.injEq] at hsame
      obtain ⟨rfl, rfl⟩ := hsame
      exact hvalid
    · rintro ⟨rfl, hall⟩
      exact ⟨rfl, hall child [] (List.suffix_refl _)⟩
  | cons parent parents ih =>
    rw [buildAll, bind_eq_ok, merged]
    constructor
    · rintro ⟨above, habove, hbuild⟩
      obtain ⟨rfl, hall⟩ := ih.mp habove
      obtain ⟨rfl, hvalid⟩ := validated_eq_ok.mp hbuild
      refine ⟨rfl, fun first rest hsuffix => ?_⟩
      rcases List.suffix_cons_iff.mp hsuffix with hsame | hrest
      · simp only [List.cons.injEq] at hsame
        obtain ⟨rfl, rfl⟩ := hsame
        exact hvalid
      · exact hall first rest hrest
    · rintro ⟨rfl, hall⟩
      refine ⟨merged parent parents, ih.mpr ⟨rfl, fun first rest hsuffix => ?_⟩, ?_⟩
      · exact hall first rest (hsuffix.trans (List.suffix_cons _ _))
      · exact validated_eq_ok.mpr ⟨rfl, hall child (parent :: parents) (List.suffix_refl _)⟩

lemma parseSource_ne_depthExceeded : parseSource env source ≠ .error .depthExceeded := by
  cases source with
  | file path =>
    cases hread : env.readToString path with
    | none => simp [parseSource, hread]
    | some content =>
      cases hparse : env.fromStr content <;> simp [parseSource, hread, hparse, Except.mapError]
  | embedded name content =>
    cases hparse : env.fromStr content <;> simp [parseSource, hparse, Except.mapError]

lemma next_ne_depthExceeded : next env source ≠ .error .depthExceeded := by
  cases hparse : parseSource env source with
  | error e =>
    intro h
    simp only [next, hparse, bind, Except.bind, Except.error.injEq] at h
    exact parseSource_ne_depthExceeded (h ▸ hparse)
  | ok wf =>
    simp only [next, hparse, bind, Except.bind]
    repeat' split
    all_goals simp

lemma validated_ne_depthExceeded : validated wf ≠ .error .depthExceeded := by
  unfold validated
  split <;> simp

lemma build_ne_depthExceeded (parent : Option Workflow) (child : Workflow) :
    build parent child ≠ .error .depthExceeded := by
  cases parent <;> exact validated_ne_depthExceeded

lemma next_root (hparse : parseSource env source = .ok wf) (hroot : wf.extends = none) :
    next env source = .ok (wf, none) := by
  simp [next, hparse, hroot, bind, Except.bind]

lemma next_parent {parentName : String} {parentSource : WorkflowSource}
    (hparse : parseSource env source = .ok wf) (hextends : wf.extends = some parentName)
    (hfind : findWorkflow env parentName = some parentSource) :
    next env source = .ok (wf, some parentSource) := by
  simp [next, hparse, hextends, hfind, bind, Except.bind]

lemma unique_merged (hchild : UniqueNames child) (hparents : ∀ p ∈ parents, UniqueNames p) :
    UniqueNames (merged child parents) := by
  induction parents generalizing child with
  | nil => exact hchild
  | cons parent parents ih =>
    refine unique_merge (ih ?_ fun p hp => ?_) hchild
    · exact hparents parent (by simp)
    · exact hparents p (by simp [hp])

end Chains

section Loading

/-- A workflow is loaded as its chain of parents merged, if and only if the chain ends within the
depth and is valid at each of its workflows. The depth is exceeded exactly by chains that go on
for longer, as every circular one does. -/
theorem load_along_parents (env : Environment) (source : WorkflowSource) :
    (∀ wf, loadWorkflowFromSource env source = .ok wf ↔ ∃ child parents,
      Inherits env source (child :: parents) ∧ parents.length ≤ maxDepth ∧
      (∀ first rest, first :: rest <:+ child :: parents → Valid (merged first rest)) ∧
      merged child parents = wf) ∧
    (loadWorkflowFromSource env source = .error .depthExceeded ↔
      Ascends (next env) (maxDepth + 1) source) ∧
    (∀ ancestor, Relation.ReflTransGen (Follows (next env)) source ancestor →
      Relation.TransGen (Follows (next env)) ancestor ancestor →
        loadWorkflowFromSource env source = .error .depthExceeded) ∧
    ∀ child parents, Inherits env source (child :: parents) → UniqueNames child →
      (∀ p ∈ parents, UniqueNames p) →
        ∀ wf, loadWorkflowFromSource env source = .ok wf → UniqueNames wf := by
  have hdepth : loadWorkflowFromSource env source = .error .depthExceeded ↔
      Ascends (next env) (maxDepth + 1) source := by
    rw [loadWorkflowFromSource, load_eq_resolve]
    exact resolve_tooDeep_iff (fun _ => next_ne_depthExceeded) build_ne_depthExceeded
  have hloads : ∀ wf, loadWorkflowFromSource env source = .ok wf ↔ ∃ child parents,
      Inherits env source (child :: parents) ∧ parents.length ≤ maxDepth ∧
      (∀ first rest, first :: rest <:+ child :: parents → Valid (merged first rest)) ∧
      merged child parents = wf := by
    intro wf
    rw [loadWorkflowFromSource, load_eq_resolve, resolve_ok_iff]
    constructor
    · rintro ⟨child, parents, hchain, hlength, hbuild⟩
      obtain ⟨hmerged, hvalid⟩ := buildAll_eq_ok.mp hbuild
      exact ⟨child, parents, hchain, by omega, hvalid, hmerged⟩
    · rintro ⟨child, parents, hchain, hlength, hvalid, hmerged⟩
      exact ⟨child, parents, hchain, by omega, buildAll_eq_ok.mpr ⟨hmerged, hvalid⟩⟩
  refine ⟨hloads, hdepth, fun ancestor hreach hcycle => ?_, ?_⟩
  · exact hdepth.mpr (ascends_of_cycle hreach hcycle (maxDepth + 1))
  · intro child parents hchain hchild hparents wf hload
    obtain ⟨child', parents', hchain', _, _, rfl⟩ := (hloads wf).mp hload
    have hsame := hchain'.unique hchain
    simp only [List.cons.injEq] at hsame
    obtain ⟨rfl, rfl⟩ := hsame
    exact unique_merged hchild hparents

/-- Files that hold their own path; the last two extend each other. -/
def sampleFiles : Environment where
  metadata path := if path ∈ ["./.loker/workflows/base.toml", "./.loker/workflows/nightly.toml",
    "./.loker/workflows/left.toml", "./.lok/workflows/right.toml"] then some .file else none
  readToString path := some path
  homeDir := none
  embedded _ := none
  fromStr content :=
    if content = "./.loker/workflows/base.toml" then .ok base
    else if content = "./.loker/workflows/nightly.toml" then .ok nightly
    else if content = "./.loker/workflows/left.toml" then
      .ok { name := "left", «extends» := some "right" }
    else .ok { name := "right", «extends» := some "left" }

lemma find_samples :
    findWorkflow sampleFiles "base" = some (.file "./.loker/workflows/base.toml") ∧
    findWorkflow sampleFiles "left" = some (.file "./.loker/workflows/left.toml") ∧
    findWorkflow sampleFiles "right" = some (.file "./.lok/workflows/right.toml") := by
  decide

theorem load_along_parents_samples :
    loadWorkflow sampleFiles "./.loker/workflows/nightly.toml" = .ok (mergeWorkflows base nightly) ∧
      UniqueNames (mergeWorkflows base nightly) ∧
      loadWorkflow sampleFiles "./.lok/workflows/right.toml" = .error .depthExceeded := by
  obtain ⟨hbase, hleft, hright⟩ := find_samples
  have hroot : next sampleFiles (.file "./.loker/workflows/base.toml") = .ok (base, none) :=
    next_root (by decide) rfl
  have hnightly : next sampleFiles (.file "./.loker/workflows/nightly.toml") =
      .ok (nightly, some (.file "./.loker/workflows/base.toml")) :=
    next_parent (by decide) rfl hbase
  have hleft' : next sampleFiles (.file "./.loker/workflows/left.toml") =
      .ok ({ name := "left", «extends» := some "right" },
        some (.file "./.lok/workflows/right.toml")) :=
    next_parent (by decide) rfl hright
  have hright' : next sampleFiles (.file "./.lok/workflows/right.toml") =
      .ok ({ name := "right", «extends» := some "left" },
        some (.file "./.loker/workflows/left.toml")) :=
    next_parent (by decide) rfl hleft
  have hchain : Inherits sampleFiles (.file "./.loker/workflows/nightly.toml") [nightly, base] :=
    .child hnightly (.root hroot)
  have hcycle : Relation.TransGen (Follows (next sampleFiles))
      (.file "./.lok/workflows/right.toml") (.file "./.lok/workflows/right.toml") :=
    .tail (.single ⟨_, hright'⟩) ⟨_, hleft'⟩
  obtain ⟨hloads, _, _, hunique⟩ :=
    load_along_parents sampleFiles (.file "./.loker/workflows/nightly.toml")
  have hload : loadWorkflow sampleFiles "./.loker/workflows/nightly.toml" =
      .ok (mergeWorkflows base nightly) := by
    refine (hloads _).mpr ⟨nightly, [base], hchain, by decide, ?_, rfl⟩
    have hvalid : Valid base ∧ Valid (merged nightly [base]) := by
      unfold Valid
      decide
    intro first rest hsuffix
    simp only [List.suffix_cons_iff, List.suffix_nil, List.cons.injEq, reduceCtorEq,
      or_false] at hsuffix
    rcases hsuffix with ⟨rfl, rfl⟩ | ⟨rfl, rfl⟩
    · exact hvalid.2
    · exact hvalid.1
  refine ⟨hload, hunique nightly [base] hchain (by decide) (by decide) _ hload, ?_⟩
  exact (load_along_parents sampleFiles _).2.2.1 _ .refl hcycle

end Loading

end Loker.WorkflowLoading
