import Loker.ParallelEdits
import Loker.StepWorkflow

/-! The operations that a step of a workflow calls, what each of them may answer, and the edits
and attempts in a run. -/

namespace Loker.StepOps

open Programs EditFiles StepWorkflow

section Model

/-- What a backend or a shell command has written. -/
structure Output where
  stdout : String
  stderr : Option String
  deriving DecidableEq, Repr

/-- Why a query or a command gave nothing. The flag marks a backend that itself ran out of time;
`elapsed` is the step's own limit. -/
inductive Failure where
  | error (message : String) (ranOut : Bool)
  | elapsed
  deriving DecidableEq, Repr

inductive Work where
  | command (cmd : String)
  | query (backend prompt : String) (model : Option String)
  deriving DecidableEq, Repr

inductive ConnectError where
  | notFound
  | notCreated (message : String)
  deriving DecidableEq, Repr

structure ValidationResult where
  passed : Bool
  deriving DecidableEq, Repr

/-- An attempt is the step's own work, which its retries are about; it is assisted by the queries
and commands that the runner adds. -/
inductive Op where
  | containsBackend (backend : String)
  | connect (backend : String)
  | isAvailable (backend : String)
  | attempt (work : Work)
  | assist (work : Work)
  | validate (config : ValidateConfig) (output : String) (stderr : Option String)
  | edit (o : EditFiles.Op)

def Answer : Op → Type
  | .containsBackend _ => Bool
  | .connect _ => Except ConnectError Unit
  | .isAvailable _ => Bool
  | .attempt _ => Except Failure Output
  | .assist _ => Except Failure Output
  | .validate _ _ _ => Option ValidationResult × Option String
  | .edit (.requestEdits _) => Except Failure Output
  | .edit o => EditFiles.Answer o

abbrev RunnerOps : Signature := ⟨Op, Answer⟩

end Model

section Requester

/-- What the requester of new edits has seen last. -/
structure Captures where
  lastStderr : Option String := none
  lastApplyPartialPaths : Option (List String) := none
  deriving DecidableEq, Repr

/-- The edit loop's view of an answer. -/
def plain : (o : EditFiles.Op) → Answer (.edit o) → EditFiles.Answer o
  | .readToString _, a => a
  | .createDirAll _, a => a
  | .write _ _, a => a
  | .removeFile _, a => a
  | .verify _ _, a => a
  | .format _, a => a
  | .requestEdits _, .ok out => Except.ok out.stdout
  | .requestEdits _, .error (.error message _) => Except.error ("Re-query failed: " ++ message)
  | .requestEdits _, .error .elapsed => Except.error "Re-query timed out"

def Captures.reason (caps : Captures) : RetryReason → Captures
  | .applyError _ partialPaths => { caps with lastApplyPartialPaths := some partialPaths }
  | .parseError _ => caps
  | .verifyError _ => caps

def Captures.after (caps : Captures) : (o : EditFiles.Op) → Answer (.edit o) → Captures
  | .requestEdits context, .ok out => { caps.reason context.reason with lastStderr := out.stderr }
  | .requestEdits context, .error _ => caps.reason context.reason
  | _, _ => caps

/-- A program that edits, with the step's backend as the requester of new edits. -/
def embed {ρ : Type} : Prog EditOps ρ → Captures → Prog RunnerOps (ρ × Captures)
  | .ret r, caps => .ret (r, caps)
  | .act o next, caps =>
      .act (S := RunnerOps) (.edit o) fun a => embed (next (plain o a)) (caps.after o a)

end Requester

section Environment

/-- The backends that the configuration has and that can be created. -/
abbrev Backends := String → Except ConnectError Unit

/-- Every answer an operation may give. Other steps of the level may have changed the files in the
meantime, so an edit's operation answers as it does for some tree of files. -/
def MayAnswer (backends : Backends) : (o : Op) → Answer o → Prop
  | .containsBackend backend, a => a = decide (backends backend ≠ .error .notFound)
  | .connect backend, a => a = backends backend
  | .isAvailable _, _ => True
  | .attempt _, _ => True
  | .assist _, _ => True
  | .validate _ _ _, _ => True
  | .edit o, a => ∃ t t', perform ⟨fun _ _ => True, fun _ => True⟩ o t (plain o a) t'

def answering (backends : Backends) : Semantics RunnerOps Unit :=
  fun o _ a _ => MayAnswer backends o a

end Environment

section Events

def editOf : Event RunnerOps → Option (Event EditOps)
  | ⟨.edit o, a⟩ => some ⟨o, plain o a⟩
  | _ => none

def attemptOf : Event RunnerOps → Option (Work × Bool)
  | ⟨.attempt work, .ok _⟩ => some (work, true)
  | ⟨.attempt work, .error _⟩ => some (work, false)
  | _ => none

/-- The operations of a run's edits. -/
def edits (tr : List (Event RunnerOps)) : List (Event EditOps) := tr.filterMap editOf

/-- The attempts of a run, each with whether it gave an output. -/
def attempts (tr : List (Event RunnerOps)) : List (Work × Bool) := tr.filterMap attemptOf

@[simp] lemma edits_nil : edits [] = [] := rfl

@[simp] lemma attempts_nil : attempts [] = [] := rfl

@[simp] lemma edits_append (tr tr' : List (Event RunnerOps)) :
    edits (tr ++ tr') = edits tr ++ edits tr' :=
  List.filterMap_append

@[simp] lemma attempts_append (tr tr' : List (Event RunnerOps)) :
    attempts (tr ++ tr') = attempts tr ++ attempts tr' :=
  List.filterMap_append

/-- Whatever is answered. -/
def anyhow : Semantics EditOps Unit := fun _ _ _ _ => True

variable {ρ : Type} {sem : Semantics RunnerOps Unit} {p : Prog EditOps ρ} {caps : Captures}
  {tr : List (Event RunnerOps)} {r : ρ × Captures}

/-- A run of an embedded program is one of the program itself, and it makes no attempt. -/
lemma embed_runs (run : Runs sem (embed p caps) () tr r ()) :
    Runs anyhow p () (edits tr) r.1 () ∧ attempts tr = [] := by
  induction p generalizing caps tr with
  | ret r₀ =>
      obtain ⟨rfl, rfl, _⟩ := runs_ret.mp run
      exact ⟨.stop, rfl⟩
  | act o next ih =>
      obtain ⟨a, _, tr', _, hrest, rfl⟩ := runs_act run
      obtain ⟨hruns, hnone⟩ := ih _ hrest
      exact ⟨.act trivial hruns, hnone⟩

/-- A run that asks for no new edits is one of the embedded program too. -/
lemma exists_embed_runs (backends : Backends) {t t' : Files} {tr : List (Event EditOps)} {r : ρ}
    (run : Runs (perform ⟨fun _ _ => True, fun _ => True⟩) p t tr r t')
    (hasks : ∀ e ∈ tr, ∀ context, e.op ≠ .requestEdits context) (caps : Captures) :
    ∃ tr', Runs (answering backends) (embed p caps) () tr' (r, caps) () := by
  induction p generalizing t tr with
  | ret r₀ =>
      obtain ⟨_, rfl, _⟩ := runs_ret.mp run
      exact ⟨[], .stop⟩
  | act o next ih =>
      obtain ⟨a, t₁, tr₁, hact, hrest, rfl⟩ := runs_act run
      obtain ⟨hfirst, hothers⟩ := List.forall_mem_cons.mp hasks
      have hanswer : ∃ a' : Answer (.edit o), plain o a' = a ∧ caps.after o a' = caps := by
        cases o with
        | requestEdits context => exact absurd rfl (hfirst context)
        | _ => exact ⟨a, rfl, rfl⟩
      obtain ⟨a', rfl, hcaps⟩ := hanswer
      obtain ⟨tr₂, hruns⟩ := ih _ hrest hothers
      rw [← hcaps] at hruns
      have hfirst : answering backends (.edit o) () a' () := ⟨t, t₁, hact⟩
      have hall : Runs (answering backends) (embed (.act o next) caps) () (⟨.edit o, a'⟩ :: tr₂)
          (r, caps.after o a') () := .act hfirst hruns
      rw [hcaps] at hall
      exact ⟨_, hall⟩

end Events

end Loker.StepOps
