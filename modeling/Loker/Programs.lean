import Mathlib

/-! Sequential programs over atomic operations, their runs, and the rely-guarantee rules for
programs that share a state. -/

namespace Loker.Programs

/-- The atomic operations of a system, with the type of each operation's answer. -/
structure Signature where
  Op : Type
  Answer : Op → Type

structure Event (S : Signature) where
  op : S.Op
  answer : S.Answer op

inductive Prog (S : Signature) (ρ : Type) where
  | ret (r : ρ)
  | act (o : S.Op) (next : S.Answer o → Prog S ρ)

variable {S : Signature} {σ ρ τ ι : Type}

def Prog.bind : Prog S ρ → (ρ → Prog S τ) → Prog S τ
  | .ret r, f => f r
  | .act o next, f => .act o fun a => (next a).bind f

instance : Monad (Prog S) where
  pure := .ret
  bind := Prog.bind

def call (o : S.Op) : Prog S (S.Answer o) := .act o .ret

@[simp] lemma pure_eq (r : ρ) : (pure r : Prog S ρ) = .ret r := rfl

@[simp] lemma ret_bind (r : ρ) (f : ρ → Prog S τ) : (Prog.ret r >>= f) = f r := rfl

@[simp] lemma act_bind (o : S.Op) (next : S.Answer o → Prog S ρ) (f : ρ → Prog S τ) :
    (Prog.act o next >>= f) = .act o fun a => next a >>= f := rfl

@[simp] lemma call_bind (o : S.Op) (f : S.Answer o → Prog S τ) :
    (call o >>= f) = .act o f := rfl

/-- What an operation may answer and how it changes the state. -/
abbrev Semantics (S : Signature) (σ : Type) := (o : S.Op) → σ → S.Answer o → σ → Prop

/-- Some number of atomic operations of one program, with nothing in between. -/
inductive Steps (sem : Semantics S σ) :
    Prog S ρ → σ → List (Event S) → Prog S ρ → σ → Prop
  | stop {p s} : Steps sem p s [] p s
  | act {o : S.Op} {next : S.Answer o → Prog S ρ} {s a s₁ tr p s₂}
      (first : sem o s a s₁) (rest : Steps sem (next a) s₁ tr p s₂) :
      Steps sem (.act o next) s (⟨o, a⟩ :: tr) p s₂

/-- A run to the end. -/
def Runs (sem : Semantics S σ) (p : Prog S ρ) (s : σ) (tr : List (Event S)) (r : ρ)
    (s' : σ) : Prop :=
  Steps sem p s tr (.ret r) s'

/-- Runs a program whose operations are carried out by a function. -/
def eval (handle : (o : S.Op) → σ → S.Answer o × σ) :
    Prog S ρ → σ → List (Event S) × ρ × σ
  | .ret r, s => ([], r, s)
  | .act o next, s =>
      let step := handle o s
      let rest := eval handle (next step.1) step.2
      (⟨o, step.1⟩ :: rest.1, rest.2)

/-- The first operations of a program, as many as there is fuel for. -/
def evalFor (handle : (o : S.Op) → σ → S.Answer o × σ) :
    ℕ → Prog S ρ → σ → List (Event S) × Prog S ρ × σ
  | 0, p, s => ([], p, s)
  | _ + 1, .ret r, s => ([], .ret r, s)
  | fuel + 1, .act o next, s =>
      let step := handle o s
      let rest := evalFor handle fuel (next step.1) step.2
      (⟨o, step.1⟩ :: rest.1, rest.2)

/-- Each operation as the function carries it out. -/
def following (handle : (o : S.Op) → σ → S.Answer o × σ) : Semantics S σ :=
  fun o s a s' => (a, s') = handle o s

/-- Only the operations that the guard admits in the state before them. -/
def guarded (guard : S.Op → σ → Prop) (sem : Semantics S σ) : Semantics S σ :=
  fun o s a s' => guard o s ∧ sem o s a s'

section Runs

variable {sem : Semantics S σ}

lemma evalFor_steps {handle : (o : S.Op) → σ → S.Answer o × σ}
    (h : ∀ o s, sem o s (handle o s).1 (handle o s).2) (fuel : ℕ) (p : Prog S ρ) (s : σ) :
    Steps sem p s (evalFor handle fuel p s).1 (evalFor handle fuel p s).2.1
      (evalFor handle fuel p s).2.2 := by
  induction fuel generalizing p s with
  | zero => exact .stop
  | succ fuel ih =>
      cases p with
      | ret r => exact .stop
      | act o next => exact .act (h o s) (ih _ _)

/-- The guard admits each of the first operations. -/
def Admits (guard : S.Op → σ → Prop) (handle : (o : S.Op) → σ → S.Answer o × σ) :
    ℕ → Prog S ρ → σ → Prop
  | 0, _, _ => True
  | _ + 1, .ret _, _ => True
  | fuel + 1, .act o next, s =>
      guard o s ∧ Admits guard handle fuel (next (handle o s).1) (handle o s).2

lemma evalFor_steps_guarded {guard : S.Op → σ → Prop} {handle : (o : S.Op) → σ → S.Answer o × σ}
    (h : ∀ o s, sem o s (handle o s).1 (handle o s).2) {fuel : ℕ} {p : Prog S ρ} {s : σ}
    (hguard : Admits guard handle fuel p s) :
    Steps (guarded guard sem) p s (evalFor handle fuel p s).1 (evalFor handle fuel p s).2.1
      (evalFor handle fuel p s).2.2 := by
  induction fuel generalizing p s with
  | zero => exact .stop
  | succ fuel ih =>
      cases p with
      | ret r => exact .stop
      | act o next => exact .act ⟨hguard.1, h o s⟩ (ih hguard.2)

/-- Each of the first operations is one that the semantics has. -/
lemma evalFor_steps_of_admits {handle : (o : S.Op) → σ → S.Answer o × σ} {fuel : ℕ}
    {p : Prog S ρ} {s : σ}
    (h : Admits (fun o s => sem o s (handle o s).1 (handle o s).2) handle fuel p s) :
    Steps sem p s (evalFor handle fuel p s).1 (evalFor handle fuel p s).2.1
      (evalFor handle fuel p s).2.2 := by
  induction fuel generalizing p s with
  | zero => exact .stop
  | succ fuel ih =>
      cases p with
      | ret r => exact .stop
      | act o next => exact .act h.1 (ih h.2)

/-- Where an invariant of the run implies the guard, the guard excludes nothing. -/
lemma Steps.guarded {guard : S.Op → σ → Prop} {I : σ → Prop}
    (hguard : ∀ o s, I s → guard o s) (hstep : ∀ o s a s', I s → sem o s a s' → I s')
    {p p' : Prog S ρ} {s s' : σ} {tr : List (Event S)} (run : Steps sem p s tr p' s') (hI : I s) :
    Steps (guarded guard sem) p s tr p' s' := by
  induction run with
  | stop => exact .stop
  | act first _ ih => exact .act ⟨hguard _ _ hI, first⟩ (ih (hstep _ _ _ _ hI first))

lemma eval_runs {handle : (o : S.Op) → σ → S.Answer o × σ}
    (h : ∀ o s, sem o s (handle o s).1 (handle o s).2) (p : Prog S ρ) (s : σ) :
    Runs sem p s (eval handle p s).1 (eval handle p s).2.1 (eval handle p s).2.2 := by
  induction p generalizing s with
  | ret r => exact .stop
  | act o next ih => exact .act (h o s) (ih _ _)

lemma Steps.trans {p q r : Prog S ρ} {s₁ s₂ s₃ : σ} {tr₁ tr₂ : List (Event S)}
    (h₁ : Steps sem p s₁ tr₁ q s₂) (h₂ : Steps sem q s₂ tr₂ r s₃) :
    Steps sem p s₁ (tr₁ ++ tr₂) r s₃ := by
  induction h₁ with
  | stop => exact h₂
  | act first _ ih => exact .act first (ih h₂)

lemma runs_ret {r r' : ρ} {s s' : σ} {tr : List (Event S)} :
    Runs sem (.ret r) s tr r' s' ↔ tr = [] ∧ r = r' ∧ s = s' := by
  constructor
  · intro h
    cases h
    exact ⟨rfl, rfl, rfl⟩
  · rintro ⟨rfl, rfl, rfl⟩
    exact .stop

lemma runs_act {o : S.Op} {next : S.Answer o → Prog S ρ} {s s' : σ} {tr : List (Event S)} {r : ρ}
    (h : Runs sem (.act o next) s tr r s') :
    ∃ a s₁ tr', sem o s a s₁ ∧ Runs sem (next a) s₁ tr' r s' ∧ tr = ⟨o, a⟩ :: tr' := by
  cases h with
  | act first rest => exact ⟨_, _, _, first, rest, rfl⟩

lemma runs_call {o : S.Op} {f : S.Answer o → Prog S ρ} {s s' : σ} {tr : List (Event S)} {r : ρ}
    (h : Runs sem (call o >>= f) s tr r s') :
    ∃ a s₁ tr', sem o s a s₁ ∧ Runs sem (f a) s₁ tr' r s' ∧ tr = ⟨o, a⟩ :: tr' :=
  runs_act h

/-- A partial run of a sequence is inside its first part or has finished it. -/
lemma steps_bind {p : Prog S ρ} {f : ρ → Prog S τ} {s s' : σ} {tr : List (Event S)}
    {q : Prog S τ} (h : Steps sem (p >>= f) s tr q s') :
    (∃ p', Steps sem p s tr p' s' ∧ q = p' >>= f) ∨
      ∃ r tr₁ tr₂ s₁, Runs sem p s tr₁ r s₁ ∧ Steps sem (f r) s₁ tr₂ q s' ∧
        tr = tr₁ ++ tr₂ := by
  induction p generalizing s tr with
  | ret r => exact Or.inr ⟨r, [], tr, s, .stop, h, rfl⟩
  | act o next ih =>
      cases h with
      | stop => exact Or.inl ⟨.act o next, .stop, rfl⟩
      | act first rest =>
          rcases ih _ rest with ⟨p', hp, rfl⟩ | ⟨r, tr₁, tr₂, s₁, hp, hf, rfl⟩
          · exact Or.inl ⟨p', .act first hp, rfl⟩
          · exact Or.inr ⟨r, _ :: tr₁, tr₂, s₁, .act first hp, hf, rfl⟩

lemma runs_bind {p : Prog S ρ} {f : ρ → Prog S τ} {s s' : σ} {tr : List (Event S)} {r' : τ}
    (h : Runs sem (p >>= f) s tr r' s') :
    ∃ r tr₁ tr₂ s₁, Runs sem p s tr₁ r s₁ ∧ Runs sem (f r) s₁ tr₂ r' s' ∧ tr = tr₁ ++ tr₂ := by
  rcases steps_bind h with ⟨p', hp, hq⟩ | h
  · cases p' with
    | ret r =>
        refine ⟨r, tr, [], s', hp, ?_, (List.append_nil tr).symm⟩
        rw [ret_bind] at hq
        exact hq ▸ .stop
    | act o next => cases hq
  · exact h

/-- A run of the first part and one of the rest make a run of the whole. -/
lemma Runs.bind {p : Prog S ρ} {f : ρ → Prog S τ} {s s₁ s' : σ} {tr₁ tr₂ : List (Event S)} {r : ρ}
    {r' : τ} (hp : Runs sem p s tr₁ r s₁) (hf : Runs sem (f r) s₁ tr₂ r' s') :
    Runs sem (p >>= f) s (tr₁ ++ tr₂) r' s' := by
  induction p generalizing s tr₁ with
  | ret r₀ =>
      obtain ⟨rfl, rfl, rfl⟩ := runs_ret.mp hp
      exact hf
  | act o next ih =>
      cases hp with
      | act first rest => exact .act first (ih _ rest)

lemma bind_assoc (p : Prog S ι) (f : ι → Prog S ρ) (g : ρ → Prog S τ) :
    (p >>= f) >>= g = p >>= fun x => f x >>= g := by
  induction p with
  | ret r => rfl
  | act o next ih => exact congrArg (Prog.act o) (funext ih)

/-- A partial run of the first part is one of the whole. -/
lemma Steps.bind {p p' : Prog S ρ} {f : ρ → Prog S τ} {s s' : σ} {tr : List (Event S)}
    (h : Steps sem p s tr p' s') : Steps sem (p >>= f) s tr (p' >>= f) s' := by
  induction h with
  | stop => exact .stop
  | act first _ ih => exact .act first ih

/-- The run gets to the other program, runs it to its end and goes on with what it returns. -/
def PassesThrough (sem : Semantics S σ) (p : Prog S ρ) (s : σ) (tr : List (Event S)) (r : ρ)
    (s' : σ) (q : Prog S ι) (s₁ : σ) (tr₁ : List (Event S)) (x : ι) (s₂ : σ) : Prop :=
  ∃ rest before after, Steps sem p s before (q >>= rest) s₁ ∧ Runs sem q s₁ tr₁ x s₂ ∧
    Runs sem (rest x) s₂ after r s' ∧ tr = before ++ tr₁ ++ after

lemma PassesThrough.first {p : Prog S ι} {f : ι → Prog S ρ} {s s₁ s' : σ}
    {tr tr' : List (Event S)} {x : ι} {r : ρ} (hp : Runs sem p s tr x s₁)
    (hf : Runs sem (f x) s₁ tr' r s') :
    PassesThrough sem (p >>= f) s (tr ++ tr') r s' p s tr x s₁ :=
  ⟨f, [], tr', .stop, hp, hf, rfl⟩

lemma PassesThrough.left {p : Prog S ρ} {f : ρ → Prog S τ} {q : Prog S ι} {s s₁ s₂ s₃ s' : σ}
    {tr tr₁ tr' : List (Event S)} {x : ι} {r : ρ} {r' : τ}
    (h : PassesThrough sem p s tr r s₃ q s₁ tr₁ x s₂) (hf : Runs sem (f r) s₃ tr' r' s') :
    PassesThrough sem (p >>= f) s (tr ++ tr') r' s' q s₁ tr₁ x s₂ := by
  obtain ⟨rest, before, after, hbefore, hq, hafter, rfl⟩ := h
  refine ⟨fun y => rest y >>= f, before, after ++ tr', ?_, hq, hafter.bind hf, by simp⟩
  rw [← bind_assoc]
  exact hbefore.bind

lemma PassesThrough.right {p : Prog S ρ} {f : ρ → Prog S τ} {q : Prog S ι} {s s₁ s₂ s₃ s' : σ}
    {tr tr₁ tr' : List (Event S)} {x : ι} {r : ρ} {r' : τ} (hp : Runs sem p s tr r s₃)
    (h : PassesThrough sem (f r) s₃ tr' r' s' q s₁ tr₁ x s₂) :
    PassesThrough sem (p >>= f) s (tr ++ tr') r' s' q s₁ tr₁ x s₂ := by
  obtain ⟨rest, before, after, hbefore, hq, hafter, rfl⟩ := h
  refine ⟨rest, tr ++ before, after, ?_, hq, hafter, by simp⟩
  exact (Steps.bind hp).trans hbefore

lemma PassesThrough.part {p : Prog S ρ} {q : Prog S ι} {s s₁ s₂ s' : σ}
    {tr tr₁ : List (Event S)} {x : ι} {r : ρ}
    (h : PassesThrough sem p s tr r s' q s₁ tr₁ x s₂) : Runs sem q s₁ tr₁ x s₂ := by
  obtain ⟨_, _, _, _, hq, _⟩ := h
  exact hq

end Runs

/-- What a program expects of the others and what each of its own operations promises. -/
structure Contract (S : Signature) (σ : Type) where
  rely : σ → σ → Prop
  guarantee : Event S → σ → σ → Prop
  rely_refl : ∀ s, rely s s
  rely_trans : ∀ {s₁ s₂ s₃}, rely s₁ s₂ → rely s₂ s₃ → rely s₁ s₃

/-- From the state the program keeps its guarantee at every operation and ends in the
postcondition, whatever the others do within the rely relation between its operations. -/
def Meets (sem : Semantics S σ) (c : Contract S σ) (post : ρ → σ → Prop) :
    Prog S ρ → σ → Prop
  | .ret r, s => ∀ s', c.rely s s' → post r s'
  | .act o next, s => ∀ s₁, c.rely s s₁ → ∀ a s₂, sem o s₁ a s₂ →
      c.guarantee ⟨o, a⟩ s₁ s₂ ∧ Meets sem c post (next a) s₂

section Meets

variable {sem : Semantics S σ} {c : Contract S σ}

lemma Meets.stable {post : ρ → σ → Prop} {p : Prog S ρ} {s s' : σ}
    (h : Meets sem c post p s) (hs : c.rely s s') : Meets sem c post p s' := by
  cases p with
  | ret r => exact fun s₁ h₁ => h s₁ (c.rely_trans hs h₁)
  | act o next => exact fun s₁ h₁ => h s₁ (c.rely_trans hs h₁)

lemma Meets.mono {post post' : ρ → σ → Prop} {p : Prog S ρ} {s : σ}
    (h : Meets sem c post p s) (hpost : ∀ r s', post r s' → post' r s') :
    Meets sem c post' p s := by
  induction p generalizing s with
  | ret r => exact fun s' hs => hpost r s' (h s' hs)
  | act o next ih =>
      intro s₁ hs a s₂ hstep
      obtain ⟨hguar, hnext⟩ := h s₁ hs a s₂ hstep
      exact ⟨hguar, ih a hnext⟩

lemma Meets.bind {post : τ → σ → Prop} {p : Prog S ρ} {f : ρ → Prog S τ} {s : σ}
    (h : Meets sem c (fun r s' => Meets sem c post (f r) s') p s) :
    Meets sem c post (p >>= f) s := by
  induction p generalizing s with
  | ret r => exact h s (c.rely_refl s)
  | act o next ih =>
      intro s₁ hs a s₂ hstep
      obtain ⟨hguar, hnext⟩ := h s₁ hs a s₂ hstep
      exact ⟨hguar, ih a hnext⟩

lemma meets_ret {post : ρ → σ → Prop} {r : ρ} {s : σ} (h : ∀ s', c.rely s s' → post r s') :
    Meets sem c post (.ret r) s := h

/-- A semantics with fewer steps asks less of the program. -/
lemma Meets.restrict {sem' : Semantics S σ} {post : ρ → σ → Prop} {p : Prog S ρ} {s : σ}
    (h : Meets sem c post p s) (hsem : ∀ o s a s', sem' o s a s' → sem o s a s') :
    Meets sem' c post p s := by
  induction p generalizing s with
  | ret r => exact h
  | act o next ih =>
      intro s₁ hs a s₂ hstep
      obtain ⟨hguar, hnext⟩ := h s₁ hs a s₂ (hsem o s₁ a s₂ hstep)
      exact ⟨hguar, ih a hnext⟩

/-- What a program does alone keeps the contract. -/
lemma Steps.meets {post : ρ → σ → Prop} {p p' : Prog S ρ} {s s' : σ} {tr : List (Event S)}
    (run : Steps sem p s tr p' s') (h : Meets sem c post p s) : Meets sem c post p' s' := by
  induction run with
  | stop => exact h
  | act first _ ih => exact ih (h _ (c.rely_refl _) _ _ first).2

lemma Runs.post {post : ρ → σ → Prop} {p : Prog S ρ} {r : ρ} {s s' : σ}
    {tr : List (Event S)} (run : Runs sem p s tr r s') (h : Meets sem c post p s) :
    post r s' :=
  run.meets h s' (c.rely_refl s')

/-- The guarantee holds of every operation a run reaches. -/
lemma Steps.guarantee {post : ρ → σ → Prop} {p : Prog S ρ} {o : S.Op}
    {next : S.Answer o → Prog S ρ} {a : S.Answer o} {s s₁ s₂ : σ} {tr : List (Event S)}
    (run : Steps sem p s tr (.act o next) s₁) (h : Meets sem c post p s)
    (hstep : sem o s₁ a s₂) : c.guarantee ⟨o, a⟩ s₁ s₂ :=
  (run.meets h s₁ (c.rely_refl s₁) a s₂ hstep).1

end Meets

section Emits

/-- Every operation the program may ask for, after any answers, has the property. -/
def Emits (P : S.Op → Prop) : Prog S ρ → Prop
  | .ret _ => True
  | .act o next => P o ∧ ∀ a, Emits P (next a)

variable {P P' : S.Op → Prop} {sem : Semantics S σ}

lemma Emits.bind {p : Prog S ρ} {f : ρ → Prog S τ} (hp : Emits P p) (hf : ∀ r, Emits P (f r)) :
    Emits P (p >>= f) := by
  induction p with
  | ret r => exact hf r
  | act o next ih => exact ⟨hp.1, fun a => ih a (hp.2 a)⟩

lemma Emits.mono {p : Prog S ρ} (hp : Emits P p) (h : ∀ o, P o → P' o) : Emits P' p := by
  induction p with
  | ret r => trivial
  | act o next ih => exact ⟨h o hp.1, fun a => ih a (hp.2 a)⟩

lemma Steps.emits {p p' : Prog S ρ} {s s' : σ} {tr : List (Event S)}
    (run : Steps sem p s tr p' s') (h : Emits P p) : Emits P p' ∧ ∀ e ∈ tr, P e.op := by
  induction run with
  | stop => exact ⟨h, by simp⟩
  | act first _ ih =>
      obtain ⟨hp, htr⟩ := ih (h.2 _)
      exact ⟨hp, List.forall_mem_cons.mpr ⟨h.1, htr⟩⟩

/-- Every result the program may have, after any answers, has the property. -/
def Yields (Q : ρ → Prop) : Prog S ρ → Prop
  | .ret r => Q r
  | .act _ next => ∀ a, Yields Q (next a)

lemma Yields.bind {Q : ρ → Prop} {Q' : τ → Prop} {p : Prog S ρ} {f : ρ → Prog S τ}
    (hp : Yields Q p) (hf : ∀ r, Q r → Yields Q' (f r)) : Yields Q' (p >>= f) := by
  induction p with
  | ret r => exact hf r hp
  | act o next ih => exact fun a => ih a (hp a)

lemma Yields.mono {Q Q' : ρ → Prop} {p : Prog S ρ} (hp : Yields Q p) (h : ∀ r, Q r → Q' r) :
    Yields Q' p := by
  induction p with
  | ret r => exact h r hp
  | act o next ih => exact fun a => ih a (hp a)

lemma yields_true (p : Prog S ρ) : Yields (fun _ => True) p := by
  induction p with
  | ret r => trivial
  | act o next ih => exact ih

lemma Steps.yields {Q : ρ → Prop} {p p' : Prog S ρ} {s s' : σ} {tr : List (Event S)}
    (run : Steps sem p s tr p' s') (h : Yields Q p) : Yields Q p' := by
  induction run with
  | stop => exact h
  | act _ _ ih => exact ih (h _)

/-- The program runs alone and keeps the invariant at every operation. -/
def keeps (S : Signature) (I : σ → Prop) : Contract S σ where
  rely s s' := s' = s
  guarantee _ _ s' := I s'
  rely_refl _ := rfl
  rely_trans h₁ h₂ := h₂.trans h₁

/-- What each operation preserves, a program of such operations preserves. -/
lemma Emits.meets {I : σ → Prop} {p : Prog S ρ} {s : σ} (hp : Emits P p)
    (hstep : ∀ o s a s', P o → I s → sem o s a s' → I s') (hs : I s) :
    Meets sem (keeps S I) (fun _ => I) p s := by
  induction p generalizing s with
  | ret r =>
      rintro s' rfl
      exact hs
  | act o next ih =>
      rintro s₁ rfl a s₂ hact
      have hs₂ := hstep o s₁ a s₂ hp.1 hs hact
      exact ⟨hs₂, ih a (hp.2 a) hs₂⟩

/-- Where the invariant holds, the program's operations do no more under the other semantics. -/
lemma Meets.transfer {sem' : Semantics S σ} {I : σ → Prop} {post : ρ → σ → Prop}
    {p : Prog S ρ} {s : σ} (h : Meets sem (keeps S I) post p s) (hp : Emits P p)
    (hsem : ∀ o s a s', P o → I s → sem' o s a s' → sem o s a s') (hs : I s) :
    Meets sem' (keeps S I) post p s := by
  induction p generalizing s with
  | ret r => exact h
  | act o next ih =>
      intro s₁ hs₁ a s₂ hact
      obtain rfl : s₁ = s := hs₁
      obtain ⟨hguar, hnext⟩ := h s₁ rfl a s₂ (hsem o s₁ a s₂ hp.1 hs hact)
      exact ⟨hguar, ih a hnext (hp.2 a) hguar⟩

lemma Meets.weaken {I J : σ → Prop} {post : ρ → σ → Prop} {p : Prog S ρ} {s : σ}
    (h : Meets sem (keeps S I) post p s) (hIJ : ∀ s, I s → J s) :
    Meets sem (keeps S J) post p s := by
  induction p generalizing s with
  | ret r => exact h
  | act o next ih =>
      intro s₁ hs₁ a s₂ hact
      obtain ⟨hguar, hnext⟩ := h s₁ hs₁ a s₂ hact
      exact ⟨hIJ s₂ hguar, ih a hnext⟩

/-- The invariant holds wherever the run stops. -/
lemma Steps.invariant {I : σ → Prop} {post : ρ → σ → Prop} {p p' : Prog S ρ} {s s' : σ}
    {tr : List (Event S)} (run : Steps sem p s tr p' s') (h : Meets sem (keeps S I) post p s)
    (hs : I s) : I s' := by
  induction run with
  | stop => exact hs
  | act first _ ih =>
      obtain ⟨hguar, hnext⟩ := h _ rfl _ _ first
      exact ih hnext hguar

end Emits

section Errors

variable {ε : Type} {P : S.Op → Prop} {sem : Semantics S σ} {c : Contract S σ}

lemma bind_eq_ok {α β : Type} {x : Except ε α} {f : α → Except ε β} {b : β}
    (h : (x >>= f) = .ok b) : ∃ a, x = .ok a ∧ f a = .ok b := by
  cases x with
  | error e => cases h
  | ok a => exact ⟨a, rfl, h⟩

lemma mapM_cons_eq_ok {α β : Type} {f : α → Except ε β} {x : α} {xs : List α} {ys : List β} :
    (x :: xs).mapM f = .ok ys ↔
      ∃ y rest, f x = .ok y ∧ xs.mapM f = .ok rest ∧ ys = y :: rest := by
  rw [List.mapM_cons]
  cases hx : f x with
  | error e => simp [bind, Except.bind]
  | ok y =>
      cases hxs : xs.mapM f with
      | error e => simp [bind, Except.bind]
      | ok rest => simp [bind, Except.bind, pure, Except.pure, eq_comm]

lemma forM_ok_iff {α : Type} {f : α → Except ε Unit} {xs : List α} :
    xs.forM f = .ok () ↔ ∀ x ∈ xs, f x = .ok () := by
  induction xs with
  | nil => exact ⟨fun _ => List.forall_mem_nil _, fun _ => rfl⟩
  | cons x xs ih =>
      rw [List.forall_mem_cons, ← ih]
      constructor
      · intro h
        obtain ⟨_, hx, hxs⟩ := bind_eq_ok (x := f x) (f := fun _ => xs.forM f) h
        exact ⟨hx, hxs⟩
      · rintro ⟨hx, hxs⟩
        show (f x >>= fun _ => xs.forM f) = .ok ()
        rw [hx]
        exact hxs

lemma mapM_isSome {α β : Type} {f : α → Option β} {xs : List α}
    (h : ∀ x ∈ xs, ∃ y, f x = some y) : ∃ ys, xs.mapM f = some ys := by
  induction xs with
  | nil => exact ⟨[], rfl⟩
  | cons x xs ih =>
      obtain ⟨y, hy⟩ := h x List.mem_cons_self
      obtain ⟨ys, hys⟩ := ih fun x' hx' => h x' (List.mem_cons_of_mem _ hx')
      exact ⟨y :: ys, by simp [List.mapM_cons, hy, hys]⟩

lemma mapM_option_eq {α β : Type} {f : α → Option β} {xs : List α} :
    xs.mapM f = if ∀ x ∈ xs, (f x).isSome then some (xs.filterMap f) else none := by
  induction xs with
  | nil => rfl
  | cons x xs ih =>
      rw [List.mapM_cons, ih]
      cases hx : f x with
      | none => simp [hx]
      | some y =>
          have hcons : (∀ x' ∈ x :: xs, (f x').isSome) ↔ ∀ x' ∈ xs, (f x').isSome := by simp [hx]
          by_cases hall : ∀ x' ∈ xs, (f x').isSome
          · rw [if_pos hall, if_pos (hcons.mpr hall), List.filterMap_cons_some hx]
            rfl
          · rw [if_neg hall, if_neg (mt hcons.mp hall)]
            rfl

/-- One operation of a program that may fail. -/
def op (o : S.Op) : ExceptT ε (Prog S) (S.Answer o) := ExceptT.lift (call o)

lemma eval_op_bind {handle : (o : S.Op) → σ → S.Answer o × σ} {o : S.Op}
    {f : S.Answer o → ExceptT ε (Prog S) τ} {s : σ} :
    (eval handle (op o >>= f : ExceptT ε (Prog S) τ) s).2 =
      (eval handle (f (handle o s).1) (handle o s).2).2 := rfl

lemma eval_bind {handle : (o : S.Op) → σ → S.Answer o × σ} {p : Prog S ρ} {f : ρ → Prog S τ} {s : σ} :
    (eval handle (p >>= f) s).2 = (eval handle (f (eval handle p s).2.1) (eval handle p s).2.2).2 := by
  induction p generalizing s with
  | ret r => rfl
  | act o next ih => exact ih _

/-- A sequence goes on with the result of its first part. -/
lemma eval_bind_ok {handle : (o : S.Op) → σ → S.Answer o × σ} {p : ExceptT ε (Prog S) ρ}
    {f : ρ → ExceptT ε (Prog S) τ} {s s' : σ} {x : ρ}
    (hx : (eval (ρ := Except ε ρ) handle p s).2 = (.ok x, s')) :
    (eval (ρ := Except ε τ) handle (p >>= f : ExceptT ε (Prog S) τ) s).2 =
      (eval (ρ := Except ε τ) handle (f x) s').2 := by
  refine (eval_bind (ρ := Except ε ρ) (τ := Except ε τ) (p := p) (f := ExceptT.bindCont f)).trans ?_
  rw [hx]
  rfl

/-- A sequence ends with the error of its first part. -/
lemma eval_bind_error {handle : (o : S.Op) → σ → S.Answer o × σ} {p : ExceptT ε (Prog S) ρ}
    {f : ρ → ExceptT ε (Prog S) τ} {s s' : σ} {e : ε}
    (he : (eval (ρ := Except ε ρ) handle p s).2 = (.error e, s')) :
    (eval (ρ := Except ε τ) handle (p >>= f : ExceptT ε (Prog S) τ) s).2 = (.error e, s') := by
  refine (eval_bind (ρ := Except ε ρ) (τ := Except ε τ) (p := p) (f := ExceptT.bindCont f)).trans ?_
  rw [he]
  rfl

lemma exceptBind_assoc (p : ExceptT ε (Prog S) ι) (f : ι → ExceptT ε (Prog S) ρ)
    (g : ρ → ExceptT ε (Prog S) τ) : (p >>= f) >>= g = p >>= fun x => f x >>= g := by
  refine (bind_assoc (ρ := Except ε ρ) (τ := Except ε τ) (show Prog S (Except ε ι) from p)
    (ExceptT.bindCont f) (ExceptT.bindCont g)).trans ?_
  refine congrArg (Prog.bind (ρ := Except ε ι) (τ := Except ε τ) p) (funext fun r => ?_)
  cases r with
  | ok x => rfl
  | error e => rfl

/-- What every result of a program has, its evaluation has. -/
lemma eval_yields {handle : (o : S.Op) → σ → S.Answer o × σ} {Q : ρ → Prop} {p : Prog S ρ} {s : σ}
    (h : Yields Q p) : Q (eval handle p s).2.1 := by
  induction p generalizing s with
  | ret r => exact h
  | act o next ih => exact ih _ (h _)

/-- Every result of a sequence is an error of the first part or a result of the rest. -/
lemma Yields.exceptBind {Q : Except ε τ → Prop} {p : ExceptT ε (Prog S) ρ}
    {f : ρ → ExceptT ε (Prog S) τ}
    (hp : Yields (fun r : Except ε ρ => ∀ e, r = .error e → Q (.error e)) p)
    (hf : ∀ x, Yields Q (f x)) : Yields Q (p >>= f : ExceptT ε (Prog S) τ) := by
  refine Yields.bind (ρ := Except ε ρ) (τ := Except ε τ) (p := p) hp fun r hr => ?_
  cases r with
  | ok x => exact hf x
  | error e => exact hr e rfl

/-- A sequence gets past its first part when that part does not fail. -/
lemma eval_steps_bind {handle : (o : S.Op) → σ → S.Answer o × σ} {p : ExceptT ε (Prog S) ρ}
    {f : ρ → ExceptT ε (Prog S) τ} {s : σ} {x : ρ}
    (hx : (eval (ρ := Except ε ρ) handle p s).2.1 = .ok x) :
    Steps (following handle) (p >>= f : ExceptT ε (Prog S) τ) s
      (eval (ρ := Except ε ρ) handle p s).1 (f x) (eval (ρ := Except ε ρ) handle p s).2.2 := by
  revert hx
  refine Prog.rec (motive := fun p => ∀ s, (eval (ρ := Except ε ρ) handle p s).2.1 = .ok x →
    Steps (ρ := Except ε τ) (following handle) (Prog.bind p (ExceptT.bindCont f)) s
      (eval (ρ := Except ε ρ) handle p s).1 (f x) (eval (ρ := Except ε ρ) handle p s).2.2)
    ?_ ?_ (show Prog S (Except ε ρ) from p) s
  · intro r s hr
    obtain rfl : r = .ok x := hr
    exact .stop
  · intro o next ih s hr
    exact .act rfl (ih _ _ hr)

lemma runs_op {o : S.Op} {f : S.Answer o → ExceptT ε (Prog S) τ} {s s' : σ} {tr : List (Event S)}
    {r : Except ε τ}
    (h : Runs (ρ := Except ε τ) sem (op o >>= f : ExceptT ε (Prog S) τ) s tr r s') :
    ∃ a s₁ tr', sem o s a s₁ ∧ Runs (ρ := Except ε τ) sem (f a) s₁ tr' r s' ∧
      tr = ⟨o, a⟩ :: tr' :=
  runs_act h

lemma steps_op {o : S.Op} {f : S.Answer o → ExceptT ε (Prog S) τ} {s s' : σ} {tr : List (Event S)}
    {q : Prog S (Except ε τ)}
    (h : Steps (ρ := Except ε τ) sem (op o >>= f : ExceptT ε (Prog S) τ) s tr q s') :
    (tr = [] ∧ q = .act o f) ∨ ∃ a s₁ tr', sem o s a s₁ ∧
      Steps (ρ := Except ε τ) sem (f a) s₁ tr' q s' ∧ tr = ⟨o, a⟩ :: tr' := by
  cases (show Steps (ρ := Except ε τ) sem (.act o f) s tr q s' from h) with
  | stop => exact Or.inl ⟨rfl, rfl⟩
  | act first rest => exact Or.inr ⟨_, _, _, first, rest, rfl⟩

/-- A run of a sequence ends with the first part's error or goes on with its result. -/
lemma runs_exceptBind {p : ExceptT ε (Prog S) ρ} {f : ρ → ExceptT ε (Prog S) τ} {s s' : σ}
    {tr : List (Event S)} {r : Except ε τ}
    (h : Runs (ρ := Except ε τ) sem (p >>= f : ExceptT ε (Prog S) τ) s tr r s') :
    (∃ e, r = .error e ∧ Runs (ρ := Except ε ρ) sem p s tr (.error e) s') ∨
      ∃ x tr₁ tr₂ s₁, Runs (ρ := Except ε ρ) sem p s tr₁ (.ok x) s₁ ∧
        Runs (ρ := Except ε τ) sem (f x) s₁ tr₂ r s' ∧ tr = tr₁ ++ tr₂ := by
  obtain ⟨first, tr₁, tr₂, s₁, hp, hf, htr⟩ := runs_bind (p := p) h
  cases first with
  | error e =>
      obtain ⟨rfl, rfl, rfl⟩ := runs_ret.mp hf
      rw [List.append_nil] at htr
      subst htr
      exact Or.inl ⟨e, rfl, hp⟩
  | ok x => exact Or.inr ⟨x, tr₁, tr₂, s₁, hp, hf, htr⟩

/-- A run of a program whose error becomes a value is one of the program. -/
lemma runs_attempt {ε' : Type} {p : ExceptT ε (Prog S) ρ} {s s' : σ} {tr : List (Event S)}
    {r : Except ε' (Except ε ρ)}
    (h : Runs (ρ := Except ε' (Except ε ρ)) sem
      (ExceptT.mk (ExceptT.run p >>= fun r => pure (.ok r))) s tr r s') :
    ∃ x, r = .ok x ∧ Runs (ρ := Except ε ρ) sem p s tr x s' := by
  obtain ⟨x, tr₁, tr₂, s₁, hp, hret, htr⟩ := runs_bind h
  obtain ⟨rfl, rfl, rfl⟩ := runs_ret.mp hret
  rw [List.append_nil] at htr
  subst htr
  exact ⟨x, rfl, hp⟩

lemma Emits.op {o : S.Op} (h : P o) : Emits P (op o : ExceptT ε (Prog S) (S.Answer o)) :=
  ⟨h, fun _ => trivial⟩

lemma Emits.pure (r : ρ) : Emits P (pure r : ExceptT ε (Prog S) ρ) := trivial

lemma Emits.throw (e : ε) : Emits P (throw e : ExceptT ε (Prog S) ρ) := trivial

lemma Emits.exceptBind {p : ExceptT ε (Prog S) ρ} {f : ρ → ExceptT ε (Prog S) τ}
    (hp : Emits P p) (hf : ∀ r, Emits P (f r)) :
    Emits P (p >>= f : ExceptT ε (Prog S) τ) := by
  refine Emits.bind (p := p) hp fun r => ?_
  cases r with
  | ok r => exact hf r
  | error e => trivial

lemma Meets.exceptBind {post : Except ε τ → σ → Prop} {p : ExceptT ε (Prog S) ρ}
    {f : ρ → ExceptT ε (Prog S) τ} {s : σ}
    (h : Meets sem c (fun r s' => match r with
      | .ok r => Meets sem c post (f r) s'
      | .error e => ∀ s'', c.rely s' s'' → post (.error e) s'') p s) :
    Meets sem c post (p >>= f : ExceptT ε (Prog S) τ) s := by
  refine Meets.bind (p := p) (h.mono fun r s' hr => ?_)
  cases r with
  | ok r => exact hr
  | error e => exact hr

lemma Meets.op {post : Except ε τ → σ → Prop} {o : S.Op} {f : S.Answer o → ExceptT ε (Prog S) τ}
    {s : σ} (h : ∀ s₁, c.rely s s₁ → ∀ a s₂, sem o s₁ a s₂ →
      c.guarantee ⟨o, a⟩ s₁ s₂ ∧ Meets sem c post (f a) s₂) :
    Meets sem c post (op o >>= f : ExceptT ε (Prog S) τ) s := h

/-- Run alone, the program keeps the invariant and, if it does not fail, ends in the
postcondition. -/
def Secures (sem : Semantics S σ) (I : σ → Prop) (post : ρ → σ → Prop)
    (p : ExceptT ε (Prog S) ρ) (s : σ) : Prop :=
  Meets (ρ := Except ε ρ) sem (keeps S I) (fun r s' => I s' ∧ ∀ x, r = .ok x → post x s') p s

variable {I J : σ → Prop} {post post' : ρ → σ → Prop}

lemma Secures.bind {p : ExceptT ε (Prog S) ρ} {f : ρ → ExceptT ε (Prog S) τ}
    {post : τ → σ → Prop} {s : σ} (h : Secures sem I (fun x s' => Secures sem I post (f x) s') p s) :
    Secures sem I post (p >>= f) s := by
  refine Meets.exceptBind (h.mono fun r s' hr => ?_)
  cases r with
  | ok x => exact hr.2 x rfl
  | error e =>
      intro s'' hs''
      obtain rfl : s'' = s' := hs''
      exact ⟨hr.1, nofun⟩

lemma Secures.pure {x : ρ} {s : σ} (hI : I s) (hpost : post x s) :
    Secures sem I post (pure x : ExceptT ε (Prog S) ρ) s := by
  intro s' hs'
  obtain rfl : s' = s := hs'
  refine ⟨hI, fun y hy => ?_⟩
  cases hy
  exact hpost

lemma Secures.throw {e : ε} {s : σ} (hI : I s) :
    Secures sem I post (throw e : ExceptT ε (Prog S) ρ) s := by
  intro s' hs'
  obtain rfl : s' = s := hs'
  exact ⟨hI, nofun⟩

lemma Secures.op {o : S.Op} {s : σ} {post : S.Answer o → σ → Prop}
    (h : ∀ a s', sem o s a s' → I s' ∧ post a s') :
    Secures sem I post (op o : ExceptT ε (Prog S) (S.Answer o)) s := by
  intro s₁ hs₁ a s₂ hact
  obtain rfl : s₁ = s := hs₁
  obtain ⟨hI, hpost⟩ := h a s₂ hact
  refine ⟨hI, Secures.pure hI hpost⟩

lemma Secures.mono {p : ExceptT ε (Prog S) ρ} {s : σ} (h : Secures sem I post p s)
    (hpost : ∀ x s', I s' → post x s' → post' x s') : Secures sem I post' p s :=
  Meets.mono h fun _ s' hr => ⟨hr.1, fun x hx => hpost x s' hr.1 (hr.2 x hx)⟩

/-- What each operation preserves, beside the invariant, holds at the end. -/
lemma Emits.secures {p : ExceptT ε (Prog S) ρ} {s : σ} (hp : Emits P p)
    (hstep : ∀ o s a s', P o → I s → J s → sem o s a s' → I s' ∧ J s') (hI : I s) (hJ : J s) :
    Secures sem I (fun _ => J) p s := by
  have hboth : Meets (ρ := Except ε ρ) sem (keeps S fun s => I s ∧ J s) (fun _ s' => I s' ∧ J s')
      p s := Emits.meets hp (fun o s a s' ho hs hact => hstep o s a s' ho hs.1 hs.2 hact) ⟨hI, hJ⟩
  exact (hboth.weaken fun s' hs' => hs'.1).mono fun r s' hr => ⟨hr.1, fun _ _ => hr.2⟩

/-- The program's error becomes a value. -/
lemma attempt_secures {ε' : Type} {p : ExceptT ε (Prog S) ρ} {s : σ} (h : Secures sem I post p s) :
    Secures (ε := ε') sem I (fun r s' => ∀ x, r = .ok x → post x s')
      (ExceptT.mk (ExceptT.run p >>= fun r => pure (.ok r))) s := by
  refine Meets.bind (p := p) (Meets.mono h fun r s' hr => ?_)
  exact Secures.pure hr.1 hr.2

lemma Secures.invariant {p : ExceptT ε (Prog S) ρ} {p' : Prog S (Except ε ρ)} {s s' : σ}
    {tr : List (Event S)} (h : Secures sem I post p s) (run : Steps sem p s tr p' s')
    (hI : I s) : I s' :=
  run.invariant h hI

lemma Secures.result {p : ExceptT ε (Prog S) ρ} {x : ρ} {s s' : σ} {tr : List (Event S)}
    (h : Secures sem I post p s) (run : Runs sem p s tr (.ok x) s') : post x s' :=
  (run.post h).2 x rfl

/-- Run alone to a result that is no error, the program ends in the postcondition. -/
def Achieves (sem : Semantics S σ) (post : ρ → σ → Prop) (p : ExceptT ε (Prog S) ρ) (s : σ) :
    Prop :=
  ∀ tr x s', Runs (ρ := Except ε ρ) sem p s tr (.ok x) s' → post x s'

lemma Secures.achieves {p : ExceptT ε (Prog S) ρ} {s : σ} (h : Secures sem I post p s) :
    Achieves sem post p s := fun _ _ _ run => h.result run

lemma Achieves.bind {p : ExceptT ε (Prog S) ρ} {f : ρ → ExceptT ε (Prog S) τ}
    {post : τ → σ → Prop} {s : σ} (h : Achieves sem (fun x s' => Achieves sem post (f x) s') p s) :
    Achieves sem post (p >>= f) s := by
  intro tr x s' run
  obtain ⟨r, tr₁, tr₂, s₁, hp, hf, _⟩ := runs_bind (p := p) run
  cases r with
  | ok y => exact h tr₁ y s₁ hp tr₂ x s' hf
  | error e => exact absurd (runs_ret.mp hf).2.1 nofun

lemma Achieves.pure {x : ρ} {s : σ} (h : post x s) :
    Achieves sem post (pure x : ExceptT ε (Prog S) ρ) s := by
  intro tr y s' run
  obtain ⟨_, hy, rfl⟩ := runs_ret.mp run
  cases hy
  exact h

lemma Achieves.throw {e : ε} {s : σ} :
    Achieves sem post (throw e : ExceptT ε (Prog S) ρ) s :=
  fun _ _ _ run => absurd (runs_ret.mp run).2.1 nofun

lemma Achieves.mono {p : ExceptT ε (Prog S) ρ} {s : σ} (h : Achieves sem post p s)
    (hpost : ∀ x s', post x s' → post' x s') : Achieves sem post' p s :=
  fun tr x s' run => hpost x s' (h tr x s' run)

lemma Emits.achieves {p : ExceptT ε (Prog S) ρ} {s : σ} (hp : Emits P p)
    (hstep : ∀ o s a s', P o → I s → sem o s a s' → I s') (hI : I s) :
    Achieves sem (fun _ => I) p s := by
  have hmeets : Meets (ρ := Except ε ρ) sem (keeps S I) (fun _ => I) p s :=
    Emits.meets hp hstep hI
  exact fun _ _ _ run => run.post hmeets

/-- Beside programs that keep to the rely relation, the program keeps its guarantee and, if it does
not fail, ends in the postcondition. -/
def Ensures (sem : Semantics S σ) (c : Contract S σ) (post : ρ → σ → Prop)
    (p : ExceptT ε (Prog S) ρ) (s : σ) : Prop :=
  Meets (ρ := Except ε ρ) sem c (fun r s' => ∀ x, r = .ok x → post x s') p s

lemma Ensures.bind {p : ExceptT ε (Prog S) ρ} {f : ρ → ExceptT ε (Prog S) τ}
    {post : τ → σ → Prop} {s : σ} (h : Ensures sem c (fun x s' => Ensures sem c post (f x) s') p s) :
    Ensures sem c post (p >>= f) s := by
  apply Meets.exceptBind
  refine Meets.mono h fun r s' hr => ?_
  cases r with
  | ok x => exact hr x rfl
  | error e => exact fun _ _ => nofun

lemma Ensures.pure {x : ρ} {s : σ} (h : ∀ s', c.rely s s' → post x s') :
    Ensures sem c post (pure x : ExceptT ε (Prog S) ρ) s := by
  intro s' hs y hy
  cases hy
  exact h s' hs

lemma Ensures.throw {e : ε} {s : σ} : Ensures sem c post (throw e : ExceptT ε (Prog S) ρ) s :=
  fun _ _ _ he => by cases he

lemma Ensures.op {o : S.Op} {s : σ} {post : S.Answer o → σ → Prop}
    (h : ∀ s₁, c.rely s s₁ → ∀ a s₂, sem o s₁ a s₂ →
      c.guarantee ⟨o, a⟩ s₁ s₂ ∧ ∀ s₃, c.rely s₂ s₃ → post a s₃) :
    Ensures sem c post (op o : ExceptT ε (Prog S) (S.Answer o)) s := by
  intro s₁ hs a s₂ hact
  obtain ⟨hguar, hpost⟩ := h s₁ hs a s₂ hact
  exact ⟨hguar, Ensures.pure hpost⟩

lemma Ensures.mono {p : ExceptT ε (Prog S) ρ} {s : σ} (h : Ensures sem c post p s)
    (hpost : ∀ x s', post x s' → post' x s') : Ensures sem c post' p s :=
  Meets.mono h fun _ s' hr x hx => hpost x s' (hr x hx)

/-- Run alone to the end, the program ends in the postcondition or, with an error, in the other
one. -/
def Finishes (sem : Semantics S σ) (post : ρ → σ → Prop) (fails : ε → σ → Prop)
    (p : ExceptT ε (Prog S) ρ) (s : σ) : Prop :=
  ∀ tr r s', Runs (ρ := Except ε ρ) sem p s tr r s' →
    (∀ x, r = .ok x → post x s') ∧ ∀ e, r = .error e → fails e s'

variable {fails fails' : ε → σ → Prop}

lemma Finishes.bind {p : ExceptT ε (Prog S) ρ} {f : ρ → ExceptT ε (Prog S) τ} {post : τ → σ → Prop}
    {s : σ} (h : Finishes sem (fun x s' => Finishes sem post fails (f x) s') fails p s) :
    Finishes sem post fails (p >>= f) s := by
  intro tr r s' run
  obtain ⟨r₁, tr₁, tr₂, s₁, hp, hf, _⟩ := runs_bind (p := p) run
  obtain ⟨hok, herror⟩ := h tr₁ r₁ s₁ hp
  cases r₁ with
  | ok x => exact hok x rfl tr₂ r s' hf
  | error e =>
      obtain ⟨_, hr, rfl⟩ := runs_ret.mp hf
      refine ⟨fun x hx => ?_, fun e' he' => ?_⟩
      · rw [← hr] at hx
        cases hx
      · rw [← hr] at he'
        cases he'
        exact herror e rfl

lemma Finishes.pure {x : ρ} {s : σ} (h : post x s) :
    Finishes sem post fails (pure x : ExceptT ε (Prog S) ρ) s := by
  intro tr r s' run
  obtain ⟨_, rfl, rfl⟩ := runs_ret.mp run
  refine ⟨fun y hy => ?_, nofun⟩
  cases hy
  exact h

lemma Finishes.throw {e : ε} {s : σ} (h : fails e s) :
    Finishes sem post fails (throw e : ExceptT ε (Prog S) ρ) s := by
  intro tr r s' run
  obtain ⟨_, rfl, rfl⟩ := runs_ret.mp run
  refine ⟨nofun, fun e' he' => ?_⟩
  cases he'
  exact h

lemma Finishes.op {o : S.Op} {s : σ} {post : S.Answer o → σ → Prop}
    (h : ∀ a s', sem o s a s' → post a s') :
    Finishes sem post fails (op o : ExceptT ε (Prog S) (S.Answer o)) s := by
  intro tr r s' run
  cases run with
  | act first rest =>
      obtain ⟨_, rfl, rfl⟩ := runs_ret.mp rest
      refine ⟨fun x hx => ?_, nofun⟩
      cases hx
      exact h _ _ first

lemma Finishes.mono {p : ExceptT ε (Prog S) ρ} {s : σ} (h : Finishes sem post fails p s)
    (hpost : ∀ x s', post x s' → post' x s') (hfails : ∀ e s', fails e s' → fails' e s') :
    Finishes sem post' fails' p s := by
  intro tr r s' run
  obtain ⟨hok, herror⟩ := h tr r s' run
  exact ⟨fun x hx => hpost x s' (hok x hx), fun e he => hfails e s' (herror e he)⟩

lemma Finishes.any {p : ExceptT ε (Prog S) ρ} {s : σ} :
    Finishes sem (fun _ _ => True) (fun _ _ => True) p s :=
  fun _ _ _ _ => ⟨fun _ _ => trivial, fun _ _ => trivial⟩

end Errors

section Noting

variable {sem : Semantics S σ}

/-- Each operation, with a note of the last one. -/
def noting (sem : Semantics S σ) : Semantics S (σ × Option (Event S)) :=
  fun o s a s' => sem o s.1 a s'.1 ∧ s'.2 = some ⟨o, a⟩

lemma Steps.noting {p p' : Prog S ρ} {s s' : σ} {tr : List (Event S)}
    (h : Steps sem p s tr p' s') (last : Option (Event S)) :
    Steps (noting sem) p (s, last) tr p' (s', tr.getLast?.or last) := by
  induction h generalizing last with
  | stop => exact .stop
  | @act o next s a s₁ tr p s₂ first _ ih =>
      have hrest := ih (some ⟨o, a⟩)
      have hlast : tr.getLast?.or (some ⟨o, a⟩) = (⟨o, a⟩ :: tr).getLast?.or last := by
        rw [List.getLast?_cons]
        cases tr.getLast? <;> rfl
      rw [hlast] at hrest
      exact .act ⟨first, rfl⟩ hrest

end Noting

section Interleaving

variable [DecidableEq ι]

/-- Operations of several programs in any order, one at a time. -/
inductive Interleaved (sem : ι → Semantics S σ) :
    (ι → Prog S ρ) → σ → List (ι × Event S) → (ι → Prog S ρ) → σ → Prop
  | stop {procs s} : Interleaved sem procs s [] procs s
  | act {procs : ι → Prog S ρ} {s i o next a s₁ tr procs' s₂} (turn : procs i = .act o next)
      (first : sem i o s a s₁)
      (rest : Interleaved sem (Function.update procs i (next a)) s₁ tr procs' s₂) :
      Interleaved sem procs s ((i, ⟨o, a⟩) :: tr) procs' s₂

/-- The operations in the order of the turns; a program that has ended passes its turn. -/
def schedule (handle : ι → (o : S.Op) → σ → S.Answer o × σ) :
    List ι → (ι → Prog S ρ) → σ → List (ι × Event S) × (ι → Prog S ρ) × σ
  | [], procs, s => ([], procs, s)
  | i :: turns, procs, s =>
      match procs i with
      | .ret _ => schedule handle turns procs s
      | .act o next =>
          let step := handle i o s
          let rest := schedule handle turns (Function.update procs i (next step.1)) step.2
          ((i, ⟨o, step.1⟩) :: rest.1, rest.2)

variable {sem : ι → Semantics S σ} {c : ι → Contract S σ} {Q : ι → ρ → σ → Prop}

lemma schedule_interleaved {handle : ι → (o : S.Op) → σ → S.Answer o × σ}
    (h : ∀ i o s, sem i o s (handle i o s).1 (handle i o s).2) (turns : List ι)
    (procs : ι → Prog S ρ) (s : σ) :
    Interleaved sem procs s (schedule handle turns procs s).1
      (schedule handle turns procs s).2.1 (schedule handle turns procs s).2.2 := by
  induction turns generalizing procs s with
  | nil => exact .stop
  | cons i turns ih =>
      unfold schedule
      cases hi : procs i with
      | ret r => exact ih procs s
      | act o next => exact .act hi (h i o s) (ih _ _)

lemma Interleaved.trans {procs procs' procs'' : ι → Prog S ρ} {s s' s'' : σ}
    {tr tr' : List (ι × Event S)} (h : Interleaved sem procs s tr procs' s')
    (h' : Interleaved sem procs' s' tr' procs'' s'') :
    Interleaved sem procs s (tr ++ tr') procs'' s'' := by
  induction h with
  | stop => exact h'
  | act turn first _ ih => exact .act turn first (ih h')

/-- One program may take all its turns in a row. -/
lemma Steps.interleaved {p p' : Prog S ρ} {i : ι} {s s' : σ} {tr : List (Event S)}
    (h : Steps (sem i) p s tr p' s') {procs : ι → Prog S ρ} (hi : procs i = p) :
    Interleaved sem procs s (tr.map (i, ·)) (Function.update procs i p') s' := by
  induction h generalizing procs with
  | stop =>
      rw [← hi, Function.update_eq_self]
      exact .stop
  | act first _ ih =>
      have hrest := ih (Function.update_self i _ procs)
      rw [Function.update_idem] at hrest
      exact .act hi first hrest

/-- Where an invariant of all programs' operations implies the guard, the guard excludes nothing. -/
lemma Interleaved.guarded {guard : S.Op → σ → Prop} {I : σ → Prop} (hguard : ∀ o s, I s → guard o s)
    (hstep : ∀ i o s a s', I s → sem i o s a s' → I s') {procs procs' : ι → Prog S ρ} {s s' : σ}
    {tr : List (ι × Event S)} (run : Interleaved sem procs s tr procs' s') (hI : I s) :
    Interleaved (fun i => guarded guard (sem i)) procs s tr procs' s' := by
  induction run with
  | stop => exact .stop
  | act turn first _ ih => exact .act turn ⟨hguard _ _ hI, first⟩ (ih (hstep _ _ _ _ _ hI first))

/-- Programs whose guarantees fit each other's rely relations keep all their contracts. -/
theorem Interleaved.meets {procs procs' : ι → Prog S ρ} {s s' : σ}
    {tr : List (ι × Event S)} (run : Interleaved sem procs s tr procs' s')
    (hfit : ∀ i j, i ≠ j → ∀ e s₁ s₂, (c i).guarantee e s₁ s₂ → (c j).rely s₁ s₂)
    (h : ∀ i, Meets (sem i) (c i) (Q i) (procs i) s) :
    ∀ i, Meets (sem i) (c i) (Q i) (procs' i) s' := by
  induction run with
  | stop => exact h
  | @act procs s i o next a s₁ tr procs' s₂ turn first _ ih =>
      have hi := h i
      rw [turn] at hi
      obtain ⟨hguar, hnext⟩ := hi s ((c i).rely_refl s) a s₁ first
      refine ih fun j => ?_
      rcases eq_or_ne j i with rfl | hne
      · rwa [Function.update_self]
      · rw [Function.update_of_ne hne]
        exact (h j).stable (hfit i j hne.symm _ _ _ hguar)

theorem Interleaved.post {procs procs' : ι → Prog S ρ} {s s' : σ}
    {tr : List (ι × Event S)} (run : Interleaved sem procs s tr procs' s')
    (hfit : ∀ i j, i ≠ j → ∀ e s₁ s₂, (c i).guarantee e s₁ s₂ → (c j).rely s₁ s₂)
    (h : ∀ i, Meets (sem i) (c i) (Q i) (procs i) s) {i : ι} {r : ρ}
    (hi : procs' i = .ret r) : Q i r s' := by
  have hmeets := run.meets hfit h i
  rw [hi] at hmeets
  exact hmeets s' ((c i).rely_refl s')

end Interleaving

end Loker.Programs
