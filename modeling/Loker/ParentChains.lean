import Mathlib

/-! Chains of parents. Each item is read and may name the item that it builds on; the chain is
built from its last item back to the first, over no more than a given number of items. -/

namespace Loker.ParentChains

variable {α β γ ε : Type}

section Chains

variable (next : α → Except ε (β × Option α))

/-- What is read from an item on, up to one without a parent. -/
inductive Chain : α → List β → Prop where
  | root {a : α} {b : β} (read : next a = .ok (b, none)) : Chain a [b]
  | child {a a' : α} {b : β} {bs : List β} (read : next a = .ok (b, some a'))
      (parents : Chain a' bs) : Chain a (b :: bs)

def Follows (a a' : α) : Prop := ∃ b, next a = .ok (b, some a')

/-- From the item on there are this many parents. -/
def Ascends : ℕ → α → Prop
  | 0, _ => True
  | n + 1, a => ∃ a', Follows next a a' ∧ Ascends n a'

variable {next} {a a' c : α} {bs bs' : List β}

lemma Chain.unique (h : Chain next a bs) (h' : Chain next a bs') : bs = bs' := by
  induction h generalizing bs' with
  | root read =>
    cases h' with
    | root read' => simp_all
    | child read' _ => simp_all
  | child read _ ih =>
    cases h' with
    | root read' => simp_all
    | child read' parents' =>
      rw [read] at read'
      simp only [Except.ok.injEq, Prod.mk.injEq, Option.some.injEq] at read'
      obtain ⟨rfl, rfl⟩ := read'
      rw [ih parents']

/-- Where every item of a set has a parent in the set, there is no end to the parents. -/
lemma ascends_of_closed {P : α → Prop} (hclosed : ∀ x, P x → ∃ y, Follows next x y ∧ P y)
    (n : ℕ) (ha : P a) : Ascends next n a := by
  induction n generalizing a with
  | zero => trivial
  | succ n ih =>
    obtain ⟨y, hfollows, hy⟩ := hclosed a ha
    exact ⟨y, hfollows, ih hy⟩

lemma ascends_of_cycle (hreach : Relation.ReflTransGen (Follows next) a c)
    (hcycle : Relation.TransGen (Follows next) c c) (n : ℕ) : Ascends next n a := by
  have hclosed : ∀ x, Relation.TransGen (Follows next) x c →
      ∃ y, Follows next x y ∧ Relation.TransGen (Follows next) y c := by
    intro x hx
    obtain ⟨y, hxy, hyc⟩ := Relation.TransGen.head'_iff.mp hx
    exact ⟨y, hxy, Relation.TransGen.trans_right hyc hcycle⟩
  exact ascends_of_closed hclosed n (Relation.TransGen.trans_right hreach hcycle)

end Chains

section Building

variable (next : α → Except ε (β × Option α)) (build : Option γ → β → Except ε γ) (tooDeep : ε)

def resolve : ℕ → α → Except ε γ
  | 0, _ => .error tooDeep
  | n + 1, a => next a >>= fun r =>
      match r.2 with
      | none => build none r.1
      | some a' => resolve n a' >>= fun g => build (some g) r.1

/-- The chain's items, built from the last one on. -/
def buildAll (b : β) : List β → Except ε γ
  | [] => build none b
  | p :: ps => buildAll p ps >>= fun g => build (some g) b

variable {next build tooDeep} {a a' : α} {b : β} {n : ℕ} {g : γ}

lemma resolve_error {e : ε} (h : next a = .error e) :
    resolve next build tooDeep (n + 1) a = .error e := by
  simp [resolve, h, bind, Except.bind]

lemma resolve_root (h : next a = .ok (b, none)) :
    resolve next build tooDeep (n + 1) a = build none b := by
  simp [resolve, h, bind, Except.bind]

lemma resolve_child (h : next a = .ok (b, some a')) :
    resolve next build tooDeep (n + 1) a =
      resolve next build tooDeep n a' >>= fun g => build (some g) b := by
  simp [resolve, h, bind, Except.bind]

lemma bind_eq_ok {x : Except ε β} {f : β → Except ε γ} :
    (x >>= f) = .ok g ↔ ∃ y, x = .ok y ∧ f y = .ok g := by
  cases x <;> simp [bind, Except.bind]

/-- An item is resolved if and only if its parents end within the bound and are built. -/
theorem resolve_ok_iff : resolve next build tooDeep n a = .ok g ↔
    ∃ b bs, Chain next a (b :: bs) ∧ bs.length < n ∧ buildAll build b bs = .ok g := by
  induction n generalizing a g with
  | zero => simp [resolve]
  | succ n ih =>
    cases hread : next a with
    | error e =>
      rw [resolve_error hread]
      constructor
      · intro h
        cases h
      · rintro ⟨b, bs, hchain, _⟩
        cases hchain <;> simp_all
    | ok r =>
      obtain ⟨b, parent⟩ := r
      cases parent with
      | none =>
        rw [resolve_root hread]
        constructor
        · intro h
          exact ⟨b, [], .root hread, by simp, h⟩
        · rintro ⟨b', bs, hchain, _, hbuild⟩
          have hsame := hchain.unique (.root hread)
          simp only [List.cons.injEq] at hsame
          obtain ⟨rfl, rfl⟩ := hsame
          exact hbuild
      | some a' =>
        rw [resolve_child hread, bind_eq_ok]
        constructor
        · rintro ⟨g', hg', hbuild⟩
          obtain ⟨p, ps, hchain, hlength, hparents⟩ := ih.mp hg'
          refine ⟨b, p :: ps, .child hread hchain, by simp; omega, ?_⟩
          rw [buildAll, bind_eq_ok]
          exact ⟨g', hparents, hbuild⟩
        · rintro ⟨b', bs, hchain, hlength, hbuild⟩
          cases hchain with
          | root read => simp_all
          | child read parents =>
            rw [hread] at read
            simp only [Except.ok.injEq, Prod.mk.injEq, Option.some.injEq] at read
            obtain ⟨rfl, rfl⟩ := read
            cases bs with
            | nil => cases parents
            | cons p ps =>
              rw [buildAll, bind_eq_ok] at hbuild
              obtain ⟨g', hparents, hbuild⟩ := hbuild
              exact ⟨g', ih.mpr ⟨p, ps, parents, by simp at hlength; omega, hparents⟩, hbuild⟩

/-- The bound is reported if and only if there are as many parents. -/
theorem resolve_tooDeep_iff (hnext : ∀ a, next a ≠ .error tooDeep)
    (hbuild : ∀ g b, build g b ≠ .error tooDeep) :
    resolve next build tooDeep n a = .error tooDeep ↔ Ascends next n a := by
  induction n generalizing a with
  | zero => simp [resolve, Ascends]
  | succ n ih =>
    rw [Ascends]
    cases hread : next a with
    | error e =>
      rw [resolve_error hread]
      constructor
      · intro h
        obtain rfl := Except.error.inj h
        exact absurd hread (hnext a)
      · rintro ⟨a', ⟨b, hb⟩, _⟩
        rw [hread] at hb
        cases hb
    | ok r =>
      obtain ⟨b, parent⟩ := r
      cases parent with
      | none =>
        rw [resolve_root hread]
        constructor
        · intro h
          exact absurd h (hbuild none b)
        · rintro ⟨a', ⟨b', hb⟩, _⟩
          rw [hread] at hb
          simp at hb
      | some a' =>
        have hparent : (∃ y, Follows next a y ∧ Ascends next n y) ↔ Ascends next n a' := by
          constructor
          · rintro ⟨y, ⟨b', hb⟩, hy⟩
            rw [hread] at hb
            simp only [Except.ok.injEq, Prod.mk.injEq, Option.some.injEq] at hb
            exact hb.2 ▸ hy
          · intro h
            exact ⟨a', ⟨b, hread⟩, h⟩
        rw [resolve_child hread, hparent, ← ih]
        cases resolve next build tooDeep n a' with
        | error e => simp [bind, Except.bind]
        | ok g => simp [bind, Except.bind, hbuild]

end Building

end Loker.ParentChains
