import Mathlib

/-! Undo logs: a list of writes with the values they replaced, undone from the last to the
first. -/

namespace Loker.UndoLog

variable {K V : Type} [DecidableEq K]

structure Backup (K V : Type) where
  key : K
  original : Option V
  new : V

/-- The log's writes lead from the first map to the second, and each entry holds the value its
write replaced. -/
inductive Recorded : (K → Option V) → List (Backup K V) → (K → Option V) → Prop
  | nil {f} : Recorded f [] f
  | snoc {f log g} {b : Backup K V} (before : Recorded f log g) (saved : b.original = g b.key) :
      Recorded f (log ++ [b]) (Function.update g b.key (some b.new))

def undoOne (g : K → Option V) (b : Backup K V) : K → Option V :=
  Function.update g b.key b.original

def undoAll (log : List (Backup K V)) (g : K → Option V) : K → Option V :=
  log.reverse.foldl undoOne g

@[simp] lemma undoAll_nil (g : K → Option V) : undoAll [] g = g := rfl

@[simp] lemma undoAll_concat (log : List (Backup K V)) (b : Backup K V) (g : K → Option V) :
    undoAll (log ++ [b]) g = undoAll log (undoOne g b) := by
  simp [undoAll]

lemma undoOne_update {g : K → Option V} {b : Backup K V} (h : b.original = g b.key) :
    undoOne (Function.update g b.key (some b.new)) b = g := by
  rw [undoOne, Function.update_idem, h, Function.update_eq_self]

/-- Undoing a recorded log gives back the map it started from. -/
theorem Recorded.undoAll_eq {f g : K → Option V} {log : List (Backup K V)}
    (h : Recorded f log g) : undoAll log g = f := by
  induction h with
  | nil => rfl
  | snoc _ saved ih => rw [undoAll_concat, undoOne_update saved, ih]

/-- What differs from the first map has been written. -/
lemma Recorded.exists_write {f g : K → Option V} {log : List (Backup K V)} {k : K}
    (h : Recorded f log g) (hne : g k ≠ f k) : ∃ b ∈ log, b.key = k := by
  induction h with
  | nil => exact absurd rfl hne
  | @snoc log g b _ _ ih =>
      rcases eq_or_ne k b.key with rfl | hkey
      · exact ⟨b, by simp, rfl⟩
      · rw [Function.update_of_ne hkey] at hne
        obtain ⟨b', hb', hk⟩ := ih hne
        exact ⟨b', List.mem_append_left _ hb', hk⟩

/-- The written value stands until the entry is undone. -/
lemma Recorded.last {f g : K → Option V} {log : List (Backup K V)} {b : Backup K V}
    (h : Recorded f (log ++ [b]) g) :
    ∃ g', Recorded f log g' ∧ b.original = g' b.key ∧
      g = Function.update g' b.key (some b.new) := by
  generalize hl : log ++ [b] = l at h
  cases h with
  | nil => simp at hl
  | @snoc log' g' b' before saved =>
      obtain ⟨rfl, hb⟩ := List.append_inj' hl rfl
      obtain rfl : b = b' := by simpa using hb
      exact ⟨g', before, saved, rfl⟩

end Loker.UndoLog
