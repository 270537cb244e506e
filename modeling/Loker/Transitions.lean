import Mathlib

/-! Runs of a step function: the states that are reached by steps that all meet a condition. -/

namespace Loker.Transitions

variable {σ α : Type} {step : σ → α → Option σ} {meets meets' : σ → α → Prop} {s₀ s s' : σ}

/-- A run whose steps all meet the condition. -/
inductive Run (step : σ → α → Option σ) (meets : σ → α → Prop) (s₀ : σ) : σ → Prop where
  | start : Run step meets s₀ s₀
  | step {s s' : σ} {a : α} : Run step meets s₀ s → meets s a → step s a = some s' →
      Run step meets s₀ s'

/-- What holds at the start and is kept by every step that meets the condition holds in every state
that is reached. -/
lemma Run.invariant {I : σ → Prop} (hrun : Run step meets s₀ s) (hstart : I s₀)
    (hstep : ∀ s a s', I s → meets s a → step s a = some s' → I s') : I s := by
  induction hrun with
  | start => exact hstart
  | step _ hmeets hs ih => exact hstep _ _ _ ih hmeets hs

lemma Run.mono (hrun : Run step meets s₀ s) (h : ∀ s a, meets s a → meets' s a) :
    Run step meets' s₀ s := by
  induction hrun with
  | start => exact .start
  | step _ hmeets hs ih => exact ih.step (h _ _ hmeets) hs

lemma Run.trans (hrun : Run step meets s₀ s) (h : Run step meets s s') : Run step meets s₀ s' := by
  induction h with
  | start => exact hrun
  | step _ hmeets hs ih => exact ih.step hmeets hs

end Loker.Transitions
