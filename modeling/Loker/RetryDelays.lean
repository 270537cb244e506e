import Loker.StepWorkflow

/-! The delays before another attempt: of a step, in both of its loops, and of a backend. -/

namespace Loker.RetryDelays

open StepWorkflow

section Model

/-- A result of the machine's arithmetic, when it is in range. -/
def checked (bound n : ℕ) : Option ℕ := if n < bound then some n else none

/-- Doubled before every attempt but the first. -/
def exponentialDelay (retryDelay attempt : ℕ) : Option ℕ := do
  let power ← checked (2 ^ 64) (2 ^ (attempt - 1))
  checked (2 ^ 64) (retryDelay * power)

/-- In the loop of a shell step. -/
def shellRetryDelay (step : Step) (attempt : ℕ) : Option ℕ :=
  exponentialDelay step.retryDelay attempt

/-- In the loop of a backend's query. -/
def queryRetryDelay (step : Step) (attempt : ℕ) : Option ℕ :=
  exponentialDelay step.retryDelay attempt

/-- Durations count nanoseconds; their seconds have 64 bits. -/
def durationBound : ℕ := 2 ^ 64 * 10 ^ 9

def fromMillis (millis : ℕ) : ℕ := millis * 10 ^ 6

def fromSecs (secs : ℕ) : ℕ := secs * 10 ^ 9

structure RetryPolicy where
  maxRetries : ℕ
  baseDelay : ℕ
  maxDelay : ℕ
  deriving DecidableEq, Repr

/-- What the configuration of a backend may set. -/
structure BackendConfig where
  maxRetries : Option ℕ := none
  retryDelayMs : Option ℕ := none
  deriving DecidableEq, Repr

structure Defaults where
  maxRetries : ℕ := 0
  retryDelayMs : ℕ := 1000
  deriving DecidableEq, Repr

def getRetryPolicy (config : BackendConfig) (defaults : Defaults) : RetryPolicy where
  maxRetries := config.maxRetries.getD defaults.maxRetries
  baseDelay := fromMillis (config.retryDelayMs.getD defaults.retryDelayMs)
  maxDelay := fromSecs 30

-- `checks` tells whether the build checks its arithmetic. `jitter` spreads the delay before an
-- attempt by a random factor, and has no value where that is no duration any more.
variable (checks : Bool) (jitter : ℕ → ℕ → Option ℕ)

/-- The power of two in 32 bits, for an attempt that is cut to 32 bits; where it does not fit
it is zero in a build without checks. -/
def exponential (attempt : ℕ) : Option ℕ :=
  let cut := attempt % 2 ^ 32
  if 0 < cut ∧ cut ≤ 32 then some (2 ^ (cut - 1)) else if checks then none else some 0

def getDelay (policy : RetryPolicy) (attempt : ℕ) : Option ℕ :=
  if attempt = 0 then some 0
  else do
    let exp ← exponential checks attempt
    let delay ← checked durationBound (policy.baseDelay * exp)
    let jittered ← jitter attempt delay
    some (min jittered policy.maxDelay)

/-- The delay with its arithmetic checked and the jitter left out. -/
def checkedDelay (policy : RetryPolicy) (attempt : ℕ) : Option ℕ :=
  getDelay true (fun _ delay => some delay) policy attempt

end Model

section Bounds

variable {bound n m attempt retries : ℕ}

lemma checked_eq_some : checked bound n = some m ↔ n < bound ∧ n = m := by
  unfold checked
  split
  · next hlt => simp [hlt]
  · next hge => simp [hge]

lemma checked_of_lt (h : n < bound) : checked bound n = some n := checked_eq_some.mpr ⟨h, rfl⟩

lemma pow_le_pow_attempt (h : attempt ≤ retries) : 2 ^ (attempt - 1) ≤ 2 ^ (retries - 1) :=
  Nat.pow_le_pow_right Nat.two_pos (Nat.sub_le_sub_right h 1)

/-- A power of two fits exactly when its exponent is below the width. -/
lemma two_pow_lt_iff {width : ℕ} : 2 ^ n < 2 ^ width ↔ n < width :=
  Nat.pow_lt_pow_iff_right (by decide)

/-- The delays up to a number of attempts fit: the last one does, and its power. -/
def DelaysFit (width bound base retries : ℕ) : Prop :=
  retries = 0 ∨ (retries ≤ width ∧ base * 2 ^ (retries - 1) < bound)

instance (width bound base retries : ℕ) : Decidable (DelaysFit width bound base retries) :=
  inferInstanceAs (Decidable (retries = 0 ∨ (retries ≤ width ∧ base * 2 ^ (retries - 1) < bound)))

/-- The delays grow, so that the last one decides. -/
lemma delaysFit_iff {width base : ℕ} : DelaysFit width bound base retries ↔
    ∀ attempt, 0 < attempt → attempt ≤ retries →
      attempt ≤ width ∧ base * 2 ^ (attempt - 1) < bound := by
  constructor
  · rintro (hnone | ⟨hwidth, hlast⟩) attempt hpos hle
    · omega
    · have hgrows := Nat.mul_le_mul_left base (pow_le_pow_attempt hle)
      exact ⟨hle.trans hwidth, hgrows.trans_lt hlast⟩
  · intro h
    rcases Nat.eq_zero_or_pos retries with hnone | hpos
    · exact Or.inl hnone
    · exact Or.inr (h retries hpos (Nat.le_refl retries))

lemma exponentialDelay_eq_some {retryDelay : ℕ} (hpos : 0 < attempt) :
    exponentialDelay retryDelay attempt = some (retryDelay * 2 ^ (attempt - 1)) ↔
      attempt ≤ 64 ∧ retryDelay * 2 ^ (attempt - 1) < 2 ^ 64 := by
  unfold exponentialDelay
  by_cases hwidth : attempt ≤ 64
  · have hpower : 2 ^ (attempt - 1) < 2 ^ 64 := two_pow_lt_iff.mpr (by omega)
    rw [checked_of_lt hpower, Option.bind_eq_bind, Option.bind_some, checked_eq_some]
    simp [hwidth]
  · have hpower : ¬ 2 ^ (attempt - 1) < 2 ^ 64 := fun h => by
      have hlt := two_pow_lt_iff.mp h
      omega
    rw [checked, if_neg hpower]
    simp [hwidth]

lemma checkedDelay_eq_some {policy : RetryPolicy} (hpos : 0 < attempt) (hsmall : attempt < 2 ^ 32) :
    checkedDelay policy attempt =
        some (min (policy.baseDelay * 2 ^ (attempt - 1)) policy.maxDelay) ↔
      attempt ≤ 32 ∧ policy.baseDelay * 2 ^ (attempt - 1) < durationBound := by
  have hsame : attempt % 2 ^ 32 = attempt := Nat.mod_eq_of_lt hsmall
  unfold checkedDelay getDelay exponential
  rw [if_neg (Nat.ne_of_gt hpos), hsame]
  by_cases hwidth : attempt ≤ 32
  · rw [if_pos ⟨hpos, hwidth⟩, Option.bind_eq_bind, Option.bind_some]
    by_cases hfits : policy.baseDelay * 2 ^ (attempt - 1) < durationBound
    · rw [checked_of_lt hfits]
      simp [hwidth, hfits]
    · rw [checked, if_neg hfits]
      simp [hfits]
  · rw [if_neg fun h => hwidth h.2]
    simp [hwidth]

end Bounds

section Delays

/-- Every delay in either loop is computed exactly. -/
def StepDelaysExact (step : Step) : Prop :=
  ∀ attempt, 0 < attempt → attempt ≤ step.retries →
    shellRetryDelay step attempt = some (step.retryDelay * 2 ^ (attempt - 1)) ∧
      queryRetryDelay step attempt = some (step.retryDelay * 2 ^ (attempt - 1))

/-- Every delay is computed exactly, and cut to the policy's maximum. -/
def PolicyDelaysExact (policy : RetryPolicy) : Prop :=
  ∀ attempt, attempt ≤ policy.maxRetries → ∃ delay, checkedDelay policy attempt = some delay ∧
    delay ≤ policy.maxDelay ∧
      (0 < attempt → delay = min (policy.baseDelay * 2 ^ (attempt - 1)) policy.maxDelay)

lemma stepDelaysExact_iff (step : Step) :
    StepDelaysExact step ↔ DelaysFit 64 (2 ^ 64) step.retryDelay step.retries := by
  rw [delaysFit_iff]
  apply forall_congr'
  intro attempt
  apply imp_congr_right
  intro hpos
  apply imp_congr_right
  intro _
  rw [shellRetryDelay, queryRetryDelay, and_self, exponentialDelay_eq_some hpos]

lemma policyDelaysExact_iff (policy : RetryPolicy) :
    PolicyDelaysExact policy ↔ DelaysFit 32 durationBound policy.baseDelay policy.maxRetries := by
  constructor
  · intro h
    have hwidth : policy.maxRetries ≤ 32 := by
      by_contra hmany
      obtain ⟨delay, hdelay, _, hexact⟩ := h 33 (by omega)
      rw [hexact (by decide), checkedDelay_eq_some (by decide) (by decide)] at hdelay
      omega
    rw [delaysFit_iff]
    intro attempt hpos hle
    obtain ⟨delay, hdelay, _, hexact⟩ := h attempt hle
    rw [hexact hpos] at hdelay
    exact (checkedDelay_eq_some hpos (by omega)).mp hdelay
  · intro h attempt hle
    rcases Nat.eq_zero_or_pos attempt with rfl | hpos
    · exact ⟨0, rfl, Nat.zero_le _, fun hpos => (Nat.lt_irrefl 0 hpos).elim⟩
    · obtain ⟨hwidth, hfits⟩ := delaysFit_iff.mp h attempt hpos hle
      exact ⟨_, (checkedDelay_eq_some hpos (by omega)).mpr ⟨hwidth, hfits⟩, Nat.min_le_right _ _,
        fun _ => rfl⟩

/-- Neither the validation nor the configuration bounds the attempts: the delays are computed
exactly as long as the last of them fits. -/
theorem retry_delays_iff (wf : Workflow) (config : BackendConfig) (defaults : Defaults) :
    ((∀ step ∈ wf.steps, StepDelaysExact step) ↔
      ∀ step ∈ wf.steps, DelaysFit 64 (2 ^ 64) step.retryDelay step.retries) ∧
    (PolicyDelaysExact (getRetryPolicy config defaults) ↔
      DelaysFit 32 durationBound (getRetryPolicy config defaults).baseDelay
        (getRetryPolicy config defaults).maxRetries) := by
  refine ⟨?_, policyDelaysExact_iff _⟩
  apply forall_congr'
  intro step
  apply imp_congr_right
  intro _
  exact stepDelaysExact_iff step

/-- A step that retries often, and one that waits long. -/
def patient : Workflow where
  name := "patient"
  steps := [{ name := "build", retries := 65, retryDelay := 0 },
    { name := "test", retries := 3, retryDelay := 2 ^ 62 }]

/-- The workflow is accepted, and the power, the product and the duration are out of range. -/
theorem retry_delays_overflow :
    validate patient = .ok () ∧
      patient.steps.map (fun step => (shellRetryDelay step step.retries, step.retries)) =
        [(none, 65), (none, 3)] ∧
      ¬ (∀ step ∈ patient.steps, StepDelaysExact step) ∧
      checkedDelay (getRetryPolicy { maxRetries := some 33 } {}) 33 = none ∧
      checkedDelay (getRetryPolicy { maxRetries := some 32, retryDelayMs := some (2 ^ 62) } {}) 32 =
        none ∧
      ¬ PolicyDelaysExact (getRetryPolicy { maxRetries := some 33 } {}) := by
  refine ⟨rfl, by decide, fun h => ?_, by decide, by decide, fun h => ?_⟩
  · have hfits := (stepDelaysExact_iff _).mp (h _ List.mem_cons_self)
    exact absurd hfits (by decide)
  · exact absurd ((policyDelaysExact_iff _).mp h) (by decide)

end Delays

end Loker.RetryDelays
