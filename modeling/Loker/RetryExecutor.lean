import Loker.RetryDelays

/-! The decorator that queries a backend again after a transient failure. -/

namespace Loker.RetryExecutor

open RetryDelays

section Model

inductive BackendError where
  | timeout (message : String) (elapsedMs : ℕ)
  | rateLimit (message : String) (retryAfterMs : Option ℕ)
  | auth (message : String)
  | network (message : String)
  | parse (message : String)
  | executionFailed (message : String) (exitCode : Option ℤ)
  | unavailable (message : String)
  | config (message : String)
  deriving DecidableEq, Repr

def BackendError.isRetryable : BackendError → Bool
  | .timeout .. | .rateLimit .. | .network .. => true
  | _ => false

/-- The wait that a server asks for. -/
def BackendError.retryAfter : BackendError → Option ℕ
  | .rateLimit _ (some ms) => some (fromMillis ms)
  | _ => none

variable (checks : Bool) (jitter : ℕ → ℕ → Option ℕ)

/-- What is waited before an attempt: nothing before the first one. -/
def waitBefore (policy : RetryPolicy) (attempt : ℕ) (lastError : Option BackendError) :
    Option (List ℕ) :=
  if attempt = 0 then some []
  else
    match lastError.bind BackendError.retryAfter with
    | some delay => some [delay]
    | none => (getDelay checks jitter policy attempt).map ([·])

/-- No result stands for a panic. -/
structure Run (α : Type) where
  result : Option (Except BackendError α)
  calls : ℕ
  waits : List ℕ

variable {α : Type} (script : ℕ → Except BackendError α)

def exhausted : BackendError := .executionFailed "Retry loop exhausted without error" none

/-- The backend's answers are taken from the script, one for each call. -/
def queryFrom (policy : RetryPolicy) :
    List ℕ → Option BackendError → ℕ → List ℕ → Run α
  | [], lastError, calls, waits => ⟨some (.error (lastError.getD exhausted)), calls, waits⟩
  | attempt :: attempts, lastError, calls, waits =>
      match waitBefore checks jitter policy attempt lastError with
      | none => ⟨none, calls, waits⟩
      | some waited =>
          match script calls with
          | .ok output => ⟨some (.ok output), calls + 1, waits ++ waited⟩
          | .error e =>
              if e.isRetryable then
                queryFrom policy attempts (some e) (calls + 1) (waits ++ waited)
              else ⟨some (.error e), calls + 1, waits ++ waited⟩

def query (policy : RetryPolicy) : Run α :=
  queryFrom checks jitter script policy (List.range' 0 (policy.maxRetries + 1)) none 0 []

end Model

section Delays

variable {checks : Bool} {jitter : ℕ → ℕ → Option ℕ} {policy : RetryPolicy} {attempt : ℕ}

/-- The factor of the base delay, zero where it is cut off. -/
def factor (attempt : ℕ) : ℕ :=
  if 0 < attempt % 2 ^ 32 ∧ attempt % 2 ^ 32 ≤ 32 then 2 ^ (attempt % 2 ^ 32 - 1) else 0

/-- The delay before an attempt is in range: its power where that is checked, the product, and
what the jitter makes of it. -/
structure DelayFits (checks : Bool) (jitter : ℕ → ℕ → Option ℕ) (policy : RetryPolicy)
    (attempt : ℕ) : Prop where
  power : checks = true → 0 < attempt % 2 ^ 32 ∧ attempt % 2 ^ 32 ≤ 32
  product : policy.baseDelay * factor attempt < durationBound
  jittered : (jitter attempt (policy.baseDelay * factor attempt)).isSome

lemma exponential_eq (checks : Bool) (attempt : ℕ) : exponential checks attempt =
    if checks = true → 0 < attempt % 2 ^ 32 ∧ attempt % 2 ^ 32 ≤ 32 then some (factor attempt)
    else none := by
  unfold exponential factor
  by_cases hwidth : 0 < attempt % 2 ^ 32 ∧ attempt % 2 ^ 32 ≤ 32
  · rw [if_pos hwidth, if_pos hwidth, if_pos fun _ => hwidth]
  · rw [if_neg hwidth, if_neg hwidth]
    cases checks with
    | true => rw [if_pos rfl, if_neg fun h => hwidth (h rfl)]
    | false => rw [if_neg Bool.false_ne_true, if_pos fun h => absurd h Bool.false_ne_true]

lemma getDelay_isSome (hpos : 0 < attempt) :
    (getDelay checks jitter policy attempt).isSome ↔ DelayFits checks jitter policy attempt := by
  unfold getDelay
  rw [if_neg (Nat.ne_of_gt hpos), exponential_eq]
  by_cases hpower : checks = true → 0 < attempt % 2 ^ 32 ∧ attempt % 2 ^ 32 ≤ 32
  · rw [if_pos hpower, Option.bind_eq_bind, Option.bind_some]
    by_cases hproduct : policy.baseDelay * factor attempt < durationBound
    · rw [checked_of_lt hproduct, Option.bind_some]
      cases hjitter : jitter attempt (policy.baseDelay * factor attempt) with
      | none =>
        constructor
        · simp
        · intro h
          have hsome := h.jittered
          rw [hjitter] at hsome
          cases hsome
      | some delay =>
        constructor
        · intro _
          exact ⟨hpower, hproduct, by rw [hjitter]; rfl⟩
        · intro _
          rfl
    · rw [checked, if_neg hproduct]
      constructor
      · simp
      · intro h
        exact absurd h.product hproduct
  · rw [if_neg hpower]
    constructor
    · simp
    · intro h
      exact absurd h.power hpower

end Delays

section Script

variable {α : Type} {script : ℕ → Except BackendError α} {n k d : ℕ}

def retryable : Except BackendError α → Bool
  | .ok _ => false
  | .error e => e.isRetryable

/-- The error of the call before. -/
def errorBefore (script : ℕ → Except BackendError α) : ℕ → Option BackendError
  | 0 => none
  | k + 1 =>
      match script k with
      | .ok _ => none
      | .error e => some e

/-- The call that decides: the first one that is not to be repeated, or else the last one. -/
structure Decides (script : ℕ → Except BackendError α) (n d : ℕ) : Prop where
  le : d ≤ n
  before : ∀ k < d, retryable (script k) = true
  last : retryable (script d) = true → d = n

lemma exists_decides (script : ℕ → Except BackendError α) (n : ℕ) : ∃ d, Decides script n d := by
  induction n with
  | zero => exact ⟨0, Nat.le_refl 0, nofun, fun _ => rfl⟩
  | succ n ih =>
    obtain ⟨d, hd⟩ := ih
    by_cases hretry : retryable (script d) = true
    · refine ⟨n + 1, Nat.le_refl _, fun k hk => ?_, fun _ => rfl⟩
      rcases Nat.lt_or_ge k d with hlt | hge
      · exact hd.before k hlt
      · have hkd : k = d := by
          have hdn := hd.last hretry
          omega
        rw [hkd]
        exact hretry
    · exact ⟨d, Nat.le_succ_of_le hd.le, hd.before, fun h => absurd h hretry⟩

lemma Decides.eq_of_stop (hd : Decides script n d) (hkn : k ≤ n)
    (hbefore : ∀ j < k, retryable (script j) = true) (hstop : retryable (script k) = false) :
    d = k := by
  rcases Nat.lt_trichotomy d k with hlt | heq | hgt
  · have hdn := hd.last (hbefore d hlt)
    omega
  · exact heq
  · have hretry := hd.before k hgt
    rw [hstop] at hretry
    cases hretry

lemma Decides.eq_of_exhausted (hd : Decides script n d)
    (hall : ∀ j ≤ n, retryable (script j) = true) : d = n := hd.last (hall d hd.le)

lemma exists_error {answer : Except BackendError α} (h : retryable answer = true) :
    ∃ e, answer = .error e ∧ e.isRetryable = true := by
  cases answer with
  | ok output => cases h
  | error e => exact ⟨e, rfl, h⟩

end Script

section Loop

variable {α : Type} {script : ℕ → Except BackendError α} {checks : Bool}
  {jitter : ℕ → ℕ → Option ℕ} {policy : RetryPolicy} {k d m n : ℕ} {waits : List ℕ}

/-- The wait before an attempt of this script is in range. -/
def Waits (script : ℕ → Except BackendError α) (checks : Bool) (jitter : ℕ → ℕ → Option ℕ)
    (policy : RetryPolicy) (attempt : ℕ) : Prop :=
  (waitBefore checks jitter policy attempt (errorBefore script attempt)).isSome

/-- A transient error leads to the next attempt. -/
lemma queryFrom_retry (waits : List ℕ) (hwait : Waits script checks jitter policy k)
    (hretry : retryable (script k) = true) : ∃ waits',
      queryFrom checks jitter script policy (List.range' k (n + 1)) (errorBefore script k) k waits =
        queryFrom checks jitter script policy (List.range' (k + 1) n) (errorBefore script (k + 1))
          (k + 1) waits' := by
  obtain ⟨waited, hwaited⟩ := Option.isSome_iff_exists.mp hwait
  obtain ⟨e, hanswer, he⟩ := exists_error hretry
  refine ⟨waits ++ waited, ?_⟩
  rw [List.range'_succ, queryFrom, hwaited]
  simp only [hanswer, he, if_true, errorBefore]

/-- The deciding call's answer is the result. -/
lemma queryFrom_decides (hwait : Waits script checks jitter policy k)
    (hlast : retryable (script k) = true → n = 0) :
    ∃ waits', queryFrom checks jitter script policy (List.range' k (n + 1)) (errorBefore script k) k
      waits = ⟨some (script k), k + 1, waits'⟩ := by
  obtain ⟨waited, hwaited⟩ := Option.isSome_iff_exists.mp hwait
  refine ⟨waits ++ waited, ?_⟩
  rw [List.range'_succ, queryFrom, hwaited]
  cases hanswer : script k with
  | ok output => rfl
  | error e =>
    by_cases he : e.isRetryable = true
    · have hn : n = 0 := hlast (by rw [hanswer]; exact he)
      subst hn
      simp only [he, if_true]
      rfl
    · simp only [he]
      rfl

lemma queryFrom_panics (hwait : ¬ Waits script checks jitter policy k) :
    queryFrom checks jitter script policy (List.range' k (n + 1)) (errorBefore script k) k waits =
      ⟨none, k, waits⟩ := by
  have hnone : waitBefore checks jitter policy k (errorBefore script k) = none :=
    Option.not_isSome_iff_eq_none.mp hwait
  rw [List.range'_succ, queryFrom, hnone]

/-- From any attempt up to the deciding one, the loop comes to its call. -/
lemma queryFrom_result (waits : List ℕ) (hd : Decides script policy.maxRetries d) (hm : k + m = d)
    (hwaits : ∀ attempt, k ≤ attempt → attempt ≤ d → Waits script checks jitter policy attempt) :
    ∃ waits', queryFrom checks jitter script policy
      (List.range' k (policy.maxRetries - k + 1)) (errorBefore script k) k waits =
        ⟨some (script d), d + 1, waits'⟩ := by
  have hle := hd.le
  induction m generalizing k waits with
  | zero =>
    have hkd : k = d := hm
    subst hkd
    apply queryFrom_decides (hwaits k (Nat.le_refl k) (Nat.le_refl k))
    intro hretry
    have hlast := hd.last hretry
    omega
  | succ m ih =>
    have hrange : policy.maxRetries - k = policy.maxRetries - (k + 1) + 1 := by omega
    obtain ⟨waits', hstep⟩ := queryFrom_retry (n := policy.maxRetries - k) waits
      (hwaits k (Nat.le_refl k) (by omega)) (hd.before k (by omega))
    rw [hstep, hrange]
    apply ih waits' (by omega)
    intro attempt hge hlt
    exact hwaits attempt (by omega) hlt

/-- A wait that is out of range ends the loop without a result. -/
lemma queryFrom_none (hd : Decides script policy.maxRetries d) (hmd : k + m ≤ d)
    (hwait : ¬ Waits script checks jitter policy (k + m)) :
    (queryFrom checks jitter script policy (List.range' k (policy.maxRetries - k + 1))
      (errorBefore script k) k waits).result = none := by
  have hle := hd.le
  induction m generalizing k waits with
  | zero => rw [queryFrom_panics (k := k) hwait]
  | succ m ih =>
    by_cases hhere : Waits script checks jitter policy k
    · have hrange : policy.maxRetries - k = policy.maxRetries - (k + 1) + 1 := by omega
      obtain ⟨waits', hstep⟩ := queryFrom_retry (n := policy.maxRetries - k) waits
        hhere (hd.before k (by omega))
      rw [hstep, hrange]
      apply ih (by omega)
      rwa [show k + 1 + m = k + (m + 1) by omega]
    · rw [queryFrom_panics hhere]

lemma query_decides_iff (hd : Decides script policy.maxRetries d) :
    ((query checks jitter script policy).result = some (script d) ∧
      (query checks jitter script policy).calls = d + 1) ↔
    ∀ attempt ≤ d, Waits script checks jitter policy attempt := by
  constructor
  · intro h attempt hle
    by_contra hwait
    have hnone : (query checks jitter script policy).result = none :=
      queryFrom_none (k := 0) (m := attempt) hd (by omega) (by rwa [Nat.zero_add])
    rw [hnone] at h
    cases h.1
  · intro hwaits
    obtain ⟨waits', hrun⟩ := queryFrom_result (k := 0) (m := d) [] hd (Nat.zero_add d)
      fun attempt _ hle => hwaits attempt hle
    have hquery : query checks jitter script policy = ⟨some (script d), d + 1, waits'⟩ := hrun
    rw [hquery]
    exact ⟨rfl, rfl⟩

end Loop

section Semantics

variable {α : Type}

/-- What a caller expects of the retries. -/
structure Retried (script : ℕ → Except BackendError α) (maxRetries : ℕ) (run : Run α) : Prop where
  calls_le : run.calls ≤ maxRetries + 1
  first_ok : ∀ k ≤ maxRetries, (∀ j < k, retryable (script j) = true) →
    ∀ output, script k = .ok output → run.result = some (.ok output) ∧ run.calls = k + 1
  first_fatal : ∀ k ≤ maxRetries, (∀ j < k, retryable (script j) = true) →
    ∀ e, script k = .error e → e.isRetryable = false →
      run.result = some (.error e) ∧ run.calls = k + 1
  last_error : (∀ j ≤ maxRetries, retryable (script j) = true) →
    ∃ e, script maxRetries = .error e ∧ run.result = some (.error e) ∧ run.calls = maxRetries + 1

lemma retried_iff {script : ℕ → Except BackendError α} {n d : ℕ} {run : Run α}
    (hd : Decides script n d) :
    Retried script n run ↔ run.result = some (script d) ∧ run.calls = d + 1 := by
  constructor
  · intro h
    by_cases hretry : retryable (script d) = true
    · have hdn := hd.last hretry
      subst hdn
      obtain ⟨e, hanswer, hresult, hcalls⟩ := h.last_error fun j hj => by
        rcases Nat.lt_or_eq_of_le hj with hlt | heq
        · exact hd.before j hlt
        · rw [heq]
          exact hretry
      exact ⟨by rw [hresult, hanswer], hcalls⟩
    · cases hanswer : script d with
      | ok output => exact h.first_ok d hd.le hd.before output hanswer
      | error e =>
        rw [hanswer] at hretry
        exact h.first_fatal d hd.le hd.before e hanswer (Bool.eq_false_of_not_eq_true hretry)
  · rintro ⟨hresult, hcalls⟩
    have hle := hd.le
    constructor
    · omega
    · intro k hk hbefore output hanswer
      have hdk := hd.eq_of_stop hk hbefore (by rw [hanswer]; rfl)
      subst hdk
      exact ⟨by rw [hresult, hanswer], hcalls⟩
    · intro k hk hbefore e hanswer hfatal
      have hdk := hd.eq_of_stop hk hbefore (by rw [hanswer]; exact hfatal)
      subst hdk
      exact ⟨by rw [hresult, hanswer], hcalls⟩
    · intro hall
      have hdn := hd.eq_of_exhausted hall
      subst hdn
      obtain ⟨e, hanswer, _⟩ := exists_error (hall d (Nat.le_refl d))
      exact ⟨e, hanswer, by rw [hresult, hanswer], hcalls⟩

lemma waits_iff {script : ℕ → Except BackendError α} {checks : Bool} {jitter : ℕ → ℕ → Option ℕ}
    {policy : RetryPolicy} {attempt : ℕ} :
    Waits script checks jitter policy attempt ↔
      (0 < attempt → (errorBefore script attempt).bind BackendError.retryAfter = none →
        DelayFits checks jitter policy attempt) := by
  unfold Waits waitBefore
  by_cases hfirst : attempt = 0
  · subst hfirst
    exact ⟨fun _ h => absurd h (Nat.lt_irrefl 0), fun _ => rfl⟩
  · rw [if_neg hfirst]
    have hpos := Nat.pos_of_ne_zero hfirst
    cases hafter : (errorBefore script attempt).bind BackendError.retryAfter with
    | some delay => exact ⟨fun _ _ => nofun, fun _ => rfl⟩
    | none =>
      simp only [Option.isSome_map, getDelay_isSome hpos]
      exact ⟨fun h _ _ => h, fun h => h hpos trivial⟩

/-- The retries are as expected exactly as long as every delay that is computed fits. -/
theorem retried_iff_fits (script : ℕ → Except BackendError α) (checks : Bool)
    (jitter : ℕ → ℕ → Option ℕ) (policy : RetryPolicy) :
    Retried script policy.maxRetries (query checks jitter script policy) ↔
      ∀ attempt, 0 < attempt → attempt ≤ policy.maxRetries →
        (∀ j < attempt, retryable (script j) = true) →
        (errorBefore script attempt).bind BackendError.retryAfter = none →
        DelayFits checks jitter policy attempt := by
  obtain ⟨d, hd⟩ := exists_decides script policy.maxRetries
  rw [retried_iff hd, query_decides_iff hd]
  constructor
  · intro hwaits attempt hpos hle hbefore hafter
    have hreached : attempt ≤ d := by
      by_contra hlater
      have hdn := hd.last (hbefore d (Nat.lt_of_not_le hlater))
      omega
    exact waits_iff.mp (hwaits attempt hreached) hpos hafter
  · intro hfits attempt hle
    apply waits_iff.mpr
    intro hpos hafter
    exact hfits attempt hpos (hle.trans hd.le) (fun j hj => hd.before j (by omega)) hafter

/-- A backend whose network never comes up. -/
def unreachable : ℕ → Except BackendError Unit := fun _ => .error (.network "unreachable")

/-- The longest delay that the configuration can hold. -/
def longDelay : RetryPolicy := ⟨11, fromMillis (2 ^ 64 - 1), fromSecs 30⟩

theorem retries_panic :
    (query false (fun _ delay => some delay) unreachable longDelay).result = none ∧
      (query false (fun _ delay => some delay) unreachable longDelay).calls = 11 ∧
      ¬ Retried unreachable longDelay.maxRetries
        (query false (fun _ delay => some delay) unreachable longDelay) := by
  have hnone : (query false (fun _ delay => some delay) unreachable longDelay).result = none := by
    decide
  refine ⟨hnone, by decide, fun h => ?_⟩
  obtain ⟨e, _, hresult, _⟩ := h.last_error fun _ _ => rfl
  rw [hnone] at hresult
  cases hresult

end Semantics

end Loker.RetryExecutor
