import Loker.CommandCapture
import Loker.JsonReader

/-! The verdict on a test run: the counts that are read from the runner's report, as far as the
report is kept, and what is decided from them and from the command's end. -/

namespace Loker.TestVerdicts

open ByteLines CommandCapture LossyText TextLines TextOps

section Parsing

/-- JSON values and what is read of them. A text that is cut is none, and an object ends with its
closing brace, whatever follows it. -/
class ReportJson (J : Type) where
  fromStr : List Char → Option J
  deserialize : List Char → Option J
  get : J → String → Option J
  asStr : J → Option String
  asBool : J → Option Bool
  /-- A number without sign, fraction and exponent, of any size. -/
  asNat : J → Option ℕ
  asArray : J → Option (List J)
  fromStr_elided : ∀ text n, fromStr (text ++ elidedText n) = none
  deserialize_closed : ∀ text rest more v, deserialize ('{' :: text ++ rest) = some v →
    '}' ∉ rest → deserialize ('{' :: text ++ more) = some v

open ReportJson

inductive TestRunnerKind where
  | cargo
  | pytest
  deriving DecidableEq, Repr

/-- The two counters have 32 bits. -/
structure TestResult where
  passed : ℕ
  failed : ℕ
  firstFailureName : Option String
  firstFailureExcerpt : Option String
  deriving DecidableEq, Repr

/-- A sum past 32 bits panics where overflow is checked, and wraps elsewhere. -/
def add32 (checked : Bool) (a b : ℕ) : Option ℕ :=
  if a + b < 2 ^ 32 then some (a + b)
  else if checked then none
  else some ((a + b) % 2 ^ 32)

def truncateExcerpt (text : String) (maxChars : ℕ) : String :=
  let normalized := (trim text).toList
  let result := String.ofList (normalized.take maxChars)
  if maxChars < normalized.length then result ++ "…" else result

/-- What a line of cargo's report says of a test. -/
inductive Outcome where
  | passed
  | failed (name excerpt : Option String)
  | other
  deriving DecidableEq, Repr

variable (J : Type) [ReportJson J] (checked : Bool)

def valueOutcome (value : J) : Outcome :=
  if (get value "type").bind asStr ≠ some "test" then .other
  else
    let event := ((get value "event").bind asStr).getD ""
    let ignored := ((get value "ignored").bind asBool).getD false
    if event = "ok" then if ignored then .other else .passed
    else if event = "failed" ∨ event = "timeout" then
      .failed ((get value "name").bind asStr)
        (((get value "stdout").bind asStr).map fun s => truncateExcerpt (trim s) 200)
    else .other

def lineOutcome (line : String) : Outcome :=
  let line := trim line
  if line = "" then .other
  else
    match (fromStr line.toList : Option J) with
    | none => .other
    | some value => valueOutcome J value

/-- The name and the text are those of the first failure that has a name. -/
def countLine (result : TestResult) (line : String) : Option TestResult :=
  match lineOutcome J line with
  | .other => some result
  | .passed => (add32 checked result.passed 1).map fun n => { result with passed := n }
  | .failed name excerpt =>
      (add32 checked result.failed 1).map fun n =>
        if result.firstFailureName = none then ⟨result.passed, n, name, excerpt⟩
        else { result with failed := n }

def parseCargoOutput (stdout : String) : Option TestResult :=
  (lines stdout).foldlM (countLine J checked) ⟨0, 0, none, none⟩

/-- What begins with the first brace. -/
def firstObject (text : List Char) : Option J :=
  match text.dropWhile (· ≠ '{') with
  | [] => none
  | c :: cs => deserialize (c :: cs)

def reportValue (text : List Char) : Option J := (fromStr text).or (firstObject J text)

variable {J}

def asU64 (v : J) : Option ℕ := (asNat v).filter (· < 2 ^ 64)

/-- `as u32` takes the last 32 bits. -/
def count32 (summary : J) (key : String) : ℕ :=
  (((get summary key).bind asU64).getD 0) % 2 ^ 32

def firstFailedTest (value : J) : Option J :=
  ((get value "tests").bind asArray).bind fun tests => tests.find? fun t =>
    let outcome := (get t "outcome").bind asStr
    outcome = some "failed" || outcome = some "error"

def failureText (t : J) : Option String :=
  (((get t "call").bind fun c => get c "longrepr").or (get t "longrepr")).bind asStr

variable (J)

def parsePytestOutput (stdout : String) : Option TestResult :=
  match reportValue J stdout.toList with
  | none => some ⟨0, 0, none, some "could not parse pytest JSON report from stdout"⟩
  | some value =>
      match get value "summary" with
      | none => some ⟨0, 0, none, some "pytest report missing `summary` field"⟩
      | some summary =>
          (add32 checked (count32 summary "failed") (count32 summary "error")).map fun failed =>
            ⟨count32 summary "passed", failed,
              (firstFailedTest value).bind fun t => (get t "nodeid").bind asStr,
              ((firstFailedTest value).bind failureText).map fun s => truncateExcerpt s 200⟩

def parseOutput (runner : TestRunnerKind) (stdout : String) : Option TestResult :=
  match runner with
  | .cargo => parseCargoOutput J checked stdout
  | .pytest => parsePytestOutput J checked stdout

end Parsing

section Verdict

inductive SandboxViolation where
  | timeout
  | signal (signal : ℤ)
  | nonZeroExit (code : ℤ)
  deriving DecidableEq, Repr

structure FailureReason where
  summary : String
  stdout : String := ""
  stderr : String := ""
  truncated : Bool := false
  exitCode : Option ℤ := none
  sandboxViolation : Option SandboxViolation := none
  deriving DecidableEq, Repr

inductive VerifyResult where
  | pass
  | fail (reason : FailureReason)
  deriving DecidableEq, Repr

def failureSummary (result : TestResult) : String :=
  match result.firstFailureName, result.firstFailureExcerpt with
  | some name, some excerpt =>
      result.failed.repr ++ " test(s) failed (first: " ++ name ++ ": " ++ excerpt ++ ")"
  | some name, none => result.failed.repr ++ " test(s) failed (first: " ++ name ++ ")"
  | none, _ => result.failed.repr ++ " test(s) failed"

variable (isWord : Char → Bool) (run : CommandRun) (result : TestResult)

/-- The output goes with every failure. -/
def withOutput (summary : String) : FailureReason where
  summary := summary
  stdout := redactOutput isWord run.stdout.toReasonText run.secretValues
  stderr := redactOutput isWord run.stderr.toReasonText run.secretValues
  truncated := run.stdout.truncated || run.stderr.truncated

def toVerifyResult : VerifyResult :=
  let reason := withOutput isWord run
  if run.timedOut then
    .fail { reason "test runner timed out" with sandboxViolation := some .timeout }
  else
    match run.status with
    | .signaled signal => .fail
        { reason ("test runner killed by signal " ++ toString signal) with
          sandboxViolation := some (.signal signal) }
    | .exited code =>
        if code ≠ 0 ∧ result.failed = 0 then
          if result.passed = 0 then .fail
            { reason "no tests ran" with
              exitCode := some code, sandboxViolation := some (.nonZeroExit code) }
          else .fail
            { reason ("test runner exited with status " ++ toString code) with
              exitCode := some code, sandboxViolation := some (.nonZeroExit code) }
        else if result.passed = 0 ∧ result.failed = 0 then
          .fail { reason "no tests ran" with exitCode := some code }
        else if 0 < result.failed then
          .fail { reason (failureSummary result) with exitCode := some code }
        else .pass

def verify (J : Type) [ReportJson J] (checked : Bool) (runner : TestRunnerKind) :
    Option VerifyResult :=
  (parseOutput J checked runner run.stdout.toReasonText).map (toVerifyResult isWord run)

variable {isWord run result}

/-- Only a clean end with a passed test and no failed one passes. -/
lemma toVerifyResult_eq_pass_iff : toVerifyResult isWord run result = .pass ↔
    run.timedOut = false ∧ run.status = .exited 0 ∧ 0 < result.passed ∧ result.failed = 0 := by
  unfold toVerifyResult
  cases run.timedOut with
  | true =>
    constructor
    · nofun
    · rintro ⟨htimed, _⟩
      cases htimed
  | false =>
    cases run.status with
    | signaled signal =>
      constructor
      · nofun
      · rintro ⟨_, hstatus, _⟩
        cases hstatus
    | exited code =>
      simp only [Bool.false_eq_true, if_false, true_and, ExitStatus.exited.injEq]
      by_cases hcode : code = 0
      · rw [if_neg fun h => h.1 hcode]
        by_cases hfailed : result.failed = 0
        · by_cases hpassed : result.passed = 0
          · rw [if_pos ⟨hpassed, hfailed⟩]
            constructor
            · nofun
            · rintro ⟨_, hpos, _⟩
              omega
          · rw [if_neg fun h => hpassed h.1, if_neg (by omega)]
            exact ⟨fun _ => ⟨hcode, by omega, hfailed⟩, fun _ => rfl⟩
        · rw [if_neg fun h => hfailed h.2, if_pos (by omega)]
          constructor
          · nofun
          · rintro ⟨_, _, hzero⟩
            exact absurd hzero hfailed
      · constructor
        · intro h
          split at h
          · split at h <;> cases h
          · next hcascade =>
            have hfailed : result.failed ≠ 0 := fun hzero => hcascade ⟨hcode, hzero⟩
            rw [if_neg fun h => hfailed h.2, if_pos (by omega)] at h
            cases h
        · rintro ⟨hzero, _⟩
          exact absurd hzero hcode

end Verdict

section Counting

open ReportJson

structure Counts where
  passed : ℕ
  failed : ℕ
  deriving DecidableEq, Repr

def Passing (c : Counts) : Prop := 0 < c.passed ∧ c.failed = 0

instance : DecidablePred Passing := fun c => by
  unfold Passing
  infer_instance

def Fits (c : Counts) : Prop := c.passed < 2 ^ 32 ∧ c.failed < 2 ^ 32

variable (J : Type) [ReportJson J]

def isPassed (line : String) : Bool :=
  match lineOutcome J line with
  | .passed => true
  | _ => false

def isFailed (line : String) : Bool :=
  match lineOutcome J line with
  | .failed _ _ => true
  | _ => false

def lineCounts (ls : List String) : Counts := ⟨ls.countP (isPassed J), ls.countP (isFailed J)⟩

variable {J}

def natAt (summary : J) (key : String) : ℕ := ((get summary key).bind asNat).getD 0

def summaryCounts (report : Option J) : Counts :=
  match report.bind fun value => get value "summary" with
  | none => ⟨0, 0⟩
  | some summary => ⟨natAt summary "passed", natAt summary "failed" + natAt summary "error"⟩

variable (J) (runner : TestRunnerKind) (output : Bytes) (cap : ℕ)

/-- The lines that are complete within the cap. -/
def linesWithin : List String := (completeLines (output.take cap)).map lineText

/-- The other lines of the report, from the one that is cut on. -/
def linesBeyond : List String :=
  lines (String.ofList (decode (partialLine (output.take cap) ++ output.drop cap)))

/-- The counts of the whole report. -/
def reportCounts : Counts :=
  match runner with
  | .cargo => lineCounts J (lines (String.ofList (decode output)))
  | .pytest => summaryCounts (reportValue J (decode output))

/-- The counts of the report as far as it lies within the cap. -/
def keptCounts : Counts :=
  if cap < output.length then
    match runner with
    | .cargo => lineCounts J (linesWithin output cap)
    | .pytest => summaryCounts (firstObject J (decode (output.take cap)))
  else reportCounts J runner output

/-- What is beyond the cap does not turn the verdict on what is within it. -/
def KeepsVerdict : Prop :=
  output.length ≤ cap ∨
    match runner with
    | .cargo =>
        (∃ l ∈ linesWithin output cap, isFailed J l = true) ∨
        ((∃ l ∈ linesWithin output cap, isPassed J l = true) ∧
          ∀ l ∈ linesBeyond output cap, isFailed J l = false) ∨
        ((∀ l ∈ linesWithin output cap, isPassed J l = false) ∧
          ((∀ l ∈ linesBeyond output cap, isPassed J l = false) ∨
            ∃ l ∈ linesBeyond output cap, isFailed J l = true))
    | .pytest =>
        match firstObject J (decode (output.take cap)) with
        | none => ¬ Passing (reportCounts J .pytest output)
        | some value => fromStr (J := J) (decode output) = none ∨
            (Passing (summaryCounts (some value)) ↔ Passing (reportCounts J .pytest output))

end Counting

section Counters

variable {J : Type} [ReportJson J] {checked : Bool} {r r' : TestResult} {ls : List String}
  {a b n : ℕ}

lemma add32_of_lt (h : a + b < 2 ^ 32) : add32 checked a b = some (a + b) := if_pos h

lemma add32_lt (h : add32 checked a b = some n) : n < 2 ^ 32 := by
  unfold add32 at h
  split at h
  · next hlt =>
    cases h
    exact hlt
  · split at h
    · cases h
    · cases h
      exact Nat.mod_lt _ (by decide)

lemma countLine_exact {line : String}
    (hp : r.passed + (if isPassed J line then 1 else 0) < 2 ^ 32)
    (hf : r.failed + (if isFailed J line then 1 else 0) < 2 ^ 32) :
    ∃ r', countLine J checked r line = some r' ∧
      r'.passed = r.passed + (if isPassed J line then 1 else 0) ∧
      r'.failed = r.failed + (if isFailed J line then 1 else 0) := by
  cases hline : lineOutcome J line with
  | other =>
    have hpassed : isPassed J line = false := by rw [isPassed, hline]
    have hfailed : isFailed J line = false := by rw [isFailed, hline]
    rw [countLine, hline, hpassed, hfailed]
    exact ⟨r, rfl, rfl, rfl⟩
  | passed =>
    have hpassed : isPassed J line = true := by rw [isPassed, hline]
    have hfailed : isFailed J line = false := by rw [isFailed, hline]
    rw [hpassed, if_pos rfl] at hp
    rw [countLine, hline, hpassed, hfailed]
    simp only [add32_of_lt hp]
    exact ⟨_, rfl, rfl, rfl⟩
  | failed name excerpt =>
    have hpassed : isPassed J line = false := by rw [isPassed, hline]
    have hfailed : isFailed J line = true := by rw [isFailed, hline]
    rw [hfailed, if_pos rfl] at hf
    rw [countLine, hline, hpassed, hfailed]
    simp only [add32_of_lt hf]
    refine ⟨_, rfl, ?_⟩
    split
    · exact ⟨rfl, rfl⟩
    · exact ⟨rfl, rfl⟩

/-- Counts that fit in 32 bits are exact. -/
lemma countLines_exact (hp : r.passed + ls.countP (isPassed J) < 2 ^ 32)
    (hf : r.failed + ls.countP (isFailed J) < 2 ^ 32) :
    ∃ r', ls.foldlM (countLine J checked) r = some r' ∧
      r'.passed = r.passed + ls.countP (isPassed J) ∧
      r'.failed = r.failed + ls.countP (isFailed J) := by
  induction ls generalizing r with
  | nil => exact ⟨r, rfl, rfl, rfl⟩
  | cons line ls ih =>
    rw [List.countP_cons] at hp hf ⊢
    rw [List.countP_cons]
    have hone : ∃ r', countLine J checked r line = some r' ∧
        r'.passed = r.passed + (if isPassed J line then 1 else 0) ∧
        r'.failed = r.failed + (if isFailed J line then 1 else 0) :=
      countLine_exact (by omega) (by omega)
    obtain ⟨r₁, hline, hp₁, hf₁⟩ := hone
    obtain ⟨r', hrest, hp', hf'⟩ := ih (r := r₁) (by omega) (by omega)
    refine ⟨r', ?_, by omega, by omega⟩
    rw [List.foldlM_cons, hline]
    exact hrest

lemma countLine_lt {line : String} (hp : r.passed < 2 ^ 32) (hf : r.failed < 2 ^ 32)
    (h : countLine J checked r line = some r') : r'.passed < 2 ^ 32 ∧ r'.failed < 2 ^ 32 := by
  unfold countLine at h
  cases hline : lineOutcome J line with
  | other =>
    rw [hline] at h
    cases h
    exact ⟨hp, hf⟩
  | passed =>
    rw [hline] at h
    obtain ⟨n, hn, rfl⟩ := Option.map_eq_some_iff.mp h
    exact ⟨add32_lt hn, hf⟩
  | failed name excerpt =>
    rw [hline] at h
    obtain ⟨n, hn, rfl⟩ := Option.map_eq_some_iff.mp h
    split
    · exact ⟨hp, add32_lt hn⟩
    · exact ⟨hp, add32_lt hn⟩

lemma countLines_lt (hp : r.passed < 2 ^ 32) (hf : r.failed < 2 ^ 32)
    (h : ls.foldlM (countLine J checked) r = some r') :
    r'.passed < 2 ^ 32 ∧ r'.failed < 2 ^ 32 := by
  induction ls generalizing r with
  | nil =>
    cases h
    exact ⟨hp, hf⟩
  | cons line ls ih =>
    rw [List.foldlM_cons] at h
    cases hline : countLine J checked r line with
    | none =>
      rw [hline] at h
      cases h
    | some r₁ =>
      rw [hline] at h
      obtain ⟨hp₁, hf₁⟩ := countLine_lt hp hf hline
      exact ih hp₁ hf₁ h

/-- The counters of what is parsed. -/
def CountersAre (result : Option TestResult) (c : Counts) : Prop :=
  ∃ r, result = some r ∧ r.passed = c.passed ∧ r.failed = c.failed

variable (J checked) in
lemma parseCargoOutput_counters (stdout : String) :
    CountersAre (parseCargoOutput J checked stdout) (lineCounts J (lines stdout)) ↔
      Fits (lineCounts J (lines stdout)) := by
  constructor
  · rintro ⟨r, hr, hp, hf⟩
    obtain ⟨hplt, hflt⟩ := countLines_lt (by decide) (by decide) hr
    exact ⟨hp ▸ hplt, hf ▸ hflt⟩
  · rintro ⟨hp, hf⟩
    unfold CountersAre lineCounts at *
    dsimp only at hp hf ⊢
    have hall : ∃ r', (lines stdout).foldlM (countLine J checked) ⟨0, 0, none, none⟩ = some r' ∧
        r'.passed = 0 + (lines stdout).countP (isPassed J) ∧
        r'.failed = 0 + (lines stdout).countP (isFailed J) :=
      countLines_exact (by rw [Nat.zero_add]; exact hp) (by rw [Nat.zero_add]; exact hf)
    obtain ⟨r', hr', hp', hf'⟩ := hall
    rw [Nat.zero_add] at hp' hf'
    exact ⟨r', hr', hp', hf'⟩

lemma count32_eq {summary : J} {key : String} (h : natAt summary key < 2 ^ 32) :
    count32 summary key = natAt summary key := by
  unfold natAt at h
  unfold count32 natAt asU64
  cases hget : ReportJson.get summary key with
  | none => rfl
  | some v =>
    rw [hget, Option.bind_some] at h
    rw [Option.bind_some, Option.bind_some]
    cases hn : ReportJson.asNat v with
    | none => rfl
    | some n =>
      rw [hn, Option.getD_some] at h
      have hlt : n < 2 ^ 64 := by omega
      rw [Option.filter_some, if_pos (decide_eq_true hlt), Option.getD_some, Nat.mod_eq_of_lt h]

variable (J checked) in
lemma parsePytestOutput_counters (stdout : String) :
    CountersAre (parsePytestOutput J checked stdout)
        (summaryCounts (reportValue J stdout.toList)) ↔
      Fits (summaryCounts (reportValue J stdout.toList)) := by
  have hnone : Fits ⟨0, 0⟩ := ⟨Nat.two_pow_pos 32, Nat.two_pow_pos 32⟩
  unfold parsePytestOutput summaryCounts
  cases reportValue J stdout.toList with
  | none => exact ⟨fun _ => hnone, fun _ => ⟨_, rfl, rfl, rfl⟩⟩
  | some value =>
    simp only [Option.bind_some]
    cases ReportJson.get value "summary" with
    | none => exact ⟨fun _ => hnone, fun _ => ⟨_, rfl, rfl, rfl⟩⟩
    | some summary =>
      constructor
      · rintro ⟨r, hr, hp, hf⟩
        obtain ⟨failed, hfailed, rfl⟩ := Option.map_eq_some_iff.mp hr
        have hplt : count32 summary "passed" < 2 ^ 32 := Nat.mod_lt _ (by decide)
        exact ⟨hp ▸ hplt, hf ▸ add32_lt hfailed⟩
      · rintro ⟨hp, hf⟩
        have hfailed : natAt summary "failed" < 2 ^ 32 :=
          Nat.lt_of_le_of_lt (Nat.le_add_right _ _) hf
        have herror : natAt summary "error" < 2 ^ 32 :=
          Nat.lt_of_le_of_lt (Nat.le_add_left _ _) hf
        simp only [count32_eq hfailed, count32_eq herror, count32_eq hp, add32_of_lt hf]
        exact ⟨_, rfl, rfl, rfl⟩

end Counters

section Cuts

open ReportJson

variable {J : Type} [ReportJson J] {checked : Bool} {runner : TestRunnerKind} {output : Bytes}
  {cap n : ℕ} {p rest more : List Char} {v : J}

lemma elidedText_ends (n : ℕ) : ∃ inner, elidedText n = '…' :: inner ++ [']'] := by
  refine ⟨"[truncated, ".toList ++ n.repr.toList ++ " bytes elided".toList, ?_⟩
  have hend : " bytes elided]".toList = " bytes elided".toList ++ [']'] := by decide
  unfold elidedText
  rw [hend, ← List.append_assoc]
  rfl

/-- Trimming takes nothing from what is written behind the cut. -/
lemma trim_elided (p : List Char) (n : ℕ) :
    ∃ q, (trim (String.ofList (p ++ elidedText n))).toList = q ++ elidedText n := by
  obtain ⟨inner, hinner⟩ := elidedText_ends n
  have hend : trimEndChars (elidedText n) = elidedText n := by
    rw [hinner]
    exact List.rdropWhile_concat_neg _ _ _ (by decide)
  have hdark : ∃ c ∈ elidedText n, isWhiteSpace c = false := by
    rw [hinner]
    exact ⟨'…', List.mem_cons_self, by decide⟩
  have hfront : (elidedText n).dropWhile isWhiteSpace = elidedText n := by
    rw [hinner]
    exact List.dropWhile_cons_of_neg (by decide)
  rw [toList_trim, String.toList_ofList, List.dropWhile_append]
  split
  · exact ⟨[], by rw [hfront, hend]; rfl⟩
  · refine ⟨p.dropWhile isWhiteSpace, ?_⟩
    unfold trimEndChars at hend ⊢
    rw [rdropWhile_append hdark, hend]

lemma lineOutcome_elided (p : List Char) (n : ℕ) :
    lineOutcome J (String.ofList (p ++ elidedText n)) = .other := by
  obtain ⟨q, hq⟩ := trim_elided p n
  unfold lineOutcome
  dsimp only
  rw [hq, fromStr_elided]
  split <;> rfl

lemma no_brace_elided {c : Char} (hdigit : c.isDigit = false)
    (hstart : c ∉ " …[truncated, ".toList) (hend : c ∉ " bytes elided]".toList) (n : ℕ) :
    c ∉ ' ' :: elidedText n := by
  intro hmem
  have hall : c ∈ " …[truncated, ".toList ++ n.repr.toList ++ " bytes elided]".toList := hmem
  rcases List.mem_append.mp hall with hfront | htail
  · rcases List.mem_append.mp hfront with hfirst | hnumber
    · exact hstart hfirst
    · have hdigits : n.repr.toList = Nat.toDigits 10 n := Nat.toList_repr
      rw [hdigits] at hnumber
      have hisDigit := Nat.isDigit_of_mem_toDigits (by decide) (by decide) hnumber
      rw [hdigit] at hisDigit
      cases hisDigit
  · exact hend htail

lemma dropWhile_brace (h : '{' ∈ p) :
    ∃ text, ∀ rest, (p ++ rest).dropWhile (· ≠ '{') = '{' :: text ++ rest := by
  obtain ⟨before, text, rfl, hbefore⟩ := List.eq_append_cons_of_mem h
  refine ⟨text, fun rest => ?_⟩
  have hdropped : ∀ c ∈ before, decide (c ≠ '{') = true := fun c hc =>
    decide_eq_true fun heq => hbefore (heq ▸ hc)
  rw [List.append_assoc, List.dropWhile_append_of_pos hdropped, List.cons_append]
  exact List.dropWhile_cons_of_neg (by decide)

/-- An object that is complete stays what it is, whatever follows. -/
lemma firstObject_append (h : firstObject J (p ++ rest) = some v) (hopen : '{' ∉ rest)
    (hclose : '}' ∉ rest) (more : List Char) : firstObject J (p ++ more) = some v := by
  by_cases hbrace : '{' ∈ p
  · obtain ⟨text, htext⟩ := dropWhile_brace hbrace
    unfold firstObject at h ⊢
    rw [htext] at h ⊢
    exact deserialize_closed text rest more v h hclose
  · have hnone : (p ++ rest).dropWhile (· ≠ '{') = [] := by
      apply List.dropWhile_eq_nil_iff.mpr
      intro c hc
      apply decide_eq_true
      intro heq
      rw [heq] at hc
      rcases List.mem_append.mp hc with hp | hrest
      · exact hbrace hp
      · exact hopen hrest
    unfold firstObject at h
    rw [hnone] at h
    cases h

lemma firstObject_marked (p : List Char) (n : ℕ) :
    firstObject J (p ++ ' ' :: elidedText n) = firstObject J p := by
  have hopen := no_brace_elided (c := '{') (by decide) (by decide) (by decide) n
  have hclose := no_brace_elided (c := '}') (by decide) (by decide) (by decide) n
  cases hmarked : firstObject J (p ++ ' ' :: elidedText n) with
  | some v =>
    have hplain := firstObject_append hmarked hopen hclose []
    rw [List.append_nil] at hplain
    exact hplain.symm
  | none =>
    cases hplain : firstObject J p with
    | none => rfl
    | some v =>
      rw [← List.append_nil p] at hplain
      have hgrown := firstObject_append hplain List.not_mem_nil List.not_mem_nil
        (' ' :: elidedText n)
      rw [hmarked] at hgrown
      cases hgrown

/-- An object that is complete within the cap is the first one of the whole report. -/
lemma firstObject_decode (h : firstObject J (decode (output.take cap)) = some v) :
    firstObject J (decode output) = some v := by
  have hcut : ∃ p q, decode (output.take cap ++ output.drop cap) = p ++ q ∧
      (decode (output.take cap) = p ∨ decode (output.take cap) = p ++ [replaced]) :=
    decodeFrom_append (Nat.zero_le _)
  obtain ⟨p, q, hwhole, hkept⟩ := hcut
  rw [List.take_append_drop] at hwhole
  rw [hwhole]
  rcases hkept with hsame | hlast
  · rw [hsame, ← List.append_nil p] at h
    exact firstObject_append h List.not_mem_nil List.not_mem_nil q
  · rw [hlast] at h
    exact firstObject_append h (by decide) (by decide) q

lemma capture_text : (capture output cap).toReasonText =
    if cap < output.length then
      String.ofList (decode (output.take cap) ++ ' ' :: elidedText (output.length - cap))
    else String.ofList (decode output) := by
  unfold CapturedOutput.toReasonText capture
  by_cases hcut : cap < output.length
  · rw [if_pos (decide_eq_true hcut), if_pos hcut]
  · simp only [decide_eq_true_eq, if_neg hcut]
    rw [List.take_of_length_le (Nat.le_of_not_lt hcut)]

lemma lineCounts_kept : lineCounts J (lines (String.ofList
      (decode (output.take cap) ++ ' ' :: elidedText n))) =
    lineCounts J (linesWithin output cap) := by
  have hnewline : '\n' ∉ ' ' :: elidedText n :=
    no_brace_elided (by decide) (by decide) (by decide) n
  have hlast : lineOutcome J (String.ofList
      (decode (partialLine (output.take cap)) ++ ' ' :: elidedText n)) = .other := by
    have hsplit : decode (partialLine (output.take cap)) ++ ' ' :: elidedText n =
        (decode (partialLine (output.take cap)) ++ [' ']) ++ elidedText n := by
      rw [List.append_assoc]
      rfl
    rw [hsplit]
    exact lineOutcome_elided _ n
  unfold lineCounts
  rw [lines_decode_marked hnewline (List.cons_ne_nil _ _), List.countP_append, List.countP_append,
    List.countP_singleton, List.countP_singleton, isPassed, isFailed, hlast]
  rfl

/-- The counters are those of what is kept exactly when these fit. -/
lemma parseOutput_counters :
    CountersAre (parseOutput J checked runner (capture output cap).toReasonText)
        (keptCounts J runner output cap) ↔ Fits (keptCounts J runner output cap) := by
  rw [capture_text]
  unfold keptCounts parseOutput
  by_cases hcut : cap < output.length
  · rw [if_pos hcut, if_pos hcut]
    cases runner with
    | cargo =>
      have hcounters := parseCargoOutput_counters J checked
        (String.ofList (decode (output.take cap) ++ ' ' :: elidedText (output.length - cap)))
      rwa [lineCounts_kept] at hcounters
    | pytest =>
      have hcounters := parsePytestOutput_counters J checked
        (String.ofList (decode (output.take cap) ++ ' ' :: elidedText (output.length - cap)))
      have hsplit : decode (output.take cap) ++ ' ' :: elidedText (output.length - cap) =
          (decode (output.take cap) ++ [' ']) ++ elidedText (output.length - cap) := by
        rw [List.append_assoc]
        rfl
      have hvalue : reportValue J
          (decode (output.take cap) ++ ' ' :: elidedText (output.length - cap)) =
          firstObject J (decode (output.take cap)) := by
        unfold reportValue
        rw [firstObject_marked, hsplit, fromStr_elided, Option.none_or]
      rwa [String.toList_ofList, hvalue] at hcounters
  · rw [if_neg hcut, if_neg hcut]
    cases runner with
    | cargo => exact parseCargoOutput_counters J checked (String.ofList (decode output))
    | pytest =>
      have hcounters := parsePytestOutput_counters J checked (String.ofList (decode output))
      rwa [String.toList_ofList] at hcounters

lemma reportCounts_cargo (output : Bytes) (cap : ℕ) : reportCounts J .cargo output =
    lineCounts J (linesWithin output cap ++ linesBeyond output cap) := by
  have hlines := lines_decode_append (output.take cap) (output.drop cap)
  rw [List.take_append_drop] at hlines
  exact congrArg (lineCounts J) hlines

lemma exists_iff_countP_pos {ls : List String} {f : String → Bool} :
    (∃ l ∈ ls, f l = true) ↔ 0 < ls.countP f := List.countP_pos_iff.symm

lemma forall_iff_countP_zero {ls : List String} {f : String → Bool} :
    (∀ l ∈ ls, f l = false) ↔ ls.countP f = 0 := by
  rw [List.countP_eq_zero]
  simp only [Bool.not_eq_true]

/-- What lies beyond the cap turns the verdict on the rest exactly when the verdicts on the whole
and on what is kept differ. -/
lemma keepsVerdict_iff : KeepsVerdict J runner output cap ↔
    (Passing (keptCounts J runner output cap) ↔ Passing (reportCounts J runner output)) := by
  unfold KeepsVerdict keptCounts
  by_cases hcut : cap < output.length
  · rw [if_pos hcut, or_iff_right (Nat.not_le.mpr hcut)]
    cases runner with
    | cargo =>
      dsimp only
      rw [reportCounts_cargo output cap]
      simp only [exists_iff_countP_pos, forall_iff_countP_zero]
      unfold Passing lineCounts
      simp only [List.countP_append]
      omega
    | pytest =>
      dsimp only
      cases hkept : firstObject J (decode (output.take cap)) with
      | none =>
        have hfails : ¬ Passing (summaryCounts (none : Option J)) := fun h =>
          Nat.lt_irrefl 0 h.1
        exact (iff_false_left hfails).symm
      | some value =>
        constructor
        · rintro (hnone | hsame)
          · unfold reportCounts reportValue
            rw [hnone, Option.none_or, firstObject_decode hkept]
          · exact hsame
        · exact Or.inr
  · rw [if_neg hcut]
    exact iff_of_true (.inl (Nat.le_of_not_lt hcut)) Iff.rfl

end Cuts

section Exactness

variable (isWord : Char → Bool) (J : Type) [ReportJson J] (checked : Bool)
  (runner : TestRunnerKind) (run : CommandRun) (reads : Reads) (cap : ℕ)

/-- The run with what is kept of its output. -/
def keepOutput : CommandRun := { run with stdout := readStreamBounded reads cap }

/-- The verdict is the one on the whole report, and no counter of what is kept loses anything. -/
structure Exact : Prop where
  verdict : verify isWord (keepOutput run reads cap) J checked runner = some .pass ↔
    run.timedOut = false ∧ run.status = .exited 0 ∧
      Passing (reportCounts J runner (delivered reads))
  counters : CountersAre
    (parseOutput J checked runner (keepOutput run reads cap).stdout.toReasonText)
    (keptCounts J runner (delivered reads) cap)

theorem exact_iff : Exact isWord J checked runner run reads cap ↔
    Fits (keptCounts J runner (delivered reads) cap) ∧
      (run.timedOut = false → run.status = .exited 0 →
        KeepsVerdict J runner (delivered reads) cap) := by
  have hcapture : (keepOutput run reads cap).stdout = capture (delivered reads) cap :=
    readStreamBounded_eq reads cap
  have hcounters : CountersAre
      (parseOutput J checked runner (keepOutput run reads cap).stdout.toReasonText)
      (keptCounts J runner (delivered reads) cap) ↔
      Fits (keptCounts J runner (delivered reads) cap) := by
    rw [hcapture]
    exact parseOutput_counters
  have hverdict : CountersAre
      (parseOutput J checked runner (keepOutput run reads cap).stdout.toReasonText)
      (keptCounts J runner (delivered reads) cap) →
      (verify isWord (keepOutput run reads cap) J checked runner = some .pass ↔
        run.timedOut = false ∧ run.status = .exited 0 ∧
          Passing (keptCounts J runner (delivered reads) cap)) := by
    rintro ⟨result, hresult, hpassed, hfailed⟩
    unfold verify Passing
    rw [hresult, Option.map_some, Option.some.injEq, toVerifyResult_eq_pass_iff, hpassed, hfailed]
    rfl
  constructor
  · rintro ⟨hexact, hcount⟩
    refine ⟨hcounters.mp hcount, fun htimed hstatus => keepsVerdict_iff.mpr ?_⟩
    have hboth := (hverdict hcount).symm.trans hexact
    constructor
    · intro hkept
      exact (hboth.mp ⟨htimed, hstatus, hkept⟩).2.2
    · intro hfull
      exact (hboth.mpr ⟨htimed, hstatus, hfull⟩).2.2
  · rintro ⟨hfits, hkeeps⟩
    have hcount := hcounters.mpr hfits
    refine ⟨?_, hcount⟩
    rw [hverdict hcount]
    constructor
    · rintro ⟨htimed, hstatus, hkept⟩
      exact ⟨htimed, hstatus, (keepsVerdict_iff.mp (hkeeps htimed hstatus)).mp hkept⟩
    · rintro ⟨htimed, hstatus, hfull⟩
      exact ⟨htimed, hstatus, (keepsVerdict_iff.mp (hkeeps htimed hstatus)).mpr hfull⟩

end Exactness

section Samples

open JsonReader

/-- The reader of ASCII texts. -/
def readAscii (text : List Char) : Option Json :=
  if text.all (fun c => c.toNat < 128) then readJson text else none

/-- The value of a beginning that ends with a brace. -/
def closedValue (text : List Char) : Option Json :=
  if text.getLast? = some '}' then readAscii text else none

instance : ReportJson Json where
  fromStr := readAscii
  deserialize text := text.inits.findSome? closedValue
  get
    | .object members, key => members.reverse.lookup key.toList
    | _, _ => none
  asStr
    | .string chars => some (String.ofList chars)
    | _ => none
  asBool
    | .bool b => some b
    | _ => none
  asNat
    | .number digits =>
        if digits.all Char.isDigit then
          some (digits.foldl (fun n d => 10 * n + (d.toNat - '0'.toNat)) 0)
        else none
    | _ => none
  asArray
    | .array items => some items
    | _ => none
  fromStr_elided text n := by
    apply if_neg
    intro hall
    have hmem : '…' ∈ text ++ elidedText n :=
      List.mem_append_right text (List.mem_append_left _ (List.mem_append_left _ (by decide)))
    exact absurd (List.all_eq_true.mp hall '…' hmem) (by decide)
  deserialize_closed text rest more v h hclose := by
    rw [List.inits_append, List.findSome?_append] at h ⊢
    cases hfirst : ('{' :: text).inits.findSome? closedValue with
    | some w =>
      rw [hfirst] at h
      exact h
    | none =>
      rw [hfirst, Option.none_or, List.findSome?_map] at h
      obtain ⟨p, hp, hvalue⟩ := List.exists_of_findSome?_eq_some h
      have hne : p ≠ [] := by
        cases rest with
        | nil => cases hp
        | cons c rest =>
          rw [List.inits_cons, List.tail_cons] at hp
          obtain ⟨q, _, rfl⟩ := List.mem_map.mp hp
          exact List.cons_ne_nil c q
      have hlast : p.getLast? = some '}' := by
        rw [Function.comp_apply, closedValue] at hvalue
        split at hvalue
        · next hend =>
          rwa [List.getLast?_append_of_ne_nil _ hne] at hend
        · cases hvalue
      have hbegins : p <+: rest := (List.mem_inits p rest).mp (List.mem_of_mem_tail hp)
      exact absurd (hbegins.subset (List.mem_of_getLast? hlast)) hclose

def bytesOf (text : String) : Bytes := text.toUTF8.data.toList

/-- `{"summary":{"passed":5}}`. -/
def passingReport : Bytes := bytesOf "\x7b\"summary\":\x7b\"passed\":5\x7d\x7d"

/-- `{"summary":{"passed":1,"failed":4294967296}}`. -/
def failingReport : Bytes :=
  bytesOf "\x7b\"summary\":\x7b\"passed\":1,\"failed\":4294967296\x7d\x7d"

def cleanRun : CommandRun := ⟨.exited 0, false, ⟨[], false, 0⟩, ⟨[], false, 0⟩, []⟩

/-- A passing report passes when it is kept whole and not when it is cut, and one of 2 ^ 32 failures
passes. -/
theorem verdict_not_exact :
    (verify Char.isAlphanum (keepOutput cleanRun [some passingReport] 24) Json true .pytest =
        some .pass ∧
      verify Char.isAlphanum (keepOutput cleanRun [some passingReport] 23) Json true .pytest ≠
        some .pass ∧
      Passing (reportCounts Json .pytest (delivered [some passingReport]))) ∧
    (verify Char.isAlphanum (keepOutput cleanRun [some failingReport] 8192) Json true .pytest =
        some .pass ∧
      (reportCounts Json .pytest (delivered [some failingReport])).failed = 4294967296) := by
  refine ⟨⟨?_, ?_, ?_⟩, ?_, ?_⟩ <;> decide

end Samples

end Loker.TestVerdicts
