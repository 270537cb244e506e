import Loker.DiffApplier

/-! The loop that parses, applies and verifies a backend's edits, rolls them back and asks for
new ones. -/

namespace Loker.EditRetry

open FileTree SymbolicLinks Programs UndoLog EditFiles DiffApplier

structure RollbackFailure where
  path : String
  reason : String
  deriving DecidableEq, Repr

structure RollbackReport where
  restored : List String
  failed : List RollbackFailure
  deleted : List String
  deriving DecidableEq, Repr

def rollbackOne (backup : FileBackup) (report : RollbackReport) :
    Prog EditOps RollbackReport :=
  match backup.originalContent with
  | some original => do
      match ← call (S := EditOps) (.write backup.path original) with
      | .ok () => pure { report with restored := report.restored ++ [backup.path] }
      | .error e =>
          let failure := ⟨backup.path, "failed to restore: " ++ e.message⟩
          pure { report with failed := report.failed ++ [failure] }
  | none => do
      match ← call (S := EditOps) (.removeFile backup.path) with
      | .ok () => pure { report with deleted := report.deleted ++ [backup.path] }
      | .error e =>
          match e.kind with
          | .notFound => pure { report with deleted := report.deleted ++ [backup.path] }
          | .other =>
              let failure := ⟨backup.path, "failed to delete created file: " ++ e.message⟩
              pure { report with failed := report.failed ++ [failure] }

def rollbackEach : List FileBackup → RollbackReport → Prog EditOps RollbackReport
  | [], report => pure report
  | backup :: backups, report => do
      let report ← rollbackOne backup report
      rollbackEach backups report

/-- Every modified file in reverse order. -/
def rollback (applyResult : ApplyResult) : Prog EditOps RollbackReport :=
  rollbackEach applyResult.modifiedFiles.reverse ⟨[], [], []⟩

structure AttemptRecord where
  attemptNum : ℕ
  rawOutput : String
  parseError : Option String
  applyError : Option String
  verifyResult : Option VerifyResult
  rolledBack : Bool
  deriving DecidableEq, Repr

structure RetryLoopOutcome where
  success : Bool
  attempts : List AttemptRecord
  finalVerify : Option VerifyResult
  finalApply : Option ApplyResult
  deriving DecidableEq, Repr

/-- `maxRetries = 0` means one attempt and no retry. -/
structure RetryLoop where
  maxRetries : ℕ
  verify : Verification
  stopOnParseError : Bool
  deriving DecidableEq, Repr

/-- How one pass of the loop ends: with the outcome or with the next raw output. -/
inductive Flow where
  | finish (outcome : RetryLoopOutcome)
  | again (record : AttemptRecord) (raw : String)

section Execute

-- The edit parser, with its errors as text.
variable (parse : String → Except String ParsedEdits)

def failed (attempts : List AttemptRecord) (record : AttemptRecord)
    (finalVerify : Option VerifyResult) : Flow :=
  .finish ⟨false, attempts ++ [record], finalVerify, none⟩

/-- Asks for new edits; the attempt shown to the requester counts from one and is the next. -/
def requery (attempts : List AttemptRecord) (record : AttemptRecord) (reason : RetryReason)
    (finalVerify : Option VerifyResult) : Prog EditOps Flow := do
  let context := ⟨(record.attemptNum + 2) % 2 ^ 32, record.rawOutput, reason⟩
  match ← call (S := EditOps) (.requestEdits context) with
  | .ok raw => pure (.again record raw)
  | .error e => pure (failed attempts { record with applyError := some e } finalVerify)

def afterParseError (loop : RetryLoop) (attempts : List AttemptRecord)
    (record : AttemptRecord) (message : String) : Prog EditOps Flow :=
  let record := { record with parseError := some message }
  if loop.stopOnParseError = true ∨ record.attemptNum = loop.maxRetries then
    pure (failed attempts record none)
  else requery attempts record (.parseError message) none

/-- Nothing is rolled back where nothing was written. -/
def undoPartial (record : AttemptRecord) (e : ApplyError) : Prog EditOps AttemptRecord :=
  if e.partialResult.modifiedFiles = [] then pure record
  else do
    let _ ← rollback e.partialResult
    pure { record with rolledBack := true }

def afterApplyError (loop : RetryLoop) (attempts : List AttemptRecord)
    (record : AttemptRecord) (e : ApplyError) : Prog EditOps Flow := do
  let message := e.kind.toString
  let record ← undoPartial { record with applyError := some message } e
  if record.attemptNum = loop.maxRetries then pure (failed attempts record none)
  else
    let partialPaths := e.partialResult.modifiedFiles.map (·.path)
    requery attempts record (.applyError message partialPaths) none

def afterVerify (loop : RetryLoop) (attempts : List AttemptRecord) (record : AttemptRecord)
    (applied : ApplyResult) (result : VerifyResult) : Prog EditOps Flow :=
  let record := { record with verifyResult := some result }
  if result.success then
    pure (.finish ⟨true, attempts ++ [record], some result, some applied⟩)
  else do
    let _ ← rollback applied
    let record := { record with rolledBack := true }
    if record.attemptNum = loop.maxRetries then pure (failed attempts record (some result))
    else requery attempts record (.verifyError result) (some result)

def verifyApplied (loop : RetryLoop) (cwd : String) (attempts : List AttemptRecord)
    (record : AttemptRecord) (applied : ApplyResult) : Prog EditOps Flow := do
  let result ← call (S := EditOps) (.verify loop.verify cwd)
  afterVerify loop attempts record applied result

def attempt (loop : RetryLoop) (cwd : String) (attemptNum : ℕ) (raw : String)
    (attempts : List AttemptRecord) : Prog EditOps Flow :=
  let record : AttemptRecord := ⟨attemptNum, raw, none, none, none, false⟩
  match parse raw with
  | .error message => afterParseError loop attempts record message
  | .ok parsed => do
      match ← apply parsed cwd with
      | .error e => afterApplyError loop attempts record e
      | .ok applied => verifyApplied loop cwd attempts record applied

/-- The attempts left, the first of them numbered `attemptNum`. -/
def attemptsFrom (loop : RetryLoop) (cwd : String) :
    ℕ → ℕ → String → List AttemptRecord → Prog EditOps RetryLoopOutcome
  | 0, _, _, attempts => pure ⟨false, attempts, none, none⟩
  | left + 1, attemptNum, raw, attempts => do
      match ← attempt parse loop cwd attemptNum raw attempts with
      | .finish outcome => pure outcome
      | .again record raw =>
          attemptsFrom loop cwd left (attemptNum + 1) raw (attempts ++ [record])

def execute (loop : RetryLoop) (initialRaw : String) (cwd : String) :
    Prog EditOps RetryLoopOutcome :=
  attemptsFrom parse loop cwd (loop.maxRetries + 1) 0 initialRaw []

end Execute

section Rollback

variable {links : Links} {all own : Set Path} {points : Checkpoints} {f g : Path → Option Content}
  {env : Surroundings} {sem : Semantics EditOps Files} {t : Files} {p : Path}

lemma Logged.unconcat {log : List FileBackup} {b : FileBackup}
    (h : Logged links own f (log ++ [b]) g) :
    ∃ p g', BackupOf links own b p ∧ Logged links own f log g' ∧
      b.originalContent.map .text = g' p ∧ g = Function.update g' p (some (.text b.newContent)) := by
  obtain ⟨p, hb⟩ := h.backups b (by simp)
  have hrec := h.recorded
  rw [List.map_append] at hrec
  obtain ⟨g', hlog, hsaved, hg⟩ := hrec.last
  rw [hb.key] at hsaved hg
  exact ⟨p, g', hb, ⟨hlog, fun b' hb' => h.backups b' (List.mem_append_left _ hb')⟩, hsaved, hg⟩

/-- The program's own files are where the given links have them, and are as in `g` but for what some
of them hold. -/
structure HoldsBut (links : Links) (own changed : Set Path) (g : Path → Option Content)
    (t : Files) : Prop where
  routes : SameRoutes own links t.link
  content : ∀ p ∈ own, contentAt t p = g p ∨ p ∈ changed ∧ (contentAt t p).isSome = true

lemma Holds.but {changed : Set Path} (ht : Holds links own g t) : HoldsBut links own changed g t :=
  ⟨ht.routes, fun _ hp => Or.inl (ht.content hp)⟩

/-- The places of the backups. -/
def changedPaths (links : Links) (log : List FileBackup) : Set Path :=
  {p | ∃ b ∈ log, filePlace links b.path = some p}

lemma changedPaths_concat {log : List FileBackup} {b : FileBackup}
    (hplace : filePlace links b.path = some p) :
    changedPaths links (log ++ [b]) = insert p (changedPaths links log) := by
  ext q
  simp [changedPaths, hplace, or_and_right, exists_or, or_comm, eq_comm]

/-- Undoing the last backup gives the files before it, without a failure. -/
lemma rollbackOne_meets {b : FileBackup} {changed : Set Path} {report : RollbackReport}
    (hsem : ∀ o s a s', sem o s a s' → perform env o s a s') (hreport : report.failed = [])
    (hb : BackupOf links own b p) (hsaved : b.originalContent.map .text = f p)
    (ht : HoldsBut links own (insert p changed)
      (Function.update f p (some (.text b.newContent))) t) :
    Meets sem (ownFiles links all own points)
      (fun report' t' => report'.failed = [] ∧ HoldsBut links own changed f t')
      (rollbackOne b report) t := by
  have hnow : Holds links own (contentAt t) t := ⟨ht.routes, Set.eqOn_refl _ _⟩
  obtain ⟨now, hthere⟩ : ∃ now, contentAt t p = some now := by
    rcases ht.content p hb.own_place with hnew | ⟨_, hsome⟩
    · exact ⟨_, by rw [hnew, Function.update_self]⟩
    · exact Option.isSome_iff_exists.mp hsome
  -- What was written over the backup's file is gone once the old content is back.
  have hundone : ∀ t', Holds links own (Function.update (contentAt t) p
      (b.originalContent.map .text)) t' → HoldsBut links own changed f t' := by
    refine fun t' ht' => ⟨ht'.routes, fun q hq => ?_⟩
    rw [ht'.content hq]
    rcases eq_or_ne q p with rfl | hne
    · exact Or.inl (by rw [Function.update_self, hsaved])
    · have hq := ht.content q hq
      rw [Function.update_of_ne hne] at hq
      rw [Function.update_of_ne hne]
      exact hq.imp_right fun h => ⟨h.1.resolve_left hne, h.2⟩
  have hrest : ∀ (report' : RollbackReport) t', report'.failed = [] →
      Holds links own (Function.update (contentAt t) p (b.originalContent.map .text)) t' →
      Meets sem (ownFiles links all own points)
        (fun report' t' => report'.failed = [] ∧ HoldsBut links own changed f t')
        (.ret report') t' :=
    fun _ _ hfailed ht' => meets_ret fun t'' hrely => ⟨hfailed, hundone t'' (ht'.stable hrely)⟩
  unfold rollbackOne
  cases horig : b.originalContent with
  | some original =>
      rw [horig] at hrest
      exact meets_overwrite hsem hb.place hb.own_place hnow hthere fun t' ht' =>
        hrest _ t' hreport ht'
  | none =>
      rw [horig] at hrest
      exact meets_removeFile hsem hb.place (hb.direct horig) hb.own_place hnow hthere fun t' ht' =>
        hrest _ t' hreport ht'

lemma rollbackEach_meets {log : List FileBackup} {report : RollbackReport}
    (hsem : ∀ o s a s', sem o s a s' → perform env o s a s') (hreport : report.failed = [])
    (hlog : Logged links own f log g) (ht : HoldsBut links own (changedPaths links log) g t) :
    Meets sem (ownFiles links all own points)
      (fun report' t' => report'.failed = [] ∧ Holds links own f t')
      (rollbackEach log.reverse report) t := by
  induction log using List.reverseRecOn generalizing g t report with
  | nil =>
      have hg := hlog.recorded.undoAll_eq
      simp only [List.map_nil, undoAll_nil] at hg
      subst hg
      have hf : Holds links own g t := by
        refine ⟨ht.routes, fun p hp => ?_⟩
        rcases ht.content p hp with hsame | ⟨⟨b, hb, _⟩, _⟩
        · exact hsame
        · cases hb
      exact meets_ret fun _ hrely => ⟨hreport, hf.stable hrely⟩
  | append_singleton log b ih =>
      obtain ⟨p, g', hb, hlog', hsaved, rfl⟩ := Logged.unconcat hlog
      rw [changedPaths_concat hb.place] at ht
      rw [List.reverse_concat]
      refine Meets.bind ((rollbackOne_meets hsem hreport hb hsaved ht).mono fun report' t' h' => ?_)
      exact ih h'.1 hlog' h'.2

/-- Rolling back logged writes restores every file and reports no failure, whatever the written
files hold by then. -/
theorem rollback_meets {res : ApplyResult}
    (hsem : ∀ o s a s', sem o s a s' → perform env o s a s')
    (hlog : Logged links own f res.modifiedFiles g)
    (ht : HoldsBut links own (changedPaths links res.modifiedFiles) g t) :
    Meets sem (ownFiles links all own points)
      (fun report t' => report.failed = [] ∧ Holds links own f t') (rollback res) t :=
  rollbackEach_meets hsem rfl hlog ht

/-- A file that differs from the initial one is one of those written. -/
lemma Logged.mem_changed {log : List FileBackup} (hlog : Logged links own f log g)
    (hne : g p ≠ f p) : p ∈ changedPaths links log := by
  obtain ⟨entry, hentry, rfl⟩ := hlog.recorded.exists_write hne
  obtain ⟨b, hb, rfl⟩ := List.mem_map.mp hentry
  obtain ⟨p, hbackup⟩ := hlog.backups b hb
  exact ⟨b, hb, by rw [hbackup.key]; exact hbackup.place⟩

/-- A command that is run on logged writes changes written files only. -/
lemma Logged.rewritten {log : List FileBackup} {h : Path → Option Content}
    (hlog : Logged links own f log g) (henv : env.Tidy all own f) (hrewrites : env.Rewrites own g h)
    (ht : Holds links own h t) : HoldsBut links own (changedPaths links log) g t := by
  refine ⟨ht.routes, fun p hp => ?_⟩
  rw [ht.content hp]
  by_cases hsame : h p = g p
  · exact Or.inl hsame
  · obtain ⟨hne, hsome⟩ := henv.changed hrewrites hp hsame
    exact Or.inr ⟨Logged.mem_changed hlog hne, hsome⟩

end Rollback

section Loop

variable {links : Links} {parse : String → Except String ParsedEdits}
  {all own : Set Path} {f g : Path → Option Content} {env : Surroundings} {t : Files} {cwd : String}
  {loop : RetryLoop} {attempts : List AttemptRecord}

/-- The edits in the raw output touch only the given paths. -/
def EditsWithin (links : Links) (parse : String → Except String ParsedEdits) (cwd : String)
    (own : Set Path) (raw : String) : Prop :=
  ∀ parsed, parse raw = .ok parsed → ∀ e ∈ parsed.edits,
    ∀ p, filePlace links (joinPath cwd e.file) = some p → p ∈ own

/-- `g` is `f` with the edits of one raw output. -/
def EditedFrom (links : Links) (parse : String → Except String ParsedEdits) (cwd : String)
    (f : Path → Option Content) (raw : String) (g : Path → Option Content) : Prop :=
  ∃ parsed, parse raw = .ok parsed ∧ editsTo links cwd parsed.format parsed.edits f = some g

/-- New edits are asked for on the initial files, and a verification sees one attempt's edits
on top of the initial files. -/
def loopPoints (links : Links) (parse : String → Except String ParsedEdits) (cwd : String)
    (f : Path → Option Content) : Checkpoints where
  asking g := g = f
  verifying g := ∃ raw, EditedFrom links parse cwd f raw g

/-- The files a loop leaves: the last attempt's edits, as the verification left them, or nothing. -/
def OutcomeHolds (links : Links) (parse : String → Except String ParsedEdits) (cwd : String)
    (own : Set Path) (f : Path → Option Content) (env : Surroundings) (outcome : RetryLoopOutcome)
    (t : Files) : Prop :=
  (outcome.success = true → ∃ last g h, outcome.attempts.getLast? = some last ∧
      EditsWithin links parse cwd own last.rawOutput ∧
      EditedFrom links parse cwd f last.rawOutput g ∧ env.Rewrites own g h ∧ Holds links own h t) ∧
    (outcome.success = false → Holds links own f t)

/-- One pass ends the loop with one more record, or has undone everything. -/
def FlowDone (links : Links) (parse : String → Except String ParsedEdits) (cwd : String)
    (own : Set Path) (f : Path → Option Content) (env : Surroundings) (loop : RetryLoop)
    (attempts : List AttemptRecord) (num : ℕ) (flow : Flow) (t : Files) : Prop :=
  match flow with
  | .finish outcome =>
      (∃ record, outcome.attempts = attempts ++ [record] ∧ record.attemptNum = num) ∧
        OutcomeHolds links parse cwd own f env outcome t
  | .again record raw =>
      record.attemptNum = num ∧ num ≠ loop.maxRetries ∧ env.mayAnswer raw ∧ Holds links own f t

lemma meets_failed (record : AttemptRecord) {finalVerify : Option VerifyResult}
    (ht : Holds links own f t) :
    Meets (direct env) (ownFiles links all own (loopPoints links parse cwd f))
      (FlowDone links parse cwd own f env loop attempts record.attemptNum)
      (.ret (failed attempts record finalVerify)) t :=
  meets_ret fun _ hrely => ⟨⟨record, rfl, rfl⟩, nofun, fun _ => ht.stable hrely⟩

lemma requery_meets (record : AttemptRecord) {reason : RetryReason}
    {finalVerify : Option VerifyResult} (hmore : record.attemptNum ≠ loop.maxRetries)
    (ht : Holds links own f t) :
    Meets (direct env) (ownFiles links all own (loopPoints links parse cwd f))
      (FlowDone links parse cwd own f env loop attempts record.attemptNum)
      (requery attempts record reason finalVerify) t := by
  refine meets_requestEdits (fun _ _ _ _ h => h.2) rfl ht (fun raw t' ht' hraw => ?_)
    fun m t' ht' => ?_
  · exact meets_ret fun _ hrely => ⟨rfl, hmore, hraw, ht'.stable hrely⟩
  · exact meets_failed { record with applyError := some m } ht'

lemma afterParseError_meets (record : AttemptRecord) {message : String}
    (ht : Holds links own f t) :
    Meets (direct env) (ownFiles links all own (loopPoints links parse cwd f))
      (FlowDone links parse cwd own f env loop attempts record.attemptNum)
      (afterParseError loop attempts record message) t := by
  unfold afterParseError
  dsimp only
  split
  · exact meets_failed { record with parseError := some message } ht
  · next hgo =>
    exact requery_meets { record with parseError := some message }
      (fun h => hgo (Or.inr h)) ht

lemma undoPartial_meets {record : AttemptRecord} {e : ApplyError} {points : Checkpoints}
    (hlog : Logged links own f e.partialResult.modifiedFiles g) (ht : Holds links own g t) :
    Meets (direct env) (ownFiles links all own points)
      (fun record' t' => record'.attemptNum = record.attemptNum ∧ Holds links own f t')
      (undoPartial record e) t := by
  unfold undoPartial
  split
  · next hnone =>
    rw [hnone] at hlog
    have hg := hlog.recorded.undoAll_eq
    simp only [List.map_nil, undoAll_nil] at hg
    subst hg
    exact meets_ret fun _ hrely => ⟨rfl, ht.stable hrely⟩
  · refine Meets.bind ((rollback_meets (fun _ _ _ _ h => h.2) hlog (Holds.but ht)).mono
      fun _ t' h' => ?_)
    exact meets_ret fun _ hrely => ⟨rfl, h'.2.stable hrely⟩

lemma afterApplyError_meets (record : AttemptRecord) {e : ApplyError}
    (hlog : Logged links own f e.partialResult.modifiedFiles g) (ht : Holds links own g t) :
    Meets (direct env) (ownFiles links all own (loopPoints links parse cwd f))
      (FlowDone links parse cwd own f env loop attempts record.attemptNum)
      (afterApplyError loop attempts record e) t := by
  refine Meets.bind ((undoPartial_meets hlog ht).mono fun record' t' h' => ?_)
  obtain ⟨hnum, ht'⟩ := h'
  rw [show record.attemptNum = record'.attemptNum from hnum.symm]
  dsimp only
  split
  · exact meets_failed _ ht'
  · next hmore => exact requery_meets _ hmore ht'

lemma afterVerify_meets (record : AttemptRecord) {applied : ApplyResult} {result : VerifyResult}
    {h : Path → Option Content} (henv : env.Tidy all own f)
    (hwithin : EditsWithin links parse cwd own record.rawOutput)
    (hedited : EditedFrom links parse cwd f record.rawOutput g)
    (hlog : Logged links own f applied.modifiedFiles g) (hrewrites : env.Rewrites own g h)
    (ht : Holds links own h t) :
    Meets (direct env) (ownFiles links all own (loopPoints links parse cwd f))
      (FlowDone links parse cwd own f env loop attempts record.attemptNum)
      (afterVerify loop attempts record applied result) t := by
  unfold afterVerify
  dsimp only
  split
  · refine meets_ret fun t' hrely => ⟨⟨_, rfl, rfl⟩, fun _ => ?_, nofun⟩
    exact ⟨_, g, h, List.getLast?_concat, hwithin, hedited, hrewrites, ht.stable hrely⟩
  · have hbut := Logged.rewritten hlog henv hrewrites ht
    refine Meets.bind ((rollback_meets (fun _ _ _ _ h => h.2) hlog hbut).mono fun _ t' h' => ?_)
    split
    · exact meets_failed
        { record with verifyResult := some result, rolledBack := true } h'.2
    · next hmore =>
      exact requery_meets
        { record with verifyResult := some result, rolledBack := true } hmore h'.2

lemma verifyApplied_meets (record : AttemptRecord) {applied : ApplyResult}
    (henv : env.Tidy all own f) (hwithin : EditsWithin links parse cwd own record.rawOutput)
    (hedited : EditedFrom links parse cwd f record.rawOutput g)
    (hlog : Logged links own f applied.modifiedFiles g) (ht : Holds links own g t) :
    Meets (direct env) (ownFiles links all own (loopPoints links parse cwd f))
      (FlowDone links parse cwd own f env loop attempts record.attemptNum)
      (verifyApplied loop cwd attempts record applied) t :=
  meets_verify (fun _ _ _ _ h => h.2) henv ⟨_, hedited⟩ ht fun _ _ _ hrewrites ht' =>
    afterVerify_meets _ henv hwithin hedited hlog hrewrites ht'

lemma apply_direct {parsed : ParsedEdits} {points : Checkpoints}
    (hedits : ∀ e ∈ parsed.edits, ∀ p, filePlace links (joinPath cwd e.file) = some p → p ∈ own)
    (ht : Holds links own f t) :
    Meets (direct env) (ownFiles links all own points)
      (ApplyDone links own f (editsTo links cwd parsed.format parsed.edits f))
      (apply parsed cwd) t :=
  (apply_meets hedits ht).restrict fun _ _ _ _ h => ⟨h.1, refusing_of_perform h.2⟩

lemma attempt_meets {num : ℕ} {raw : String} (henv : env.Tidy all own f)
    (hwithin : EditsWithin links parse cwd own raw) (ht : Holds links own f t) :
    Meets (direct env) (ownFiles links all own (loopPoints links parse cwd f))
      (FlowDone links parse cwd own f env loop attempts num)
      (attempt parse loop cwd num raw attempts) t := by
  unfold attempt
  dsimp only
  split
  · exact afterParseError_meets ⟨num, raw, none, none, none, false⟩ ht
  · next parsed hparse =>
    refine Meets.bind ((apply_direct (hwithin parsed hparse) ht).mono fun r t' hr => ?_)
    cases r with
    | error e =>
        obtain ⟨g, hlog, ht'⟩ := hr
        exact afterApplyError_meets ⟨num, raw, none, none, none, false⟩ hlog ht'
    | ok applied =>
        obtain ⟨g, hlog, hgoal, ht'⟩ := hr
        exact verifyApplied_meets ⟨num, raw, none, none, none, false⟩ henv hwithin
          ⟨parsed, hparse, hgoal⟩ hlog ht'

/-- The records are numbered from zero and leave room for the attempts left. -/
structure Numbered (loop : RetryLoop) (attempts : List AttemptRecord) : Prop where
  consecutive : attempts.map (·.attemptNum) = List.range attempts.length
  bounded : attempts.length ≤ loop.maxRetries + 1

lemma Numbered.concat {record : AttemptRecord} (loop : RetryLoop)
    (h : attempts.map (·.attemptNum) = List.range attempts.length)
    (hnum : record.attemptNum = attempts.length) (hlen : attempts.length ≤ loop.maxRetries) :
    Numbered loop (attempts ++ [record]) where
  consecutive := by
    rw [List.map_append, h, List.length_append, List.length_singleton, List.range_succ]
    simp [hnum]
  bounded := by
    rw [List.length_append, List.length_singleton]
    omega

lemma OutcomeHolds.stable {outcome : RetryLoopOutcome} {points : Checkpoints} {t' : Files}
    (h : OutcomeHolds links parse cwd own f env outcome t)
    (hrely : (ownFiles links all own points).rely t t') :
    OutcomeHolds links parse cwd own f env outcome t' := by
  refine ⟨fun hs => ?_, fun hs => (h.2 hs).stable hrely⟩
  obtain ⟨last, g, final, hlast, hwithin, hedited, hrewrites, hfinal⟩ := h.1 hs
  exact ⟨last, g, final, hlast, hwithin, hedited, hrewrites, hfinal.stable hrely⟩

/-- What the whole loop leaves, by induction on the attempts left. -/
lemma attemptsFrom_meets {left : ℕ} {raw : String} (attempts : List AttemptRecord)
    (henv : env.Tidy all own f)
    (hanswers : ∀ raw, env.mayAnswer raw → EditsWithin links parse cwd own raw)
    (hwithin : EditsWithin links parse cwd own raw)
    (hnum : attempts.map (·.attemptNum) = List.range attempts.length)
    (hleft : attempts.length + left = loop.maxRetries + 1)
    (hsome : attempts.length ≤ loop.maxRetries) (ht : Holds links own f t) :
    Meets (direct env) (ownFiles links all own (loopPoints links parse cwd f))
      (fun outcome t' => Numbered loop outcome.attempts ∧
        OutcomeHolds links parse cwd own f env outcome t')
      (attemptsFrom parse loop cwd left attempts.length raw attempts) t := by
  induction left generalizing attempts raw t with
  | zero => omega
  | succ left ih =>
      refine Meets.bind ((attempt_meets henv hwithin ht).mono fun flow t' hflow => ?_)
      cases flow with
      | finish outcome =>
          obtain ⟨⟨record, hattempts, hrecord⟩, hout⟩ := hflow
          have hnumbered := Numbered.concat loop hnum hrecord hsome
          exact meets_ret fun _ hrely => ⟨hattempts ▸ hnumbered, hout.stable hrely⟩
      | again record raw' =>
          obtain ⟨hrecord, hmore, hraw, ht'⟩ := hflow
          have hnext := Numbered.concat loop hnum hrecord hsome
          have hlen := @List.length_append _ attempts [record]
          rw [List.length_singleton] at hlen
          have hrun := ih _ (hanswers raw' hraw) hnext.consecutive (by omega) (by omega) ht'
          rwa [hlen] at hrun

/-- The loop edits its own files all or nothing, whatever other programs do elsewhere. -/
theorem execute_meets {raw : String} (loop : RetryLoop) (henv : env.Tidy all own f)
    (hanswers : ∀ raw, env.mayAnswer raw → EditsWithin links parse cwd own raw)
    (hwithin : EditsWithin links parse cwd own raw) (ht : Holds links own f t) :
    Meets (direct env) (ownFiles links all own (loopPoints links parse cwd f))
      (fun outcome t' => Numbered loop outcome.attempts ∧
        OutcomeHolds links parse cwd own f env outcome t')
      (execute parse loop raw cwd) t :=
  attemptsFrom_meets [] henv hanswers hwithin rfl (Nat.zero_add _) (Nat.zero_le _) ht

end Loop

section Sequential

variable {links : Links} {parse : String → Except String ParsedEdits} {env : Surroundings}
  {t t' : Files} {cwd raw : String} {loop : RetryLoop} {outcome : RetryLoopOutcome}
  {tr : List (Event EditOps)}

lemma holds_univ {g : Path → Option Content} (h : Holds links Set.univ g t) : contentAt t = g :=
  (Set.eqOn_univ _ _).mp h.content

lemma holds_self : Holds t.link Set.univ (contentAt t) t := ⟨.refl _ _, Set.eqOn_refl _ _⟩

/-- A loop that runs alone and creates no file through a link leaves the last attempt's edits on the
initial files or the initial files, and every attempt of at most `maxRetries + 1` starts on the
initial files. -/
theorem execute_allOrNothing (henv : env.Quiet)
    (run : Runs (direct env) (execute parse loop raw cwd) t tr outcome t') :
    (outcome.success = true → SameRoutes Set.univ t.link t'.link ∧
        ∃ last parsed, outcome.attempts.getLast? = some last ∧ parse last.rawOutput = .ok parsed ∧
          editsTo t.link cwd parsed.format parsed.edits (contentAt t) = some (contentAt t')) ∧
      (outcome.success = false → SameRoutes Set.univ t.link t'.link ∧ contentAt t' = contentAt t) ∧
      outcome.attempts.map (·.attemptNum) = List.range outcome.attempts.length ∧
      outcome.attempts.length ≤ loop.maxRetries + 1 ∧
      (∀ context next tr₁ t₁,
        Steps (direct env) (execute parse loop raw cwd) t tr₁
          (.act (.requestEdits context) next) t₁ →
        SameRoutes Set.univ t.link t₁.link ∧ contentAt t₁ = contentAt t) ∧
      ∀ v next tr₁ t₁ result t₂,
        Steps (direct env) (execute parse loop raw cwd) t tr₁ (.act (.verify v cwd) next) t₁ →
        perform env (.verify v cwd) t₁ result t₂ →
        SameRoutes Set.univ t.link t₁.link ∧ ∃ raw parsed, parse raw = .ok parsed ∧
          editsTo t.link cwd parsed.format parsed.edits (contentAt t) = some (contentAt t₁) := by
  have hall : ∀ raw, EditsWithin t.link parse cwd Set.univ raw :=
    fun _ _ _ _ _ _ _ => Set.mem_univ _
  have hmeets := execute_meets loop (henv.tidy Set.univ Set.univ (contentAt t))
    (fun raw _ => hall raw) (hall raw) holds_self
  obtain ⟨⟨hconsecutive, hbounded⟩, hsuccess, hfailure⟩ := run.post hmeets
  refine ⟨fun hs => ?_, fun hs => ⟨(hfailure hs).routes, holds_univ (hfailure hs)⟩, hconsecutive,
    hbounded, ?_, ?_⟩
  · obtain ⟨last, g, h, hlast, _, ⟨parsed, hparse, hedits⟩, hrewrites, hh⟩ := hsuccess hs
    have hsame : h = g := by
      obtain ⟨t₁, t₂, hstep, hg, hh⟩ := hrewrites
      rw [← (Set.eqOn_univ _ _).mp hg, ← (Set.eqOn_univ _ _).mp hh]
      exact (henv t₁ t₂ hstep).2
    exact ⟨hh.routes, last, parsed, hlast, hparse, by rw [hedits, holds_univ hh, hsame]⟩
  · intro context next tr₁ t₁ hsteps
    have hstep : direct env (.requestEdits context) t₁ (Except.error "" : Except _ _) t₁ :=
      ⟨fun _ _ _ h => (by cases h), rfl, fun _ h => by cases h⟩
    obtain ⟨-, hasking, -⟩ := hsteps.guarantee hmeets hstep
    obtain ⟨g, hg, hholds⟩ := hasking context rfl
    exact ⟨hholds.routes, (holds_univ hholds).trans hg⟩
  · intro v next tr₁ t₁ result t₂ hsteps hstep
    have hdirect : direct env (.verify v cwd) t₁ result t₂ := ⟨fun _ _ _ h => (by cases h), hstep⟩
    obtain ⟨-, -, hverifying⟩ := hsteps.guarantee hmeets hdirect
    obtain ⟨g, ⟨raw', parsed, hparse, hedits⟩, hholds⟩ := hverifying v cwd rfl
    exact ⟨hholds.routes, raw', parsed, hparse, by rw [hedits, holds_univ hholds]⟩

/-- A parser that takes the whole output as the text of one file. -/
def wholeFile (raw : String) : Except String ParsedEdits :=
  .ok ⟨[⟨"a.txt", "", raw⟩], .fullFile⟩

def passesOn (text : String) (t : Files) : VerifyResult :=
  ⟨contentAt t ["w", "a.txt"] = some (.text text), "", "", some 0, false, false⟩

def attemptsOf (maxRetries : ℕ) : RetryLoop := ⟨maxRetries, ⟨"cargo test", 1000, 1000⟩, false⟩

/-- Commands that change nothing. -/
def quiet : Surroundings := ⟨fun t t' => t' = t, fun _ => True⟩

lemma quiet_quiet : quiet.Quiet := by
  rintro t t' rfl
  exact ⟨rfl, rfl⟩

/-- A first attempt that fails its verification and a second one that passes. -/
def secondAttempt : List (Event EditOps) × RetryLoopOutcome × Files :=
  eval (handle (passesOn "good") fun _ => .ok "good") (execute wholeFile (attemptsOf 1) "bad" "/w")
    Files.empty

theorem execute_allOrNothing_secondAttempt :
    secondAttempt.2.1.success = true ∧ secondAttempt.2.1.attempts.length = 2 ∧
      SameRoutes Set.univ Files.empty.link secondAttempt.2.2.link ∧
      ∃ last parsed, secondAttempt.2.1.attempts.getLast? = some last ∧
        wholeFile last.rawOutput = .ok parsed ∧
        editsTo Files.empty.link "/w" parsed.format parsed.edits (contentAt Files.empty) =
          some (contentAt secondAttempt.2.2) := by
  have hsuccess : secondAttempt.2.1.success = true := by decide
  have hrun : Runs (perform quiet) (execute wholeFile (attemptsOf 1) "bad" "/w") Files.empty
      secondAttempt.1 secondAttempt.2.1 secondAttempt.2.2 :=
    eval_runs (handle_performs (fun _ => rfl) fun _ _ _ => trivial) _ _
  have hplain : Files.empty.Plain := rfl
  have hdirect := hplain.steps (fun t t' h => (quiet_quiet t t' h).1) hrun
  exact ⟨hsuccess, by decide, (execute_allOrNothing quiet_quiet hdirect).1 hsuccess⟩

/-- A directory with a link in it to a file that is not there. -/
def dangling : Files :=
  ⟨addDirs Disk.empty ["w"],
    Function.update (fun _ => none) ["w", "a.txt"] (some ⟨false, ["b.txt"]⟩)⟩

/-- An only attempt on the dangling link, whose verification fails. -/
def undoneLink : List (Event EditOps) × RetryLoopOutcome × Files :=
  eval (handle (passesOn "good") fun _ => .ok "good") (execute wholeFile (attemptsOf 0) "bad" "/w")
    dangling

/-- The loop fails, and its rollback removes the link and leaves the file made behind it. -/
theorem undoneLink_leaves :
    quiet.Quiet ∧
      Runs (perform quiet) (execute wholeFile (attemptsOf 0) "bad" "/w") dangling undoneLink.1
        undoneLink.2.1 undoneLink.2.2 ∧
      undoneLink.2.1.success = false ∧ contentAt dangling ["w", "b.txt"] = none ∧
      contentAt undoneLink.2.2 ["w", "b.txt"] = some (.text "bad") ∧
      undoneLink.2.2.link ["w", "a.txt"] = none :=
  ⟨quiet_quiet, eval_runs (handle_performs (fun _ => rfl) fun _ _ _ => trivial) _ _, by decide,
    by decide, by decide, by decide⟩

end Sequential

end Loker.EditRetry
