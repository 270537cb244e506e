import Loker.EditFiles
import Loker.UndoLog

/-! Applying parsed edits to the files below a working directory. -/

namespace Loker.DiffApplier

open FileTree SymbolicLinks Programs TextOps UndoLog EditFiles

/-- Maximum characters of old text in an error. -/
def snippetLen : ℕ := 80

/-- Writes the new text and records the old one. -/
def writeEdit (filePath : String) (original : Option String) (new : String)
    (done : ApplyResult) : Prog EditOps (Except ApplyError FileBackup) := do
  match ← call (S := EditOps) (.write filePath new) with
  | .error e => pure (.error ⟨.writeFailed filePath e, done⟩)
  | .ok () => pure (.ok ⟨filePath, original, new⟩)

def applyFullFile (edit : FileEdit) (filePath : String) (done : ApplyResult) :
    Prog EditOps (Except ApplyError FileBackup) := do
  match ← call (S := EditOps) (.readToString filePath) with
  | .ok c => writeEdit filePath (some c) edit.new done
  | .error e =>
      match e.kind with
      | .other => pure (.error ⟨.readFailed filePath e, done⟩)
      | .notFound =>
          match ← call (S := EditOps) (.createDirAll (normalComponents filePath).dropLast) with
          | .error e => pure (.error ⟨.writeFailed filePath e, done⟩)
          | .ok () => writeEdit filePath none edit.new done

/-- Replaces the only match of the old text in the content read. -/
def replaceOnce (edit : FileEdit) (filePath : String) (format : EditFormat)
    (done : ApplyResult) (content : String) : Prog EditOps (Except ApplyError FileBackup) :=
  if edit.old = "" then
    pure (.error ⟨.invalidEdit "find/replace edit requires non-empty old text", done⟩)
  else
    let count := matchCount content edit.old
    if count = 0 then
      if format = .unifiedDiff then pure (.error ⟨.multiHunkDiffNotContiguous filePath, done⟩)
      else
        let snippet := String.ofList (edit.old.toList.take snippetLen)
        pure (.error ⟨.oldTextNotFound filePath snippet, done⟩)
    else if count > 1 then pure (.error ⟨.ambiguousMatch filePath count, done⟩)
    else writeEdit filePath (some content) (replaceFirst content edit.old edit.new) done

def applyFindReplace (edit : FileEdit) (filePath : String) (format : EditFormat)
    (done : ApplyResult) : Prog EditOps (Except ApplyError FileBackup) := do
  match ← call (S := EditOps) (.readToString filePath) with
  | .error e =>
      match e.kind with
      | .notFound => pure (.error ⟨.fileNotFound filePath, done⟩)
      | .other => pure (.error ⟨.readFailed filePath e, done⟩)
  | .ok content => replaceOnce edit filePath format done content

def applyEdit (cwd : String) (format : EditFormat) (edit : FileEdit) (done : ApplyResult) :
    Prog EditOps (Except ApplyError FileBackup) :=
  if edit.file = "" then pure (.error ⟨.invalidEdit "empty file path", done⟩)
  else if escapes cwd edit.file then
    pure (.error ⟨.invalidEdit ("path escapes working directory: " ++ edit.file), done⟩)
  else
    match format with
    | .fullFile => applyFullFile edit (joinPath cwd edit.file) done
    | .jsonOldNew | .unifiedDiff =>
        applyFindReplace edit (joinPath cwd edit.file) format done

/-- The edits one after the other; `done` holds what is already written. -/
def applyAll (cwd : String) (format : EditFormat) :
    List FileEdit → ApplyResult → Prog EditOps (Except ApplyError ApplyResult)
  | [], done => pure (.ok done)
  | edit :: edits, done => do
      match ← applyEdit cwd format edit done with
      | .error e => pure (.error e)
      | .ok backup =>
          applyAll cwd format edits
            { done with modifiedFiles := done.modifiedFiles ++ [backup] }

def apply (parsed : ParsedEdits) (cwd : String) :
    Prog EditOps (Except ApplyError ApplyResult) :=
  applyAll cwd parsed.format parsed.edits ⟨[], parsed.format⟩

section Meaning

/-- What one edit makes of the files, or `none` where it does not apply. -/
def editTo (links : Links) (cwd : String) (format : EditFormat) (files : Path → Option Content)
    (edit : FileEdit) : Option (Path → Option Content) :=
  match filePlace links (joinPath cwd edit.file) with
  | none => none
  | some p =>
      match format, files p with
      | .fullFile, _ => some (Function.update files p (some (.text edit.new)))
      | _, some (.text c) =>
          if edit.old ≠ "" ∧ matchCount c edit.old = 1 then
            some (Function.update files p (some (.text (replaceFirst c edit.old edit.new))))
          else none
      | _, _ => none

def editsTo (links : Links) (cwd : String) (format : EditFormat) (edits : List FileEdit)
    (files : Path → Option Content) : Option (Path → Option Content) :=
  edits.foldlM (editTo links cwd format) files

def FileBackup.entry (links : Links) (b : FileBackup) : Backup Path Content :=
  ⟨(filePlace links b.path).getD [], b.originalContent.map .text, .text b.newContent⟩

/-- The backup is of the program's own file at `p`; a file that was created is there under its own
name, so that removing the path removes it. -/
structure BackupOf (links : Links) (own : Set Path) (b : FileBackup) (p : Path) : Prop where
  place : filePlace links b.path = some p
  own_place : p ∈ own
  direct : b.originalContent = none → route links false b.path = some ⟨p, false⟩

/-- The backups lead from `f` to `g` and can all be undone within the program's own places. -/
structure Logged (links : Links) (own : Set Path) (f : Path → Option Content)
    (log : List FileBackup) (g : Path → Option Content) : Prop where
  recorded : Recorded f (log.map (FileBackup.entry links)) g
  backups : ∀ b ∈ log, ∃ p, BackupOf links own b p

end Meaning

section Spec

variable {links : Links} {all own : Set Path} {points : Checkpoints} {f g : Path → Option Content}
  {env : Surroundings} {t : Files} {cwd filePath : String} {p : Path} {b : FileBackup}

lemma BackupOf.key (h : BackupOf links own b p) : (FileBackup.entry links b).key = p := by
  rw [FileBackup.entry, h.place]
  rfl

lemma Logged.nil : Logged links own f [] f := ⟨.nil, by simp⟩

lemma Logged.concat {log : List FileBackup} (h : Logged links own f log g)
    (hb : BackupOf links own b p) (hsaved : b.originalContent.map .text = g p) :
    Logged links own f (log ++ [b]) (Function.update g p (some (.text b.newContent))) where
  recorded := by
    have hentry : (FileBackup.entry links b).original = g (FileBackup.entry links b).key := by
      rw [hb.key]
      exact hsaved
    have hrecorded := h.recorded.snoc hentry
    rw [hb.key] at hrecorded
    rw [List.map_append]
    exact hrecorded
  backups b' hb' := by
    rcases List.mem_append.mp hb' with hb' | hb'
    · exact h.backups b' hb'
    · rw [List.mem_singleton.mp hb']
      exact ⟨p, hb⟩

/-- One backup more or an error that changed nothing. -/
def EditDone (links : Links) (own : Set Path) (g : Path → Option Content)
    (goal : Option (Path → Option Content)) (done : ApplyResult)
    (r : Except ApplyError FileBackup) (t : Files) : Prop :=
  match r with
  | .ok b => ∃ p, BackupOf links own b p ∧ b.originalContent.map .text = g p ∧
      goal = some (Function.update g p (some (.text b.newContent))) ∧
      Holds links own (Function.update g p (some (.text b.newContent))) t
  | .error e => e.partialResult = done ∧ Holds links own g t

lemma meets_editFailed {goal : Option (Path → Option Content)} {done : ApplyResult}
    {kind : ApplyErrorKind} (ht : Holds links own g t) :
    Meets (guarded Direct (refusing env)) (ownFiles links all own points)
      (EditDone links own g goal done) (.ret (.error ⟨kind, done⟩)) t :=
  meets_ret fun _ hrely => ⟨rfl, ht.stable hrely⟩

lemma writeEdit_meets {new : String} {original : Option String}
    {goal : Option (Path → Option Content)} {done : ApplyResult}
    (hown : ∀ p, filePlace links filePath = some p → p ∈ own) (ht : Holds links own g t)
    (hsaved : ∀ p, filePlace links filePath = some p → original.map .text = g p)
    (hgoal : ∀ p, filePlace links filePath = some p →
      goal = some (Function.update g p (some (.text new)))) :
    Meets (guarded Direct (refusing env)) (ownFiles links all own points)
      (EditDone links own g goal done) (writeEdit filePath original new done) t := by
  refine meets_write hown ht (fun p t' hplace hdirect ht' => ?_) fun e t' ht' => meets_editFailed ht'
  have hbackup : BackupOf links own ⟨filePath, original, new⟩ p := by
    refine ⟨hplace, hown p hplace, fun hnone => hdirect ?_⟩
    have hcreated : original = none := hnone
    rw [← hsaved p hplace, hcreated]
    rfl
  exact meets_ret fun t'' hrely =>
    ⟨p, hbackup, hsaved p hplace, hgoal p hplace, ht'.stable hrely⟩

lemma applyFullFile_meets {edit : FileEdit} {done : ApplyResult}
    (hown : ∀ p, filePlace links (joinPath cwd edit.file) = some p → p ∈ own)
    (ht : Holds links own g t) :
    Meets (guarded Direct (refusing env)) (ownFiles links all own points)
      (EditDone links own g (editTo links cwd .fullFile g edit) done)
      (applyFullFile edit (joinPath cwd edit.file) done) t := by
  have hgoal : ∀ p, filePlace links (joinPath cwd edit.file) = some p →
      editTo links cwd .fullFile g edit = some (Function.update g p (some (.text edit.new))) :=
    fun p hplace => by rw [editTo, hplace]
  refine meets_readToString hown ht (fun s p t' ht' hplace hs => ?_) (fun m t' ht' hnone => ?_)
    fun m t' ht' => meets_editFailed ht'
  · refine writeEdit_meets hown ht' (fun q hq => ?_) hgoal
    obtain rfl : p = q := Option.some.inj (hplace.symm.trans hq)
    exact hs.symm
  · refine meets_createDirAll ht' fun a t'' ht'' => ?_
    cases a with
    | error e => exact meets_editFailed ht''
    | ok _ => exact writeEdit_meets hown ht'' (fun q hq => (hnone q hq).symm) hgoal

lemma replaceOnce_meets {edit : FileEdit} {format : EditFormat} {done : ApplyResult}
    {content : String} (hformat : format ≠ .fullFile)
    (hplace : filePlace links (joinPath cwd edit.file) = some p) (hp : p ∈ own)
    (ht : Holds links own g t) (hcontent : g p = some (.text content)) :
    Meets (guarded Direct (refusing env)) (ownFiles links all own points)
      (EditDone links own g (editTo links cwd format g edit) done)
      (replaceOnce edit (joinPath cwd edit.file) format done content) t := by
  unfold replaceOnce
  split
  · exact meets_editFailed ht
  · next hold =>
    dsimp only
    split
    · split <;> exact meets_editFailed ht
    · next hzero =>
      split
      · exact meets_editFailed ht
      · next hmany =>
        have hone : matchCount content edit.old = 1 := by omega
        have honly : ∀ q, filePlace links (joinPath cwd edit.file) = some q → q = p :=
          fun q hq => Option.some.inj (hq.symm.trans hplace)
        refine writeEdit_meets (fun q hq => honly q hq ▸ hp) ht
          (fun q hq => by rw [honly q hq, hcontent]; rfl) fun q hq => ?_
        rw [honly q hq]
        cases format with
        | fullFile => exact absurd rfl hformat
        | unifiedDiff => simp [editTo, hplace, hcontent, hold, hone]
        | jsonOldNew => simp [editTo, hplace, hcontent, hold, hone]

lemma applyFindReplace_meets {edit : FileEdit} {format : EditFormat} {done : ApplyResult}
    (hformat : format ≠ .fullFile)
    (hown : ∀ p, filePlace links (joinPath cwd edit.file) = some p → p ∈ own)
    (ht : Holds links own g t) :
    Meets (guarded Direct (refusing env)) (ownFiles links all own points)
      (EditDone links own g (editTo links cwd format g edit) done)
      (applyFindReplace edit (joinPath cwd edit.file) format done) t :=
  meets_readToString hown ht
    (fun _ p _ ht' hplace hs => replaceOnce_meets hformat hplace (hown p hplace) ht' hs)
    (fun _ _ ht' _ => meets_editFailed ht') fun _ _ ht' => meets_editFailed ht'

lemma applyEdit_meets {edit : FileEdit} {format : EditFormat} {done : ApplyResult}
    (hown : ∀ p, filePlace links (joinPath cwd edit.file) = some p → p ∈ own)
    (ht : Holds links own g t) :
    Meets (guarded Direct (refusing env)) (ownFiles links all own points)
      (EditDone links own g (editTo links cwd format g edit) done)
      (applyEdit cwd format edit done) t := by
  unfold applyEdit
  split
  · exact meets_editFailed ht
  split
  · exact meets_editFailed ht
  cases format with
  | fullFile => exact applyFullFile_meets hown ht
  | jsonOldNew => exact applyFindReplace_meets (by decide) hown ht
  | unifiedDiff => exact applyFindReplace_meets (by decide) hown ht

/-- All edits written and logged, or the written ones logged. -/
def ApplyDone (links : Links) (own : Set Path) (f : Path → Option Content)
    (goal : Option (Path → Option Content)) (r : Except ApplyError ApplyResult) (t : Files) :
    Prop :=
  match r with
  | .ok res => ∃ g, Logged links own f res.modifiedFiles g ∧ goal = some g ∧ Holds links own g t
  | .error e => ∃ g, Logged links own f e.partialResult.modifiedFiles g ∧ Holds links own g t

lemma applyAll_meets {format : EditFormat} {edits : List FileEdit} (done : ApplyResult)
    (hedits : ∀ e ∈ edits, ∀ p, filePlace links (joinPath cwd e.file) = some p → p ∈ own)
    (ht : Holds links own g t) (hlog : Logged links own f done.modifiedFiles g) :
    Meets (guarded Direct (refusing env)) (ownFiles links all own points)
      (ApplyDone links own f (editsTo links cwd format edits g))
      (applyAll cwd format edits done) t := by
  induction edits generalizing done g t with
  | nil => exact meets_ret fun _ hrely => ⟨g, hlog, rfl, ht.stable hrely⟩
  | cons edit edits ih =>
      refine Meets.bind ((applyEdit_meets (hedits edit (by simp)) ht).mono fun r t' hr => ?_)
      cases r with
      | error e =>
          obtain ⟨hdone, ht'⟩ := hr
          exact meets_ret fun _ hrely => ⟨g, hdone ▸ hlog, ht'.stable hrely⟩
      | ok b =>
          obtain ⟨p, hbackup, hsaved, hgoal, ht'⟩ := hr
          have hrest := ih { done with modifiedFiles := done.modifiedFiles ++ [b] }
            (fun e he => hedits e (List.mem_cons_of_mem _ he)) ht' (hlog.concat hbackup hsaved)
          simpa [editsTo, hgoal] using hrest

/-- `apply` writes all its edits or reports exactly the ones it wrote, where no file is created
through a link. -/
theorem apply_meets {parsed : ParsedEdits}
    (hedits : ∀ e ∈ parsed.edits, ∀ p, filePlace links (joinPath cwd e.file) = some p → p ∈ own)
    (ht : Holds links own f t) :
    Meets (guarded Direct (refusing env)) (ownFiles links all own points)
      (ApplyDone links own f (editsTo links cwd parsed.format parsed.edits f))
      (apply parsed cwd) t :=
  applyAll_meets _ hedits ht .nil

end Spec

end Loker.DiffApplier
