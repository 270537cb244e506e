import Loker.AttemptNumbers
import Loker.Resumability
import Loker.ResumeDecision

/-! The execution of a resume: what comes before the run of each phase, how far the runs get, and when
every phase that is not completed is run. -/

namespace Loker.ResumedRuns

open FileTree TextOps Programs RunFiles RunLoad RunOps Dispatch Strategies PhaseRunner Resume
  RunLayout CrashHistories Resumability ResumeDecision

variable {B : Type} [RunFormat B] {runDir : Path} {p runId lockBody : String} {w : World B}
  {script : Script} {eng : Engines} {backends : List String} {action : PhaseAction}

section Preparation

/-- What comes before the run of a phase: its archive and its lock. -/
def preparePhase (runDir : Path) (p lockBody : String) : PhaseAction → Run B ResumeError Unit
  | .skip => pure ()
  | .resume n => do
      archiveCurrentAttempt runDir p (previousAttempt n)
      acquireLock runDir p lockBody
  | .runFresh => acquireLock runDir p lockBody

def attemptOf : PhaseAction → ℕ
  | .resume n => n
  | _ => 0

lemma executeAction_eq {cfg : PhaseConfig} {inp : PhaseInputs} (h : action ≠ .skip) :
    executeAction (B := B) eng cfg inp lockBody action =
      preparePhase inp.runDir cfg.phase lockBody action >>= fun _ =>
        lockedRun eng cfg inp (attemptOf action) := by
  cases action with
  | skip => exact absurd rfl h
  | runFresh => rfl
  | resume n => exact (exceptBind_assoc _ _ _).symm

/-- Nothing is in the way of the archive of the attempt. -/
structure ArchiveClear (t : Disk B) (runDir : Path) (p : String) (n : ℕ) : Prop where
  not_inside : p ≠ "attempts"
  attempts : fileAt t (runDir ++ ["attempts"]) = none
  phase : fileAt t (attemptsOf runDir p) = none
  free : occupied t (archivePath runDir p n) = false

/-- Nothing is in the way of the phase's lock. -/
structure LockClear (t : Disk B) (runDir : Path) (p : String) : Prop where
  locks : fileAt t (runDir ++ ["locks"]) = none
  lock : isDir t (lockOf runDir p) = false

/-- The disk lets the phase start: its name is valid, its directory can go to the archive when an
attempt is resumed, and its lock can be taken. -/
structure Startable (t : Disk B) (runDir : Path) (p : String) (action : PhaseAction) : Prop where
  valid : validatePhaseName p = true
  there : isDir t runDir = true
  archive : ∀ n, action = .resume n → occupied t (runDir ++ [p]) = true →
    ArchiveClear t runDir p (previousAttempt n)
  -- the directory of a phase `locks` is archived before its lock is taken
  lock : (p = "locks" → action = .runFresh) → LockClear t runDir p

omit [RunFormat B] in
lemma not_blocked_attempts {t : Disk B} (hdir : isDir t runDir = true)
    (hattempts : fileAt t (runDir ++ ["attempts"]) = none)
    (hphase : fileAt t (attemptsOf runDir p) = none) : ¬ blocked t (attemptsOf runDir p) := by
  rintro ⟨q, hq, hfile⟩
  have hpre : q <+: runDir ++ ["attempts"] ++ [p] := by
    rw [List.append_assoc]
    exact (List.mem_inits q _).mp hq
  obtain ⟨b, hb⟩ := Option.isSome_iff_exists.mp hfile
  rcases List.prefix_concat_iff.mp hpre with rfl | hpre
  · rw [List.append_assoc] at hb
    rw [attemptsOf] at hphase
    rw [List.cons_append, List.nil_append] at hb
    rw [hphase] at hb
    cases hb
  rcases List.prefix_concat_iff.mp hpre with rfl | hpre
  · rw [hattempts] at hb
    cases hb
  · have hnode := isDir_iff.mp hdir
    have heq := eq_of_isPrefix_of_file hpre hb (by simp [hnode])
    rw [heq, fileAt_eq_some, hnode] at hb
    cases hb

/-- The phase's directory is in the archive, and nothing else has moved. -/
structure Archived (runDir : Path) (p : String) (t t' : Disk B) : Prop where
  kept : ∀ q, ¬ runDir ++ [p] <+: q → ¬ runDir ++ ["attempts"] <+: q → ¬ q <+: runDir →
    t'.node q = t.node q
  there : isDir t' runDir = true
  moved : ∀ q, runDir ++ [p] <+: q → t'.node q = none

omit [RunFormat B] in
/-- With nothing in the way the phase's directory moves into the archive, and the rest of the run
directory stays as it is. -/
lemma ArchiveClear.moves {t : Disk B} {n : ℕ} (h : ArchiveClear t runDir p n) (hname : IsName p)
    (hdir : isDir t runDir = true) (hthere : occupied t (runDir ++ [p]) = true) :
    ∃ t₁ t₂, createDirAll t (attemptsOf runDir p) = some t₁ ∧
      occupied t₁ (archivePath runDir p n) = false ∧
      rename t₁ (runDir ++ [p]) (archivePath runDir p n) = some t₂ ∧ Archived runDir p t t₂ := by
  have hpath : archivePath runDir p n = runDir ++ ["attempts", p, n.repr] := archivePath_eq hname n
  have hcreate : createDirAll t (attemptsOf runDir p) = some (addDirs t (attemptsOf runDir p)) :=
    createDirAll_eq_some.mpr ⟨not_blocked_attempts hdir h.attempts h.phase, rfl⟩
  have hshort : ¬ archivePath runDir p n <+: attemptsOf runDir p := by
    intro hle
    have hlen := hle.length_le
    simp [hpath, attemptsOf] at hlen
  have hoccupied : occupied (addDirs t (attemptsOf runDir p)) (archivePath runDir p n) = false := by
    rw [occupied, createDirAll_node hcreate, if_neg hshort]
    exact h.free
  have hinside : ¬ runDir ++ [p] <+: archivePath runDir p n := by
    rw [hpath, List.prefix_append_right_inj, List.cons_prefix_cons]
    exact fun hle => h.not_inside hle.1
  have hmovable : Movable (addDirs t (attemptsOf runDir p)) (runDir ++ [p]) (archivePath runDir p n) := by
    refine ⟨?_, hoccupied, ?_, hinside⟩
    · have hnode : t.node (runDir ++ [p]) ≠ none := by
        intro hnone
        simp [occupied, hnone] at hthere
      rw [occupied, createDirAll_keeps hcreate hnode]
      exact hthere
    · rw [hpath, List.dropLast_append_of_ne_nil (by simp)]
      exact createDirAll_isDir hcreate
  have hrename := rename_eq_some.mpr ⟨hmovable, rfl⟩
  have hother : ∀ q, ¬ runDir ++ ["attempts"] <+: q → ¬ archivePath runDir p n <+: q := by
    intro q hq hle
    refine hq (List.IsPrefix.trans ?_ hle)
    rw [hpath, List.prefix_append_right_inj]
    simp
  refine ⟨_, _, hcreate, hoccupied, hrename, fun q hsrc hattempts hshort => ?_, ?_, fun q hsrc => ?_⟩
  · rw [rename_node hrename hsrc (hother q hattempts), createDirAll_node hcreate, if_neg]
    intro hle
    have hle : q <+: runDir ++ ["attempts"] ++ [p] := by
      rw [List.append_assoc]
      exact hle
    rcases List.prefix_concat_iff.mp hle with rfl | hle
    · exact hattempts (List.prefix_append _ _)
    rcases List.prefix_concat_iff.mp hle with rfl | hle
    · exact hattempts List.prefix_rfl
    · exact hshort hle
  · have hlong : ∀ s rest, ¬ runDir ++ s :: rest <+: runDir := by
      intro s rest hle
      have hlen := hle.length_le
      simp at hlen
    have hkept := createDirAll_isDir_of hcreate hdir
    rw [isDir_iff] at hkept ⊢
    rw [rename_node hrename (hlong p []) (hpath ▸ hlong _ _), hkept]
  · have hdst : ¬ archivePath runDir p n <+: q := by
      refine hother q fun hle => h.not_inside ?_
      have heq := (List.prefix_of_prefix_length_le hsrc hle (by simp)).eq_of_length (by simp)
      simpa using heq
    obtain ⟨_, hmoved⟩ := rename_eq_some.mp hrename
    rw [← hmoved]
    simp [moveTree, hdst, hsrc]

lemma archive_eval {n : ℕ} (hname : IsName p) (hthere : occupied w.disk (runDir ++ [p]) = true) :
    (eval (handle script) (archiveCurrentAttempt (B := B) runDir p n) w).2 =
      (eval (handle script) (createDirOr .io (attemptsOf runDir p) >>= fun _ =>
        moveAttempt (runDir ++ [p]) (archivePath runDir p n) : Run B ResumeError Unit) w).2 := by
  have hsrc : join runDir p = runDir ++ [p] := join_of_isName hname
  have hparent : join (runDir ++ ["attempts"]) p = attemptsOf runDir p := by
    rw [join_of_isName hname, List.append_assoc]
    rfl
  rw [archive_there (hsrc ▸ hthere), hsrc, hparent,
    show archiveDest runDir p n = archivePath runDir p n from rfl]

/-- The directory only goes to the archive when nothing is in the way. -/
lemma clear_of_archive {n : ℕ} (hname : IsName p) (hthere : occupied w.disk (runDir ++ [p]) = true)
    (h : (eval (handle script) (archiveCurrentAttempt runDir p n) w).2.1 = .ok ()) :
    ArchiveClear w.disk runDir p n := by
  rw [archive_eval hname hthere] at h
  cases hcreate : createDirAll w.disk (attemptsOf runDir p) with
  | none =>
      rw [createDirOr_failed hcreate] at h
      cases h
  | some t₁ =>
      rw [createDirOr_eval hcreate] at h
      by_cases htaken : occupied t₁ (archivePath runDir p n) = true
      · rw [moveAttempt_taken (w := ⟨t₁, w.log⟩) htaken] at h
        cases h
      rw [Bool.not_eq_true] at htaken
      rw [moveAttempt_free (w := ⟨t₁, w.log⟩) htaken] at h
      cases hrename : rename t₁ (runDir ++ [p]) (archivePath runDir p n) with
      | none =>
          simp only [hrename] at h
          cases h
      | some t₂ =>
          obtain ⟨hmovable, _⟩ := rename_eq_some.mp hrename
          obtain ⟨hblocked, _⟩ := createDirAll_eq_some.mp hcreate
          refine ⟨?_, not_blocked hblocked ?_, not_blocked hblocked List.prefix_rfl, ?_⟩
          · rintro rfl
            refine hmovable.not_inside ?_
            rw [archivePath_eq hname, List.prefix_append_right_inj]
            simp
          · simp [attemptsOf, List.prefix_append_right_inj]
          · have hshort : ¬ archivePath runDir p n <+: attemptsOf runDir p := by
              intro hle
              have hlen := hle.length_le
              simp [archivePath_eq hname, attemptsOf] at hlen
            rwa [occupied, createDirAll_node hcreate, if_neg hshort] at htaken

/-- With nothing in the way the phase's directory goes to the archive. -/
lemma ArchiveClear.archives (script : Script) {n : ℕ} (h : ArchiveClear w.disk runDir p n) (hname : IsName p)
    (hdir : isDir w.disk runDir = true) (hthere : occupied w.disk (runDir ++ [p]) = true) :
    ∃ t', (eval (handle script) (archiveCurrentAttempt runDir p n) w).2 = (.ok (), ⟨t', w.log⟩) ∧
      Archived runDir p w.disk t' := by
  obtain ⟨t₁, t₂, hcreate, hfree, hrename, hmoved⟩ := h.moves hname hdir hthere
  refine ⟨t₂, ?_, hmoved⟩
  rw [archive_eval hname hthere, createDirOr_eval hcreate,
    moveAttempt_free (w := ⟨t₁, w.log⟩) hfree]
  simp only [hrename]
  rfl

omit [RunFormat B] in
/-- The archive frees the place of the lock of a phase `locks`, and leaves every other lock alone. -/
lemma Archived.lockClear_iff {t t' : Disk B} (h : Archived runDir p t t') :
    LockClear t' runDir p ↔ p ≠ "locks" → LockClear t runDir p := by
  have hlong : ∀ s rest, ¬ runDir ++ s :: rest <+: runDir := by
    intro s rest hle
    have hlen := hle.length_le
    simp at hlen
  by_cases hp : p = "locks"
  · subst hp
    have hlocks := h.moved (runDir ++ ["locks"]) List.prefix_rfl
    have hlock := h.moved (lockOf runDir "locks") (by simp [lockOf, List.prefix_append_right_inj])
    exact ⟨fun _ hne => absurd rfl hne,
      fun _ => ⟨fileAt_eq_none.mpr (Or.inl hlocks), by simp [isDir, hlock]⟩⟩
  · have hlocks : t'.node (runDir ++ ["locks"]) = t.node (runDir ++ ["locks"]) :=
      h.kept _ (by simp [List.prefix_append_right_inj, hp]) (by simp [List.prefix_append_right_inj])
        (hlong _ _)
    have hlock : t'.node (lockOf runDir p) = t.node (lockOf runDir p) :=
      h.kept _ (by simp [lockOf, List.prefix_append_right_inj, hp])
        (by simp [lockOf, List.prefix_append_right_inj]) (hlong _ _)
    constructor
    · rintro ⟨h₁, h₂⟩ _
      exact ⟨by rwa [← fileAt_congr hlocks], by rwa [isDir, ← hlock]⟩
    · intro hclear
      obtain ⟨h₁, h₂⟩ := hclear hp
      exact ⟨by rwa [fileAt_congr hlocks], by rwa [isDir, hlock]⟩

lemma acquire_of_prepare {n : ℕ}
    (h : (eval (handle script) (preparePhase runDir p lockBody (.resume n)) w).2.1 = .ok ()) :
    ∃ w₁, (eval (handle script) (archiveCurrentAttempt runDir p (previousAttempt n)) w).2 =
        (.ok (), w₁) ∧
      (eval (handle script) (acquireLock runDir p lockBody) w₁).2.1 = .ok () := by
  rw [preparePhase] at h
  rcases harchive : (eval (handle script)
    (archiveCurrentAttempt (B := B) runDir p (previousAttempt n)) w).2 with ⟨r, w₁⟩
  cases r with
  | error e =>
      rw [eval_bind_error harchive] at h
      cases h
  | ok u =>
      rw [eval_bind_ok harchive] at h
      exact ⟨w₁, harchive, h⟩

/-- A phase with a directory starts once that is in the archive. -/
lemma prepare_there_iff {n : ℕ} (hthere : occupied w.disk (runDir ++ [p]) = true) :
    (eval (handle script) (preparePhase runDir p lockBody (.resume n)) w).2.1 = .ok () ↔
      Startable w.disk runDir p (.resume n) := by
  have hdir : isDir w.disk runDir = true := by
    refine isDir_iff.mpr (w.disk.node_parent (s := p) fun hnone => ?_)
    simp [occupied, hnone] at hthere
  constructor
  · intro h
    obtain ⟨w₁, harchive, hacquire⟩ := acquire_of_prepare h
    obtain ⟨hvalid, _, hlocks, hlock⟩ := acquireLock_ok_iff.mp hacquire
    have hname := isName_of_valid hvalid
    have hclear := clear_of_archive hname hthere (congrArg Prod.fst harchive)
    obtain ⟨t', heval, harchived⟩ := hclear.archives script hname hdir hthere
    rw [harchive] at heval
    cases heval
    refine ⟨hvalid, hdir, fun m hm _ => ?_, fun hp => harchived.lockClear_iff.mp ⟨hlocks, hlock⟩ ?_⟩
    · cases hm
      exact hclear
    · intro heq
      cases hp heq
  · rintro ⟨hvalid, _, harchive, hlock⟩
    have hname := isName_of_valid hvalid
    obtain ⟨t', heval, harchived⟩ :=
      (harchive n rfl hthere).archives script hname hdir hthere
    obtain ⟨hlocks, hfree⟩ := harchived.lockClear_iff.mpr fun hne => hlock fun heq => absurd heq hne
    rw [preparePhase, eval_bind_ok heval]
    exact acquireLock_ok_iff.mpr ⟨hvalid, harchived.there, hlocks, hfree⟩

/-- A phase without a directory has nothing to archive. -/
lemma prepare_absent_iff {n : ℕ} (habsent : occupied w.disk (runDir ++ [p]) = false) :
    (eval (handle script) (preparePhase runDir p lockBody (.resume n)) w).2.1 = .ok () ↔
      Startable w.disk runDir p (.resume n) := by
  have hgone : p = "locks" → LockClear w.disk runDir p := by
    rintro rfl
    have hnone : w.disk.node (runDir ++ ["locks"]) = none := by
      simpa [occupied] using habsent
    have hbelow : w.disk.node (lockOf runDir "locks") = none :=
      node_below_none (by simp [lockOf, List.prefix_append_right_inj]) hnone
    exact ⟨fileAt_eq_none.mpr (Or.inl hnone), by simp [isDir, hbelow]⟩
  have harchive : ∀ m, validatePhaseName p = true →
      (eval (handle script) (archiveCurrentAttempt runDir p m) w).2 = (.ok (), w) := by
    intro m hvalid
    exact archive_absent (by rwa [join_of_isName (isName_of_valid hvalid)])
  constructor
  · intro h
    obtain ⟨w₁, heval, hacquire⟩ := acquire_of_prepare h
    have hvalid := (acquireLock_ok_iff.mp hacquire).1
    rw [harchive _ hvalid] at heval
    cases heval
    obtain ⟨_, hdir, hlocks, hlock⟩ := acquireLock_ok_iff.mp hacquire
    refine ⟨hvalid, hdir, fun m _ hthere => ?_, fun _ => ⟨hlocks, hlock⟩⟩
    rw [habsent] at hthere
    cases hthere
  · rintro ⟨hvalid, hdir, _, hlock⟩
    have hclear : LockClear w.disk runDir p := by
      by_cases hp : p = "locks"
      · exact hgone hp
      · exact hlock fun heq => absurd heq hp
    rw [preparePhase, eval_bind_ok (harchive _ hvalid)]
    exact acquireLock_ok_iff.mpr ⟨hvalid, hdir, hclear.locks, hclear.lock⟩

/-- A phase gets to its run exactly when the disk lets it start. -/
lemma prepare_ok_iff (script : Script) (lockBody : String) (hrun : action ≠ .skip) :
    (eval (handle script) (preparePhase runDir p lockBody action) w).2.1 = .ok () ↔
      Startable w.disk runDir p action := by
  cases action with
  | skip => exact absurd rfl hrun
  | runFresh =>
      refine acquireLock_ok_iff.trans ⟨fun h => ?_, fun h => ?_⟩
      · exact ⟨h.1, h.2.1, fun n hn => (by cases hn), fun _ => ⟨h.2.2.1, h.2.2.2⟩⟩
      · obtain ⟨hlocks, hlock⟩ := h.lock fun _ => rfl
        exact ⟨h.valid, h.there, hlocks, hlock⟩
  | resume n =>
      by_cases hthere : occupied w.disk (runDir ++ [p]) = true
      · exact prepare_there_iff hthere
      · exact prepare_absent_iff (by simpa using hthere)

end Preparation

section Execution

variable {cfg : PhaseConfig} {inp : PhaseInputs} {ε ρ : Type} {q : Path}

/-- The error is not one of a phase's run. -/
def Unphased (r : Except ResumeError ρ) : Prop := ∀ e, r ≠ .error (.phase e)

lemma unphased_error {e : ResumeError} (h : ∀ e', e ≠ .phase e') :
    Unphased (.error e : Except ResumeError ρ) :=
  fun e' he => h e' (Except.error.inj he)

omit [RunFormat B] in
lemma createDirOr_yields {Q : Except ε ρ → Prop} {wrap : String → ε} {f : Unit → Run B ε ρ}
    (hwrap : ∀ message, Q (.error (wrap message))) (hf : Yields Q (f ())) :
    Yields Q (createDirOr wrap q >>= f : Run B ε ρ) := by
  intro answer
  cases answer with
  | ok u => exact hf
  | error message => exact hwrap message

omit [RunFormat B] in
lemma orThrow_yields {Q : Except ε Unit → Prop} {wrap : String → ε} {answer : Except String Unit}
    (hwrap : ∀ message, Q (.error (wrap message))) (hok : Q (.ok ())) :
    Yields Q (orThrow wrap answer : Run B ε Unit) := by
  cases answer with
  | ok u => exact hok
  | error message => exact hwrap message

lemma unphased_ok {x : ρ} : Unphased (.ok x : Except ResumeError ρ) := fun e he => by cases he

omit [RunFormat B] in
lemma op_yields {Q : Except ε ρ → Prop} {o : Op B} {f : Answer B o → Run B ε ρ}
    (h : ∀ a, Yields Q (f a)) : Yields Q (op (S := RunSig B) o >>= f : Run B ε ρ) := h

omit [RunFormat B] in
lemma archive_unphased {n : ℕ} : Yields Unphased (archiveCurrentAttempt (B := B) runDir p n) := by
  have hio : ∀ message, Unphased (.error (.io message) : Except ResumeError Unit) :=
    fun message => unphased_error fun e' he => by cases he
  refine op_yields fun there => ?_
  split
  · refine createDirOr_yields hio (op_yields fun taken => ?_)
    split
    · exact hio _
    · exact op_yields fun answer => orThrow_yields hio unphased_ok
  · exact unphased_ok

lemma acquireLock_unphased : Yields Unphased (acquireLock (B := B) runDir p lockBody) := by
  have hio : ∀ message, Unphased (.error (.lockIo message) : Except ResumeError Unit) :=
    fun message => unphased_error fun e' he => by cases he
  unfold acquireLock
  split
  · refine op_yields fun there => ?_
    split
    · refine op_yields fun busy => ?_
      split
      · exact unphased_error fun e' he => by cases he
      · exact createDirOr_yields hio (op_yields fun answer => orThrow_yields hio unphased_ok)
    · exact hio _
  · exact unphased_error fun e' he => by cases he

/-- What comes before the run of a phase ends in no error of a phase. -/
lemma prepare_unphased : Yields Unphased (preparePhase (B := B) runDir p lockBody action) := by
  cases action with
  | skip => exact unphased_ok
  | runFresh => exact acquireLock_unphased
  | resume n =>
      refine Yields.exceptBind (archive_unphased.mono fun r hr e he => ?_) fun _ => acquireLock_unphased
      subst he
      exact unphased_error fun e' he' => hr e' (congrArg Except.error he')

/-- The run itself only ends in an error of its phase. -/
lemma lockedRun_phase {n : ℕ} :
    Yields (fun r : Except ResumeError Unit => ∀ e, r = .error e → ∃ e', e = .phase e')
      (lockedRun (B := B) eng cfg inp n) := by
  refine Yields.exceptBind ?_ fun result => ?_
  · refine Yields.bind (p := PhaseRunner.run eng cfg inp n) (yields_true _) fun r _ e he => ?_
    cases he
  · intro answer
    cases result with
    | ok outcome => exact fun e he => by cases he
    | error e' =>
        intro e he
        cases he
        exact ⟨e', rfl⟩

/-- An action ends in an error of its preparation, or it gets to the run of its phase. -/
lemma executeAction_result (script : Script) (eng : Engines) (lockBody : String) (cfg : PhaseConfig)
    (inp : PhaseInputs) (w : World B) (hrun : action ≠ .skip) :
    (∃ e, (eval (handle script) (preparePhase (B := B) inp.runDir cfg.phase lockBody action) w).2.1 =
        .error e ∧ (∀ e', e ≠ .phase e') ∧
        (eval (handle script) (executeAction eng cfg inp lockBody action) w).2.1 = .error e) ∨
      (eval (handle script) (preparePhase (B := B) inp.runDir cfg.phase lockBody action) w).2.1 =
        .ok () ∧ ∀ e, (eval (handle script) (executeAction eng cfg inp lockBody action) w).2.1 =
          .error e → ∃ e', e = .phase e' := by
  rw [executeAction_eq hrun]
  have hunphased : Unphased (eval (handle script)
      (preparePhase (B := B) inp.runDir cfg.phase lockBody action) w).2.1 :=
    eval_yields prepare_unphased
  rcases hprepare : (eval (handle script)
    (preparePhase (B := B) inp.runDir cfg.phase lockBody action) w).2 with ⟨r, w₁⟩
  rw [hprepare] at hunphased
  cases r with
  | error e =>
      refine Or.inl ⟨e, congrArg Prod.fst hprepare, fun e' he => hunphased e' (congrArg Except.error he), ?_⟩
      rw [eval_bind_error hprepare]
  | ok u =>
      refine Or.inr ⟨congrArg Prod.fst hprepare, ?_⟩
      rw [eval_bind_ok hprepare]
      exact eval_yields lockedRun_phase

/-- How the plan's actions end, and where. -/
def executed (script : Script) (eng : Engines) (lockBody : String) (backends : List String)
    (runDir : Path) (runId : String) (actions : List (PhaseConfig × PhaseAction)) (w : World B) :
    Except ResumeError Unit × World B :=
  (eval (handle script) (executePlan eng lockBody backends runDir runId actions) w).2

variable {before after actions : List (PhaseConfig × PhaseAction)} {x : PhaseConfig × PhaseAction}

lemma executePlan_append :
    (executePlan eng lockBody backends runDir runId (before ++ after) : Run B ResumeError Unit) =
      executePlan eng lockBody backends runDir runId before >>= fun _ =>
        executePlan eng lockBody backends runDir runId after := by
  induction before with
  | nil => rfl
  | cons x before ih =>
      show (executeAction eng x.1 _ lockBody x.2 >>= fun _ => executePlan eng lockBody backends runDir
        runId (before ++ after) : Run B ResumeError Unit) = _
      rw [ih]
      exact (exceptBind_assoc _ _ _).symm

lemma executed_append_ok
    (h : (executed script eng lockBody backends runDir runId before w).1 = .ok ()) :
    executed script eng lockBody backends runDir runId (before ++ after) w =
      executed script eng lockBody backends runDir runId after
        (executed script eng lockBody backends runDir runId before w).2 := by
  rw [executed, executePlan_append]
  exact eval_bind_ok (Prod.ext h rfl)

lemma executed_append_error {e : ResumeError}
    (h : (executed script eng lockBody backends runDir runId before w).1 = .error e) :
    (executed script eng lockBody backends runDir runId (before ++ after) w).1 = .error e := by
  rw [executed, executePlan_append, eval_bind_error (Prod.ext h rfl)]

/-- How one action of the plan ends, and where. -/
def ended (script : Script) (eng : Engines) (lockBody : String) (backends : List String)
    (runDir : Path) (runId : String) (x : PhaseConfig × PhaseAction) (w : World B) :
    Except ResumeError Unit × World B :=
  (eval (handle script) (executeAction eng x.1 (resumeInputs backends runDir runId x.1.phase)
    lockBody x.2) w).2

lemma executed_singleton :
    executed script eng lockBody backends runDir runId [x] w =
      ended script eng lockBody backends runDir runId x w := by
  rcases hended : ended script eng lockBody backends runDir runId x w with ⟨r, w₁⟩
  cases r with
  | error e => exact eval_bind_error hended
  | ok u => exact eval_bind_ok hended

/-- A plan that ends in an error has an action that does, and all before it end well. -/
lemma exists_failing {e : ResumeError}
    (h : (executed script eng lockBody backends runDir runId actions w).1 = .error e) :
    ∃ before x after, actions = before ++ x :: after ∧
      (executed script eng lockBody backends runDir runId before w).1 = .ok () ∧
      (ended script eng lockBody backends runDir runId x
        (executed script eng lockBody backends runDir runId before w).2).1 = .error e := by
  induction actions using List.reverseRecOn with
  | nil => cases h
  | append_singleton actions x ih =>
      rcases hbefore : (executed script eng lockBody backends runDir runId actions w).1 with e' | u
      · rw [executed_append_error hbefore] at h
        cases h
        obtain ⟨before, y, after, rfl, hok, hfailed⟩ := ih hbefore
        exact ⟨before, y, after ++ [x], by simp, hok, hfailed⟩
      · rw [executed_append_ok hbefore, executed_singleton] at h
        exact ⟨actions, x, [], rfl, hbefore, h⟩

/-- An action before the end of a plan ends well when the plan does, and otherwise as it does. -/
lemma executed_through
    (h : (executed script eng lockBody backends runDir runId before w).1 = .ok ()) {e : ResumeError}
    (hfailed : (ended script eng lockBody backends runDir runId x
      (executed script eng lockBody backends runDir runId before w).2).1 = .error e) :
    (executed script eng lockBody backends runDir runId (before ++ x :: after) w).1 = .error e := by
  have hsplit : before ++ x :: after = before ++ [x] ++ after := by simp
  rw [hsplit]
  refine executed_append_error ?_
  rw [executed_append_ok h, executed_singleton]
  exact hfailed

end Execution

section Complete

variable {state : RunState} {phases : List String} {before after : List (PhaseConfig × PhaseAction)}
  {x : PhaseConfig × PhaseAction}

/-- The phase's run is called once the actions before it have ended well, or the run of a phase before
it has failed. -/
def CalledOrStopped (script : Script) (eng : Engines) (lockBody : String) (backends : List String)
    (runDir : Path) (runId : String) (w : World B) (before : List (PhaseConfig × PhaseAction))
    (x : PhaseConfig × PhaseAction) : Prop :=
  ((executed script eng lockBody backends runDir runId before w).1 = .ok () ∧
    (eval (handle script) (preparePhase (B := B) runDir x.1.phase lockBody x.2)
      (executed script eng lockBody backends runDir runId before w).2).2.1 = .ok ()) ∨
    ∃ e, (executed script eng lockBody backends runDir runId before w).1 = .error (.phase e)

/-- Each phase that the actions get to, up to the last one, can start where they get to it. -/
def AllStart (script : Script) (eng : Engines) (lockBody : String) (backends : List String)
    (runDir : Path) (runId : String) (w : World B) (actions : List (PhaseConfig × PhaseAction)) :
    Prop :=
  ∀ before x after, actions = before ++ x :: after → x.2 ≠ .skip →
    (executed script eng lockBody backends runDir runId before w).1 = .ok () →
    Startable (executed script eng lockBody backends runDir runId before w).2.disk runDir x.1.phase x.2

/-- The calls get as far as the disk lets the phases start. -/
lemma calledOrStopped_iff (hrun : x.2 ≠ .skip) :
    CalledOrStopped script eng lockBody backends runDir runId w before x ↔
      AllStart script eng lockBody backends runDir runId w (before ++ [x]) := by
  constructor
  · intro h pre y post heq hne hok
    rcases List.eq_nil_or_concat post with rfl | ⟨rest, z, rfl⟩
    · obtain ⟨rfl, hx⟩ := List.append_inj' heq rfl
      obtain rfl := List.singleton_inj.mp hx
      rcases h with ⟨_, hprepare⟩ | ⟨e, he⟩
      · exact (prepare_ok_iff script lockBody hne).mp hprepare
      · rw [hok] at he
        cases he
    · have hbefore : before = pre ++ y :: rest := by
        rw [List.concat_eq_append, ← List.cons_append, ← List.append_assoc] at heq
        exact (List.append_inj' heq rfl).1
      rcases executeAction_result script eng lockBody y.1
        (resumeInputs backends runDir runId y.1.phase)
        (executed script eng lockBody backends runDir runId pre w).2 hne with
        ⟨e, _, hunphased, hended⟩ | ⟨hprepare, _⟩
      · have hfailed : (executed script eng lockBody backends runDir runId before w).1 = .error e := by
          rw [hbefore]
          exact executed_through hok hended
        rcases h with ⟨hends, _⟩ | ⟨e', he'⟩
        · rw [hfailed] at hends
          cases hends
        · rw [hfailed] at he'
          cases he'
          exact absurd rfl (hunphased e')
      · exact (prepare_ok_iff script lockBody hne).mp hprepare
  · intro hall
    rcases hbefore : (executed script eng lockBody backends runDir runId before w).1 with e | u
    · obtain ⟨pre, y, post, rfl, hok, hended⟩ := exists_failing hbefore
      have hne : y.2 ≠ .skip := by
        intro hskip
        have hended : (eval (handle script) (executeAction eng y.1
            (resumeInputs backends runDir runId y.1.phase) lockBody y.2) _).2.1 = .error e := hended
        rw [hskip] at hended
        cases hended
      have hstart := hall pre y (post ++ [x]) (by simp) hne hok
      have hprepare := (prepare_ok_iff script lockBody hne).mpr hstart
      rcases executeAction_result script eng lockBody y.1
        (resumeInputs backends runDir runId y.1.phase)
        (executed script eng lockBody backends runDir runId pre w).2 hne with
        ⟨e', herror, _⟩ | ⟨_, hphase⟩
      · have hprepare : (eval (handle script) (preparePhase (B := B) runDir y.1.phase lockBody y.2)
            (executed script eng lockBody backends runDir runId pre w).2).2.1 = .error e' := herror
        rw [(prepare_ok_iff script lockBody hne).mpr hstart] at hprepare
        cases hprepare
      · obtain ⟨e', rfl⟩ := hphase e hended
        exact Or.inr ⟨e', hbefore⟩
    · exact Or.inl ⟨hbefore, (prepare_ok_iff script lockBody hrun).mpr (hall before x [] rfl hrun hbefore)⟩

/-- A phase whose run is called: the resume gets to it, with the phase's lock held. -/
lemma called_reaches (hrun : x.2 ≠ .skip)
    (hbefore : (executed script eng lockBody backends runDir runId before w).1 = .ok ())
    (hprepare : (eval (handle script) (preparePhase (B := B) runDir x.1.phase lockBody x.2)
      (executed script eng lockBody backends runDir runId before w).2).2.1 = .ok ()) :
    ∃ tr w', Steps (following (handle script))
      (executePlan eng lockBody backends runDir runId (before ++ x :: after)) w tr
      (lockedRun eng x.1 (resumeInputs backends runDir runId x.1.phase) (attemptOf x.2) >>= fun _ =>
        executePlan eng lockBody backends runDir runId after : Run B ResumeError Unit) w' := by
  have hfirst := eval_steps_bind (p := executePlan eng lockBody backends runDir runId before)
    (f := fun _ => executePlan eng lockBody backends runDir runId (x :: after)) hbefore
  have hsecond := eval_steps_bind (p := preparePhase runDir x.1.phase lockBody x.2)
    (f := fun _ => (lockedRun eng x.1 (resumeInputs backends runDir runId x.1.phase) (attemptOf x.2) >>=
      fun _ => executePlan eng lockBody backends runDir runId after : Run B ResumeError Unit)) hprepare
  have haction : (executePlan eng lockBody backends runDir runId (x :: after) : Run B ResumeError Unit) =
      preparePhase runDir x.1.phase lockBody x.2 >>= fun _ =>
        (lockedRun eng x.1 (resumeInputs backends runDir runId x.1.phase) (attemptOf x.2) >>=
          fun _ => executePlan eng lockBody backends runDir runId after) := by
    show (executeAction eng x.1 (resumeInputs backends runDir runId x.1.phase) lockBody x.2 >>= fun _ =>
      executePlan eng lockBody backends runDir runId after : Run B ResumeError Unit) = _
    rw [executeAction_eq hrun]
    exact exceptBind_assoc _ _ _
  rw [executePlan_append]
  rw [← haction] at hsecond
  exact ⟨_, _, hfirst.trans hsecond⟩

/-- Every phase of the workflow is completed, or its run is called after those before it, unless one of
these fails. -/
def ResumesAll (script : Script) (eng : Engines) (lockBody : String) (backends : List String)
    (runDir : Path) (runId : String) (w : World B) (state : RunState) (phases : List String)
    (decision : Decision) : Prop :=
  ∀ p ∈ phases, ¬ CompletedIn state p → ∃ before x after, decision.actions = before ++ x :: after ∧
    x.1.phase = p ∧ x.2 ≠ .skip ∧ CalledOrStopped script eng lockBody backends runDir runId w before x

/-- A run directory whose phase `design` was started and then left. -/
def leftDesign : World Doc :=
  ⟨AttemptNumbers.withMarker "design.started.0" (.started ⟨"design", 0⟩), [.started ⟨"design", 0⟩]⟩

def designStarted : RunState := ⟨"r1", [], [], [("design", .started)], none⟩

end Complete

end Loker.ResumedRuns
