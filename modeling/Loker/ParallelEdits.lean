import Loker.EditRetry

/-! Edit steps of one level that run at the same time in one working directory. -/

namespace Loker.ParallelEdits

open FileTree SymbolicLinks Programs TextOps EditFiles DiffApplier EditRetry

inductive StepFailureKind where
  | timeout
  | backendError
  | editFailed
  | verifyFailed
  deriving DecidableEq, Repr

section Commands

def defaultVerifyMaxOutputBytes : ℕ := 1048576

def stepErrRawTruncBytes : ℕ := 4096

def truncateForPrompt (s : String) (max : ℕ) : String :=
  if s.utf8ByteSize ≤ max then s else truncateUtf8 s max ++ "... [truncated]"

def applyCommandWrapper (cmd : String) (wrapper : Option String) : String :=
  match wrapper with
  | some w =>
      let escaped := if contains w "'\x7bcmd\x7d'" then replaceAll cmd "'" "'\\''" else cmd
      replaceAll w "\x7bcmd\x7d" escaped
  | none => cmd

/-- The format command runs inside the verify command, between apply and verify. -/
def composeVerify (format verify : Option String) : Option String :=
  match format, verify with
  | some f, some v => some ("(" ++ f ++ ") || true && (" ++ v ++ ")")
  | none, some v => some v
  | _, none => none

end Commands

/-- A step that applies edits, once its backend has answered. Its validation, where it has one,
gives a verdict on the step's text and works on no file. -/
structure EditStep where
  raw : String
  format : Option String
  verify : Option String
  fixRetries : ℕ
  timeoutMs : ℕ
  commandWrapper : Option String
  validate : Option (String → Bool)

/-- The step's text with its edits in the files, the text of a step that failed by its validation,
or how the step failed before. -/
inductive EditOutcome where
  | applied (text : String)
  | rejected (text : String)
  | failed (kind : StepFailureKind)
  deriving DecidableEq, Repr

/-- The text whose edits a step leaves in the files. -/
def EditOutcome.text : EditOutcome → Option String
  | .applied text | .rejected text => some text
  | .failed _ => none

section Steps

variable (parse : String → Except String ParsedEdits)

/-- The formatter's result does not matter. -/
def formatAfter (format : Option String) (commandWrapper : Option String) :
    Prog EditOps (Except String Unit) :=
  match format with
  | some cmd => do
      let _ ← call (S := EditOps) (.format (applyCommandWrapper cmd commandWrapper))
      pure (.ok ())
  | none => pure (.ok ())

/-- Nothing is rolled back where nothing was written. -/
def undoWritten (e : ApplyError) : Prog EditOps Unit :=
  if e.partialResult.modifiedFiles = [] then pure ()
  else do
    let _ ← rollback e.partialResult
    pure ()

def applyFailed (e : ApplyError) (rawTrunc : String) : Prog EditOps (Except String Unit) := do
  undoWritten e
  let paths := e.partialResult.modifiedFiles.map (·.path)
  let joined := if paths = [] then "(none)" else ", ".intercalate paths
  pure (.error ("Apply failed after 1 attempts: " ++ e.kind.toString ++ "\n\nFailed files: " ++
    joined ++ "\n\nLast output:\n" ++ rawTrunc))

/-- One application that takes back what a failure has left. -/
def applyOnce (raw cwd : String) (format : Option String) (commandWrapper : Option String) :
    Prog EditOps (Except String Unit) :=
  let rawTrunc := truncateForPrompt raw stepErrRawTruncBytes
  match parse raw with
  | .error e => pure (.error ("Parse failed after 1 attempts: " ++ e ++ "\n\nLast output:\n" ++
      rawTrunc))
  | .ok parsed => do
      match ← apply parsed cwd with
      | .ok _ => formatAfter format commandWrapper
      | .error e => applyFailed e rawTrunc

def retryFailureKind (outcome : RetryLoopOutcome) : StepFailureKind :=
  match outcome.attempts.getLast? with
  | none => .editFailed
  | some last => if last.verifyResult.isSome then .verifyFailed else .editFailed

def retryOutcome (raw : String) (outcome : RetryLoopOutcome) : EditOutcome :=
  if outcome.success then .applied ((outcome.attempts.getLast?.map (·.rawOutput)).getD raw)
  else .failed (retryFailureKind outcome)

def applyEdits (step : EditStep) (cwd : String) : Prog EditOps EditOutcome :=
  match composeVerify step.format step.verify with
  | some command => do
      let verification := ⟨applyCommandWrapper command step.commandWrapper, step.timeoutMs,
        defaultVerifyMaxOutputBytes⟩
      let outcome ← execute parse ⟨step.fixRetries, verification, false⟩ step.raw cwd
      pure (retryOutcome step.raw outcome)
  | none => do
      match ← applyOnce parse step.raw cwd step.format step.commandWrapper with
      | .ok () => pure (.applied step.raw)
      | .error _ => pure (.failed .editFailed)

/-- The validation of what the step has applied. Its failure takes no edit back. -/
def EditStep.validated (step : EditStep) : EditOutcome → EditOutcome
  | .applied text =>
      if (step.validate.map (· text)).getD true then .applied text else .rejected text
  | outcome => outcome

def executeEdits (step : EditStep) (cwd : String) : Prog EditOps EditOutcome := do
  let outcome ← applyEdits parse step cwd
  pure (step.validated outcome)

end Steps

section Meaning

/-- The files with the edits of one text. -/
def textTo (links : Links) (parse : String → Except String ParsedEdits) (cwd : String)
    (files : Path → Option Content) (text : String) : Option (Path → Option Content) :=
  match parse text with
  | .ok parsed => editsTo links cwd parsed.format parsed.edits files
  | .error _ => none

/-- The step's own files as they are or as one of its commands has left them. -/
def Rewritten (env : Surroundings) (own : Set Path) (g h : Path → Option Content) : Prop :=
  Set.EqOn h g ownᶜ ∧ (Set.EqOn h g own ∨ env.Rewrites own g h)

/-- What a step's outcome makes of the files. -/
def OutcomeTo (links : Links) (parse : String → Except String ParsedEdits) (cwd : String)
    (own : Set Path) (env : Surroundings) (outcome : EditOutcome) (files files' : Path → Option Content) : Prop :=
  match outcome.text with
  | some text => ∃ g, textTo links parse cwd files text = some g ∧ Rewritten env own g files'
  | none => files' = files

/-- One step after the other. -/
inductive Replayed {ι σ : Type} (step : ι → σ → σ → Prop) : List ι → σ → σ → Prop
  | nil {s} : Replayed step [] s s
  | cons {i order s s₁ s₂} (first : step i s s₁) (rest : Replayed step order s₁ s₂) :
      Replayed step (i :: order) s s₂

/-- On the steps' own files the final ones are the initial ones with the edits of the steps that
have applied theirs, one step after the other and each as the step's own commands left it, and with
nothing of the others. -/
def EditsKept {n : ℕ} (links : Links) (parse : String → Except String ParsedEdits) (cwd : String)
    (own : Fin n → Set Path) (env : Fin n → Surroundings) (outcome : Fin n → EditOutcome)
    (f final : Path → Option Content) : Prop :=
  ∃ (order : List (Fin n)) (g : Path → Option Content), order.Perm (List.finRange n) ∧
    Replayed (fun i => OutcomeTo links parse cwd (own i) (env i) (outcome i)) order f g ∧
    Set.EqOn final g (⋃ i, own i)

lemma textTo_eq_some {links : Links} {parse : String → Except String ParsedEdits}
    {cwd text : String} {f g : Path → Option Content} : EditedFrom links parse cwd f text g ↔
      textTo links parse cwd f text = some g := by
  unfold EditedFrom textTo
  cases parse text <;> simp

end Meaning

section Local

variable {links : Links} {cwd : String} {format : EditFormat} {own : Set Path}
  {f g h : Path → Option Content} {env : Surroundings}

/-- The text an edit makes of one file's content. -/
def contentTo (format : EditFormat) (edit : FileEdit) (content : Option Content) :
    Option String :=
  match format, content with
  | .fullFile, _ => some edit.new
  | _, some (.text c) =>
      if edit.old ≠ "" ∧ matchCount c edit.old = 1 then
        some (replaceFirst c edit.old edit.new)
      else none
  | _, _ => none

/-- An edit looks at one file and changes that file only. -/
lemma editTo_eq (edit : FileEdit) : editTo links cwd format f edit =
    (filePlace links (joinPath cwd edit.file)).bind fun p =>
      (contentTo format edit (f p)).map fun c => Function.update f p (some (.text c)) := by
  unfold editTo contentTo
  cases hplace : filePlace links (joinPath cwd edit.file) with
  | none => rfl
  | some p =>
      dsimp only [Option.bind_some]
      rcases hp : f p with _ | ⟨c⟩ | _ <;> cases format <;>
        simp only [Option.map_some, Option.map_none]
      all_goals split <;> simp

lemma eqOn_update {p : Path} {b : Option Content} (hsame : Set.EqOn f h own) :
    Set.EqOn (Function.update f p b) (Function.update h p b) own := by
  intro q hq
  rcases eq_or_ne q p with rfl | hne
  · simp
  · rw [Function.update_of_ne hne, Function.update_of_ne hne]
    exact hsame hq

/-- Edits of a set of files do the same to other files that agree on the set. -/
lemma editsTo_congr {edits : List FileEdit}
    (hown : ∀ e ∈ edits, ∀ p, filePlace links (joinPath cwd e.file) = some p → p ∈ own)
    (hsame : Set.EqOn f h own)
    (hedits : editsTo links cwd format edits f = some g) :
    ∃ g', editsTo links cwd format edits h = some g' ∧ Set.EqOn g g' own ∧ Set.EqOn g' h ownᶜ := by
  induction edits generalizing f h with
  | nil =>
      obtain rfl := Option.some.inj hedits
      exact ⟨h, rfl, hsame, Set.eqOn_refl _ _⟩
  | cons edit edits ih =>
      unfold editsTo at hedits ⊢
      rw [List.foldlM_cons] at hedits ⊢
      obtain ⟨f₁, hfirst, hrest⟩ := Option.bind_eq_some_iff.mp hedits
      rw [editTo_eq] at hfirst
      obtain ⟨p, hplace, hfirst⟩ := Option.bind_eq_some_iff.mp hfirst
      obtain ⟨c, hc, rfl⟩ := Option.map_eq_some_iff.mp hfirst
      have hp := hown edit List.mem_cons_self p hplace
      obtain ⟨g', hg', hgown, hgother⟩ :=
        ih (fun e he => hown e (List.mem_cons_of_mem _ he)) (eqOn_update hsame) hrest
      refine ⟨g', ?_, hgown, fun q hq => ?_⟩
      · rw [editTo_eq, hplace, Option.bind_some, ← hsame hp, hc]
        exact hg'
      · rw [hgother hq, Function.update_of_ne]
        rintro rfl
        exact hq hp

/-- A command sees and changes no more than the step's own files. -/
lemma rewrites_congr {g' h' : Path → Option Content} (hrewrites : env.Rewrites own g h)
    (hg : Set.EqOn g g' own) (hh : Set.EqOn h h' own) : env.Rewrites own g' h' := by
  obtain ⟨t, t', hstep, ht, ht'⟩ := hrewrites
  exact ⟨t, t', hstep, Set.EqOn.trans ht hg, Set.EqOn.trans ht' hh⟩

lemma exists_rewritten {h' : Path → Option Content} (hg : Set.EqOn g h own)
    (hh : Set.EqOn g f own ∨ env.Rewrites own f g) (hf : Set.EqOn f h' own) :
    ∃ g', Rewritten env own h' g' ∧ Set.EqOn h g' own := by
  classical
  have hpiece : Set.EqOn (own.piecewise h h') h own := Set.piecewise_eqOn own h h'
  refine ⟨own.piecewise h h', ⟨Set.piecewise_eqOn_compl own h h', ?_⟩, hpiece.symm⟩
  rcases hh with hsame | hrewrites
  · exact Or.inl (hpiece.trans (hg.symm.trans (hsame.trans hf)))
  · exact Or.inr (rewrites_congr hrewrites hf (hg.trans hpiece.symm))

/-- An outcome does the same to other files that agree on the step's own ones. -/
lemma outcomeTo_congr {parse : String → Except String ParsedEdits} {outcome : EditOutcome}
    (hwithin : ∀ text, outcome.text = some text → EditsWithin links parse cwd own text)
    (hsame : Set.EqOn f h own) (hg : OutcomeTo links parse cwd own env outcome f g) :
    ∃ g', OutcomeTo links parse cwd own env outcome h g' ∧ Set.EqOn g g' own ∧
      Set.EqOn g' h ownᶜ := by
  unfold OutcomeTo at hg ⊢
  cases htext : outcome.text with
  | none =>
      rw [htext] at hg
      obtain rfl : g = f := hg
      exact ⟨h, rfl, hsame, Set.eqOn_refl _ _⟩
  | some text =>
      rw [htext] at hg
      obtain ⟨g₀, hedited, hrewritten⟩ := hg
      obtain ⟨parsed, hparse, hedits⟩ := textTo_eq_some.mpr hedited
      obtain ⟨g₁, hg₁, hown, hother⟩ := editsTo_congr (hwithin text htext parsed hparse) hsame hedits
      obtain ⟨g', hg', hfinal⟩ := exists_rewritten (Set.eqOn_refl g own) hrewritten.2 hown
      exact ⟨g', ⟨g₁, textTo_eq_some.mp ⟨parsed, hparse, hg₁⟩, hg'⟩, hfinal, hg'.1.trans hother⟩

end Local

section Step

variable {links : Links} {parse : String → Except String ParsedEdits} {all own : Set Path}
  {points : Checkpoints} {f g : Path → Option Content} {env : Surroundings} {t : Files}
  {cwd : String}

/-- The program's own files have its edits or are as they were. -/
def StepHolds (links : Links) (parse : String → Except String ParsedEdits) (cwd : String)
    (own : Set Path) (env : Surroundings) (f : Path → Option Content) (outcome : EditOutcome) (t : Files) : Prop :=
  (∀ text, outcome.text = some text → EditsWithin links parse cwd own text) ∧
    ∃ g, OutcomeTo links parse cwd own env outcome f g ∧ Holds links own g t

lemma stepHolds_applied {text : String} {h : Path → Option Content}
    (hwithin : EditsWithin links parse cwd own text) (hedited : EditedFrom links parse cwd f text g)
    (hcommands : Set.EqOn h g own ∨ env.Rewrites own g h) (ht : Holds links own h t) :
    StepHolds links parse cwd own env f (.applied text) t := by
  obtain ⟨g', hg', hsame⟩ := exists_rewritten (Set.eqOn_refl h own) hcommands (Set.eqOn_refl g own)
  refine ⟨fun text' htext => ?_, g', ⟨g, textTo_eq_some.mp hedited, hg'⟩,
    ht.routes, Set.EqOn.trans ht.content hsame⟩
  obtain rfl : text = text' := Option.some.inj htext
  exact hwithin

lemma stepHolds_failed {kind : StepFailureKind} (ht : Holds links own f t) :
    StepHolds links parse cwd own env f (.failed kind) t :=
  ⟨fun _ htext => (by cases htext), f, rfl, ht⟩

/-- A validation that fails leaves the files as a successful one does. -/
lemma StepHolds.validated {step : EditStep} {outcome : EditOutcome}
    (h : StepHolds links parse cwd own env f outcome t) :
    StepHolds links parse cwd own env f (step.validated outcome) t := by
  cases outcome with
  | applied text =>
      unfold EditStep.validated
      dsimp only
      split
      · exact h
      · exact h
  | rejected text => exact h
  | failed kind => exact h

lemma formatAfter_meets {format wrapper : Option String} (henv : env.Tidy all own f)
    (ht : Holds links own g t) :
    Meets (direct env) (ownFiles links all own points)
      (fun r t' => r = .ok () ∧ ∃ h, (Set.EqOn h g own ∨ env.Rewrites own g h) ∧ Holds links own h t')
      (formatAfter format wrapper) t := by
  cases format with
  | none => exact meets_ret fun _ hrely => ⟨rfl, g, Or.inl (Set.eqOn_refl _ _), ht.stable hrely⟩
  | some cmd =>
      refine meets_format (fun _ _ _ _ h => h.2) henv ht fun _ t' h hrewrites ht' => ?_
      exact meets_ret fun _ hrely => ⟨rfl, h, Or.inr hrewrites, ht'.stable hrely⟩

lemma undoWritten_meets {e : ApplyError} (hlog : Logged links own f e.partialResult.modifiedFiles g)
    (ht : Holds links own g t) :
    Meets (direct env) (ownFiles links all own points) (fun _ t' => Holds links own f t')
      (undoWritten e) t := by
  unfold undoWritten
  split
  · next hnone =>
    rw [hnone] at hlog
    have hg := hlog.recorded.undoAll_eq
    simp only [List.map_nil, UndoLog.undoAll_nil] at hg
    subst hg
    exact meets_ret fun _ hrely => ht.stable hrely
  · refine Meets.bind ((rollback_meets (fun _ _ _ _ h => h.2) hlog (Holds.but ht)).mono
      fun _ t' h' => ?_)
    exact meets_ret fun _ hrely => h'.2.stable hrely

lemma applyOnce_meets {raw : String} {format wrapper : Option String} (henv : env.Tidy all own f)
    (hwithin : EditsWithin links parse cwd own raw) (ht : Holds links own f t) :
    Meets (direct env) (ownFiles links all own points)
      (fun r t' => match r with
        | .ok _ => ∃ g h, EditedFrom links parse cwd f raw g ∧
            (Set.EqOn h g own ∨ env.Rewrites own g h) ∧ Holds links own h t'
        | .error _ => Holds links own f t')
      (applyOnce parse raw cwd format wrapper) t := by
  unfold applyOnce
  dsimp only
  split
  · exact meets_ret fun _ hrely => ht.stable hrely
  · next parsed hparse =>
    refine Meets.bind ((apply_direct (hwithin parsed hparse) ht).mono fun r t' hr => ?_)
    cases r with
    | ok done =>
        obtain ⟨g, _, hgoal, ht'⟩ := hr
        refine (formatAfter_meets henv ht').mono fun r t'' hr => ?_
        obtain ⟨rfl, h, hcommands, ht''⟩ := hr
        exact ⟨g, h, ⟨parsed, hparse, hgoal⟩, hcommands, ht''⟩
    | error e =>
        obtain ⟨g, hlog, ht'⟩ := hr
        refine Meets.bind ((undoWritten_meets hlog ht').mono fun _ t'' ht'' => ?_)
        exact meets_ret fun _ hrely => ht''.stable hrely

lemma retryOutcome_holds {raw : String} {loop : RetryLoopOutcome}
    (hloop : OutcomeHolds links parse cwd own f env loop t) :
    StepHolds links parse cwd own env f (retryOutcome raw loop) t := by
  unfold retryOutcome
  split
  · next hsuccess =>
    obtain ⟨last, g, h, hlast, hwithin, hedited, hrewrites, hh⟩ := hloop.1 hsuccess
    rw [hlast]
    exact stepHolds_applied hwithin hedited (Or.inr hrewrites) hh
  · next hfailure => exact stepHolds_failed (hloop.2 (by simpa using hfailure))

lemma StepHolds.stable {outcome : EditOutcome} {t' : Files}
    (h : StepHolds links parse cwd own env f outcome t)
    (hrely : (ownFiles links all own points).rely t t') :
    StepHolds links parse cwd own env f outcome t' := by
  obtain ⟨hwithin, g, hg, ht⟩ := h
  exact ⟨hwithin, g, hg, ht.stable hrely⟩

lemma applyEdits_meets {step : EditStep} (henv : env.Tidy all own f)
    (hanswers : ∀ raw, env.mayAnswer raw → EditsWithin links parse cwd own raw)
    (hwithin : EditsWithin links parse cwd own step.raw) (ht : Holds links own f t) :
    Meets (direct env) (ownFiles links all own (loopPoints links parse cwd f))
      (StepHolds links parse cwd own env f) (applyEdits parse step cwd) t := by
  unfold applyEdits
  split
  · refine Meets.bind ((execute_meets _ henv hanswers hwithin ht).mono fun loop t' hr => ?_)
    exact meets_ret fun _ hrely => (retryOutcome_holds hr.2).stable hrely
  · refine Meets.bind ((applyOnce_meets henv hwithin ht).mono fun r t' hr => ?_)
    cases r with
    | ok done =>
        obtain ⟨g, h, hedited, hcommands, ht'⟩ := hr
        exact meets_ret fun _ hrely =>
          (stepHolds_applied hwithin hedited hcommands ht').stable hrely
    | error e => exact meets_ret fun _ hrely => (stepHolds_failed hr).stable hrely

/-- A step leaves its own files edited or untouched, whatever other steps do elsewhere. -/
lemma executeEdits_meets {step : EditStep} (henv : env.Tidy all own f)
    (hanswers : ∀ raw, env.mayAnswer raw → EditsWithin links parse cwd own raw)
    (hwithin : EditsWithin links parse cwd own step.raw) (ht : Holds links own f t) :
    Meets (direct env) (ownFiles links all own (loopPoints links parse cwd f))
      (StepHolds links parse cwd own env f) (executeEdits parse step cwd) t :=
  Meets.bind ((applyEdits_meets henv hanswers hwithin ht).mono fun _ _ hr =>
    meets_ret fun _ hrely => hr.validated.stable hrely)

end Step

section Level

variable {n : ℕ} {links : Links} {parse : String → Except String ParsedEdits} {cwd : String}
  {own : Fin n → Set Path} {env : Fin n → Surroundings} {f : Path → Option Content}

/-- Steps that hold on disjoint files can be replayed one after the other, from files that are
still the initial ones where the steps to come have theirs. -/
lemma replay {outcome : Fin n → EditOutcome} {t : Files}
    (hdisjoint : ∀ i j, i ≠ j → Disjoint (own i) (own j))
    (hsteps : ∀ i, StepHolds links parse cwd (own i) (env i) f (outcome i) t) (order : List (Fin n))
    (hnodup : order.Nodup) (h : Path → Option Content)
    (hsame : ∀ i ∈ order, Set.EqOn f h (own i)) :
    ∃ g, Replayed (fun i => OutcomeTo links parse cwd (own i) (env i) (outcome i)) order h g ∧
      (∀ i ∈ order, Set.EqOn (contentAt t) g (own i)) ∧
      ∀ i ∉ order, Set.EqOn g h (own i) := by
  induction order generalizing h with
  | nil => exact ⟨h, .nil, by simp, fun _ _ => Set.eqOn_refl _ _⟩
  | cons i order ih =>
      obtain ⟨hnot, hnodup⟩ := List.nodup_cons.mp hnodup
      obtain ⟨hwithin, f', hf', ht⟩ := hsteps i
      obtain ⟨h', hh', hown, hother⟩ := outcomeTo_congr hwithin (hsame i List.mem_cons_self) hf'
      have houtside : ∀ j, j ≠ i → Set.EqOn h' h (own j) := by
        intro j hji
        exact hother.mono (Set.disjoint_left.mp (hdisjoint j i hji))
      obtain ⟨g, hg, hdone, hrest⟩ := ih hnodup h' fun j hj =>
        (hsame j (List.mem_cons_of_mem _ hj)).trans
          (houtside j fun hji => hnot (hji ▸ hj)).symm
      refine ⟨g, .cons hh' hg, fun j hj => ?_, fun j hj => ?_⟩
      · rcases List.mem_cons.mp hj with rfl | hj
        · exact ht.content.trans (hown.trans (hrest _ hnot).symm)
        · exact hdone j hj
      · rw [List.mem_cons, not_or] at hj
        exact (hrest j hj.2).trans (houtside j hj.1)

end Level

section Runs

def editJson (e : FileEdit) : String :=
  "[\x7b\"file\":\"" ++ e.file ++ "\",\"old\":\"" ++ e.old ++ "\",\"new\":\"" ++ e.new ++
    "\"\x7d]"

/-- A parser for the outputs of two steps. -/
def parseOf (edits : Fin 2 → FileEdit) (raw : String) : Except String ParsedEdits :=
  if raw = editJson (edits 0) then .ok ⟨[edits 0], .jsonOldNew⟩
  else if raw = editJson (edits 1) then .ok ⟨[edits 1], .jsonOldNew⟩
  else .error "no content to parse"

/-- A step with a verification and a validation that gives the verdict. -/
def stepOf (e : FileEdit) (verdict : Bool) : EditStep :=
  ⟨editJson e, none, some "cargo test", 0, 1000, none, some fun _ => verdict⟩

/-- A file below the directory `/w` is written over. -/
def overwritten (name text : String) (t : Files) : Files :=
  { t with disk := (writeFile t.disk ["w", name] (.text text)).getD t.disk }

def filesOf (texts : List (String × String)) : Files :=
  texts.foldl (fun t x => overwritten x.1 x.2 t) ⟨addDirs Disk.empty ["w"], fun _ => none⟩

lemma filesOf_plain (texts : List (String × String)) : (filesOf texts).Plain := by
  have hall : ∀ t : Files, t.Plain → (texts.foldl (fun t x => overwritten x.1 x.2 t) t).Plain := by
    induction texts with
    | nil => exact fun _ ht => ht
    | cons x texts ih => exact fun t ht => ih _ ht
  exact hall _ rfl

/-- Each step's command passes or not and changes the files in its own way. -/
def act (passes : Fin 2 → Bool) (effect : Fin 2 → Files → Files) (i : Fin 2) :
    (o : Op) → Files → Answer o × Files
  | .verify _ _, t => (⟨passes i, "", "", none, false, false⟩, effect i t)
  | .format _, t => ((), effect i t)
  | o, t => handle (fun _ => ⟨true, "", "", none, false, false⟩) (fun _ => .error "") o t

def surroundings (effect : Files → Files) : Surroundings := ⟨fun t t' => t' = effect t, fun _ => False⟩

lemma act_performs (passes : Fin 2 → Bool) (effect : Fin 2 → Files → Files) (i : Fin 2) (o : Op)
    (t : Files) :
    perform (surroundings (effect i)) o t (act passes effect i o t).1
      (act passes effect i o t).2 := by
  have hother := @handle_performs ⟨fun t t' => t' = t, fun _ => False⟩
    (fun _ => ⟨true, "", "", none, false, false⟩) (fun _ => .error "") (fun _ => rfl) nofun o t
  cases o with
  | verify v cwd => rfl
  | format command => rfl
  | _ => exact hother

/-- Both steps until they end, in the order of the turns. -/
def parallelRun (edits : Fin 2 → FileEdit) (verdict : Fin 2 → Bool) (passes : Fin 2 → Bool)
    (effect : Fin 2 → Files → Files) (texts : List (String × String)) (turns : List (Fin 2)) :=
  schedule (act passes effect) turns
    (fun i => executeEdits (parseOf edits) (stepOf (edits i) (verdict i)) "/w") (filesOf texts)

lemma parallelRun_interleaved (edits : Fin 2 → FileEdit) (verdict : Fin 2 → Bool)
    (passes : Fin 2 → Bool) (effect : Fin 2 → Files → Files) (texts : List (String × String))
    (turns : List (Fin 2)) :
    Interleaved (fun i => perform (surroundings (effect i)))
      (fun i => executeEdits (parseOf edits) (stepOf (edits i) (verdict i)) "/w") (filesOf texts)
      (parallelRun edits verdict passes effect texts turns).1
      (parallelRun edits verdict passes effect texts turns).2.1
      (parallelRun edits verdict passes effect texts turns).2.2 :=
  schedule_interleaved (act_performs passes effect) _ _ _

/-- In the tree without links no step creates a file through one. -/
lemma parallelRun_direct (edits : Fin 2 → FileEdit) (verdict : Fin 2 → Bool) (passes : Fin 2 → Bool)
    {effect : Fin 2 → Files → Files} (heffect : ∀ i t, (effect i t).link = t.link)
    (texts : List (String × String)) (turns : List (Fin 2)) :
    Interleaved (fun i => direct (surroundings (effect i)))
      (fun i => executeEdits (parseOf edits) (stepOf (edits i) (verdict i)) "/w") (filesOf texts)
      (parallelRun edits verdict passes effect texts turns).1
      (parallelRun edits verdict passes effect texts turns).2.1
      (parallelRun edits verdict passes effect texts turns).2.2 := by
  refine (parallelRun_interleaved edits verdict passes effect texts turns).guarded
    (fun o _ ht => Files.Plain.admits ht o) (fun i _ _ _ _ ht hstep => perform_plain ?_ ht hstep)
    (filesOf_plain texts)
  rintro t t' rfl
  exact heffect i t

/-- The one file that each step edits. -/
def ownFile (edits : Fin 2 → FileEdit) (i : Fin 2) : Set Path :=
  {resolve (joinPath "/w" (edits i).file)}

def onFiles (file₀ file₁ : String) : Fin 2 → FileEdit := ![⟨file₀, "a", "A"⟩, ⟨file₁, "b", "B"⟩]

def appliedFirst (edits : Fin 2 → FileEdit) : EditOutcome := .applied (editJson (edits 0))

def appliedSecond (edits : Fin 2 → FileEdit) : EditOutcome := .applied (editJson (edits 1))

/-- A formatter of the first step that ends its edited file with a line end. -/
def formatted (t : Files) : Files :=
  if contentAt t ["w", "a.txt"] = some (.text "A") then overwritten "a.txt" "A\n" t else t

lemma formatted_link (t : Files) : (formatted t).link = t.link := by
  unfold formatted
  split <;> rfl

lemma formatted_other {t : Files} {p : Path} (hp : p ≠ ["w", "a.txt"]) :
    contentAt (formatted t) p = contentAt t p := by
  unfold formatted overwritten contentAt
  split
  · cases hwrite : writeFile t.disk ["w", "a.txt"] (Content.text "A\n") with
    | none => rfl
    | some disk => exact writeFile_other hwrite hp
  · rfl

lemma formatted_edited {t : Files} (hne : contentAt (formatted t) ["w", "a.txt"] ≠
    contentAt t ["w", "a.txt"]) : contentAt t ["w", "a.txt"] = some (.text "A") ∧
      (contentAt (formatted t) ["w", "a.txt"]).isSome = true := by
  by_cases hedited : contentAt t ["w", "a.txt"] = some (.text "A")
  · refine ⟨hedited, ?_⟩
    obtain ⟨disk, hdisk⟩ := writeFile_of_file (Content.text "A\n") hedited
    rw [formatted, if_pos hedited, overwritten, hdisk, Option.getD_some, contentAt,
      writeFile_self hdisk]
    rfl
  · rw [formatted, if_neg hedited] at hne
    exact absurd rfl hne

lemma formatted_tidy {all : Set Path} {f : Path → Option Content}
    (hf : f ["w", "a.txt"] ≠ some (.text "A")) :
    (surroundings formatted).Tidy all {["w", "a.txt"]} f where
  routes t t' hstep := by
    obtain rfl : t' = formatted t := hstep
    exact .of_eq (formatted_link t)
  others t t' hstep p hp := by
    obtain rfl : t' = formatted t := hstep
    exact formatted_other fun heq => hp.2 heq
  edited t t' hstep p hp hne := by
    obtain rfl : t' = formatted t := hstep
    obtain rfl : p = ["w", "a.txt"] := hp
    obtain ⟨hedited, hsome⟩ := formatted_edited hne
    exact ⟨fun heq => hf (heq.symm.trans hedited), hsome⟩

lemma idle_tidy {all own : Set Path} {f : Path → Option Content} :
    (surroundings id).Tidy all own f where
  routes t t' hstep := by
    obtain rfl : t' = t := hstep
    exact .refl _ _
  others t t' hstep p _ := by
    obtain rfl : t' = t := hstep
    rfl
  edited t t' hstep p _ hne := by
    obtain rfl : t' = t := hstep
    exact absurd rfl hne

lemma order_two {order : List (Fin 2)} (h : order.Perm (List.finRange 2)) :
    order = [0, 1] ∨ order = [1, 0] := by
  have hpair : ∀ a b : Fin 2, [a, b].Perm (List.finRange 2) →
      [a, b] = [0, 1] ∨ [a, b] = [1, 0] := by decide
  have hlength := h.length_eq
  match order, hlength with
  | [a, b], _ => exact hpair a b h

section Lost

variable {edits : Fin 2 → FileEdit} {own : Fin 2 → Set Path} {env : Fin 2 → Surroundings}
  {outcome : Fin 2 → EditOutcome} {f final : Path → Option Content} {p : Path}

/-- The edits are not kept when the first step's is not, and the second one's outcome leaves the
file alone. -/
lemma not_editsKept {links : Links} {parse : String → Except String ParsedEdits} {cwd : String}
    (c : Content) (hp : p ∈ ⋃ i, own i)
    (hedits : ∀ g h, OutcomeTo links parse cwd (own 0) (env 0) (outcome 0) g h → g p = f p →
      h p = some c)
    (hother : ∀ g h, OutcomeTo links parse cwd (own 1) (env 1) (outcome 1) g h → h p = g p)
    (hlost : final p ≠ some c) : ¬ EditsKept links parse cwd own env outcome f final := by
  rintro ⟨order, g, hperm, hreplayed, hfinal⟩
  apply hlost
  rw [hfinal hp]
  rcases order_two hperm with rfl | rfl
  · cases hreplayed with
    | cons first rest =>
        cases rest with
        | cons second rest =>
            cases rest
            rw [hother _ _ second]
            exact hedits _ _ first rfl
  · cases hreplayed with
    | cons first rest =>
        cases rest with
        | cons second rest =>
            cases rest
            exact hedits _ _ second (hother _ _ first)

lemma textTo_one {links : Links} {parse : String → Except String ParsedEdits} {cwd text : String}
    {edit : FileEdit} {format : EditFormat} (hparse : parse text = .ok ⟨[edit], format⟩)
    (hplace : filePlace links (joinPath cwd edit.file) = some p) (files : Path → Option Content) :
    textTo links parse cwd files text =
      (contentTo format edit (files p)).map fun c => Function.update files p (some (.text c)) := by
  have hedit : editTo links cwd format files edit =
      (contentTo format edit (files p)).map fun c => Function.update files p (some (.text c)) := by
    rw [editTo_eq, hplace, Option.bind_some]
  rw [textTo, hparse, ← hedit]
  exact List.foldlM_cons.trans (bind_pure _)

/-- What an edit of one file makes of that file when no command changes it. -/
lemma outcomeTo_own {links : Links} {parse : String → Except String ParsedEdits}
    {cwd text new : String} {edit : FileEdit} {format : EditFormat} {own : Set Path}
    {g h : Path → Option Content} (hparse : parse text = .ok ⟨[edit], format⟩)
    (hplace : filePlace links (joinPath cwd edit.file) = some p)
    (hnew : contentTo format edit (g p) = some new)
    (hout : OutcomeTo links parse cwd own (surroundings id) (.applied text) g h) :
    h p = some (.text new) := by
  obtain ⟨g', hg', hkept, hrewritten⟩ := hout
  rw [textTo_one hparse hplace, hnew, Option.map_some] at hg'
  obtain rfl := Option.some.inj hg'
  have hsame : Set.EqOn h (Function.update g p (some (.text new))) own := by
    rcases hrewritten with hsame | ⟨t, t', hstep, ht, ht'⟩
    · exact hsame
    · obtain rfl : t' = t := hstep
      exact Set.EqOn.trans (Set.EqOn.symm ht') ht
  by_cases hown : p ∈ own
  · rw [hsame hown, Function.update_self]
  · rw [hkept hown, Function.update_self]

/-- What an edit of another file makes of a file that is not the step's own. -/
lemma outcomeTo_other {links : Links} {parse : String → Except String ParsedEdits}
    {cwd text : String} {edit : FileEdit} {format : EditFormat} {own : Set Path}
    {env : Surroundings} {g h : Path → Option Content} {q : Path}
    (hparse : parse text = .ok ⟨[edit], format⟩)
    (hplace : filePlace links (joinPath cwd edit.file) = some q) (hp : p ≠ q) (hown : p ∉ own)
    (hout : OutcomeTo links parse cwd own env (.applied text) g h) : h p = g p := by
  obtain ⟨g', hg', hkept, _⟩ := hout
  rw [textTo_one hparse hplace] at hg'
  obtain ⟨c, _, rfl⟩ := Option.map_eq_some_iff.mp hg'
  rw [hkept hown, Function.update_of_ne hp]

end Lost

/-- Both steps run to the end and a file does not have the edits it should. -/
def LosesEdits (edits : Fin 2 → FileEdit) (passes : Fin 2 → Bool) (effect : Fin 2 → Files → Files)
    (texts : List (String × String)) (turns : List (Fin 2)) : Prop :=
  let run := parallelRun edits ![true, true] passes effect texts turns
  Interleaved (fun i => perform (surroundings (effect i)))
      (fun i => executeEdits (parseOf edits) (stepOf (edits i) (![true, true] i)) "/w")
      (filesOf texts) run.1 run.2.1 run.2.2 ∧
    ∃ outcome, (∀ i, run.2.1 i = .ret (outcome i)) ∧
      ¬ EditsKept (filesOf texts).link (parseOf edits) "/w" (ownFile edits)
        (fun i => surroundings (effect i)) outcome (contentAt (filesOf texts)) (contentAt run.2.2)

end Runs

end Loker.ParallelEdits
