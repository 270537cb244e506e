import Loker.EditRetry

/-! Rolling back what an application of edits returned, the whole of it or the part before the
first edit that failed. -/

namespace Loker.Rollback

open FileTree SymbolicLinks Programs UndoLog EditFiles DiffApplier EditRetry

variable {env : Surroundings} {parsed : ParsedEdits} {cwd : String} {t t₁ t₂ : Files} {ρ τ : Type}

/-- The edits that were written, also those of an application that failed. -/
def written : Except ApplyError ApplyResult → ApplyResult
  | .ok applied => applied
  | .error e => e.partialResult

section BrokenWrites

/-- Where a write fails, the program ends at once and reports that write. -/
def StopsAtWrites : Prog EditOps (Except ApplyError ρ) → Prop
  | .ret _ => True
  | .act (.write path _) next =>
      (∀ e, ∃ done, next (.error e) = .ret (.error ⟨.writeFailed path e, done⟩)) ∧
      StopsAtWrites (next (.ok ()))
  | .act _ next => ∀ a, StopsAtWrites (next a)

lemma StopsAtWrites.bind {p : Prog EditOps (Except ApplyError ρ)}
    {f : Except ApplyError ρ → Prog EditOps (Except ApplyError τ)} (hp : StopsAtWrites p)
    (herror : ∀ e, f (.error e) = .ret (.error e)) (hok : ∀ r, StopsAtWrites (f (.ok r))) :
    StopsAtWrites (p >>= f) := by
  induction p with
  | ret r =>
      cases r with
      | error e =>
          rw [ret_bind, herror]
          trivial
      | ok r => exact hok r
  | act o next ih =>
      cases o with
      | write path content =>
          refine ⟨fun e => ?_, ih _ hp.2⟩
          obtain ⟨done, hdone⟩ := hp.1 e
          exact ⟨done, (congrArg (· >>= f) hdone).trans (herror _)⟩
      | readToString path => exact fun a => ih a (hp a)
      | createDirAll path => exact fun a => ih a (hp a)
      | removeFile path => exact fun a => ih a (hp a)
      | verify v cwd => exact fun a => ih a (hp a)
      | format command => exact fun a => ih a (hp a)
      | requestEdits context => exact fun a => ih a (hp a)

lemma writeEdit_stops (filePath : String) (original : Option String) (new : String)
    (done : ApplyResult) : StopsAtWrites (writeEdit filePath original new done) :=
  ⟨fun _ => ⟨done, rfl⟩, trivial⟩

lemma applyFullFile_stops (edit : FileEdit) (filePath : String) (done : ApplyResult) :
    StopsAtWrites (applyFullFile edit filePath done) := by
  intro a
  cases a with
  | ok c => exact writeEdit_stops _ _ _ _
  | error e =>
      obtain ⟨kind, message⟩ := e
      cases kind with
      | other => trivial
      | notFound =>
          intro a
          cases a with
          | error e => trivial
          | ok _ => exact writeEdit_stops _ _ _ _

lemma applyFindReplace_stops (edit : FileEdit) (filePath : String) (format : EditFormat)
    (done : ApplyResult) : StopsAtWrites (applyFindReplace edit filePath format done) := by
  intro a
  cases a with
  | error e =>
      obtain ⟨kind, message⟩ := e
      cases kind <;> trivial
  | ok content =>
      change StopsAtWrites (replaceOnce edit filePath format done content)
      unfold replaceOnce
      dsimp only
      split_ifs
      · trivial
      · trivial
      · trivial
      · trivial
      · exact writeEdit_stops _ _ _ _

lemma applyEdit_stops (cwd : String) (format : EditFormat) (edit : FileEdit) (done : ApplyResult) :
    StopsAtWrites (applyEdit cwd format edit done) := by
  unfold applyEdit
  split_ifs
  · trivial
  · trivial
  · cases format with
    | fullFile => exact applyFullFile_stops _ _ _
    | jsonOldNew => exact applyFindReplace_stops _ _ _ _
    | unifiedDiff => exact applyFindReplace_stops _ _ _ _

lemma applyAll_stops (cwd : String) (format : EditFormat) (edits : List FileEdit)
    (done : ApplyResult) : StopsAtWrites (applyAll cwd format edits done) := by
  induction edits generalizing done with
  | nil => trivial
  | cons edit edits ih =>
      exact (applyEdit_stops cwd format edit done).bind (fun _ => rfl) fun _ => ih _

lemma StopsAtWrites.next {o : Op} {next : Answer o → Prog EditOps (Except ApplyError ρ)}
    (hp : StopsAtWrites (.act o next)) (a : Answer o) : StopsAtWrites (next a) := by
  cases o with
  | write path content =>
      cases a with
      | ok u => exact hp.2
      | error e =>
          obtain ⟨done, hdone⟩ := hp.1 e
          rw [hdone]
          trivial
  | readToString path => exact hp a
  | createDirAll path => exact hp a
  | removeFile path => exact hp a
  | verify v cwd => exact hp a
  | format command => exact hp a
  | requestEdits context => exact hp a

/-- A run in which a write may break off is one in which no write does, but for the last write,
which is then the one reported as failed. -/
lemma StopsAtWrites.runs {p : Prog EditOps (Except ApplyError ρ)} {tr : List (Event EditOps)}
    {r : Except ApplyError ρ} (hp : StopsAtWrites p)
    (run : Runs (guarded Direct (tearing env)) p t tr r t₁) :
    Runs (guarded Direct (refusing env)) p t tr r t₁ ∨
      ∃ t₀ path e done torn, Runs (guarded Direct (refusing env)) p t tr r t₀ ∧
        r = .error ⟨.writeFailed path e, done⟩ ∧ putFile t₀ path torn = some t₁ := by
  induction p generalizing t tr with
  | ret r' =>
      obtain ⟨rfl, rfl, rfl⟩ := runs_ret.mp run
      exact Or.inl .stop
  | act o next ih =>
      obtain ⟨a, s, tr', ⟨hdirect, hstep⟩, hrest, rfl⟩ := runs_act run
      rcases hstep with hstep | hstep
      · rcases ih a (hp.next a) hrest with hrun | ⟨t₀, path, e, done, torn, hrun, hr, hput⟩
        · exact Or.inl (.act ⟨hdirect, hstep⟩ hrun)
        · exact Or.inr ⟨t₀, path, e, done, torn, .act ⟨hdirect, hstep⟩ hrun, hr, hput⟩
      · cases o with
        | write path content =>
            obtain ⟨⟨message, rfl⟩, torn, -, hput⟩ := hstep
            obtain ⟨done, hdone⟩ := hp.1 ⟨.other, message⟩
            rw [hdone] at hrest
            obtain ⟨rfl, rfl, rfl⟩ := runs_ret.mp hrest
            have hrefused : refusing env (.write path content) t (.error ⟨.other, message⟩) t :=
              Or.inr ⟨rfl, message, rfl⟩
            refine Or.inr ⟨t, path, _, done, torn, .act ⟨hdirect, hrefused⟩ ?_, rfl, hput⟩
            rw [hdone]
            exact .stop
        | readToString path => cases hstep
        | createDirAll path => cases hstep
        | removeFile path => cases hstep
        | verify v cwd => cases hstep
        | format command => cases hstep
        | requestEdits context => cases hstep

end BrokenWrites

section Applied

variable {f g : Path → Option Content} {tr : List (Event EditOps)}
  {r : Except ApplyError ApplyResult}

/-- The file of a failed write that is no longer as it was, unless it had been written before. -/
def lost (t : Files) (r : Except ApplyError ApplyResult) (t₁ : Files) : Set Path :=
  {p | ∃ path e done, r = .error ⟨.writeFailed path e, done⟩ ∧ filePlace t.link path = some p ∧
    p ∉ changedPaths t.link done.modifiedFiles ∧ contentAt t₁ p ≠ contentAt t p}

/-- Where an application stops, what it returned records every change it made, but for the write
that broke off. -/
structure Recovers (t : Files) (r : Except ApplyError ApplyResult) (t₁ : Files)
    (g : Path → Option Content) : Prop where
  logged : Logged t.link Set.univ (contentAt t) (written r).modifiedFiles g
  routes : SameRoutes Set.univ t.link t₁.link
  content : ∀ p ∉ lost t r t₁, contentAt t₁ p = g p ∨
    p ∈ changedPaths t.link (written r).modifiedFiles ∧ (contentAt t₁ p).isSome = true

lemma apply_logged (run : Runs (guarded Direct (refusing env)) (apply parsed cwd) t tr r t₁) :
    Logged t.link Set.univ (contentAt t) (written r).modifiedFiles (contentAt t₁) ∧
      SameRoutes Set.univ t.link t₁.link := by
  have hmeets : Meets (guarded Direct (refusing env))
      (ownFiles t.link Set.univ Set.univ ⟨fun _ => True, fun _ => True⟩)
      (ApplyDone t.link Set.univ (contentAt t)
        (editsTo t.link cwd parsed.format parsed.edits (contentAt t)))
      (apply parsed cwd) t := apply_meets (fun _ _ _ _ => Set.mem_univ _) holds_self
  have hdone := run.post hmeets
  cases r with
  | ok applied =>
      obtain ⟨g, hlog, _, hg⟩ := hdone
      rw [holds_univ hg]
      exact ⟨hlog, hg.routes⟩
  | error e =>
      obtain ⟨g, hlog, hg⟩ := hdone
      rw [holds_univ hg]
      exact ⟨hlog, hg.routes⟩

lemma apply_recovers (run : Runs (guarded Direct (tearing env)) (apply parsed cwd) t tr r t₁) :
    ∃ g, Recovers t r t₁ g := by
  rcases (applyAll_stops cwd parsed.format parsed.edits _).runs run with
    hrun | ⟨t₀, path, e, done, torn, hrun, hr, hput⟩
  · obtain ⟨hlog, hroutes⟩ := apply_logged hrun
    exact ⟨contentAt t₁, hlog, hroutes, fun _ _ => Or.inl rfl⟩
  obtain ⟨hlog, hroutes⟩ := apply_logged hrun
  obtain ⟨q, hplace, -, hlink, hcontent⟩ := putFile_eq_some hput
  rw [hroutes.place fun _ _ => Set.mem_univ _] at hplace
  refine ⟨contentAt t₀, hlog, hroutes.trans (.of_eq hlink), fun p hp => ?_⟩
  rcases eq_or_ne p q with rfl | hne
  swap
  · rw [hcontent, Function.update_of_ne hne]
    exact Or.inl rfl
  have hthere : contentAt t₁ p = some torn := by rw [hcontent, Function.update_self]
  by_cases hmem : p ∈ changedPaths t.link (written r).modifiedFiles
  · exact Or.inr ⟨hmem, by rw [hthere]; rfl⟩
  · -- The file was not written before, so the write that broke off has left it as it was.
    have hbefore : contentAt t₀ p = contentAt t p := by
      by_contra hne
      exact hmem (Logged.mem_changed hlog hne)
    subst hr
    have hkept : contentAt t₁ p = contentAt t p := by
      by_contra hlost
      exact hp ⟨path, e, done, rfl, hplace, hmem, hlost⟩
    exact Or.inl (hkept.trans hbefore.symm)

lemma lost_disjoint {p : Path} (hp : p ∈ changedPaths t.link (written r).modifiedFiles) :
    p ∉ lost t r t₁ := by
  rintro ⟨path, e, done, rfl, -, hnew, -⟩
  exact hnew hp

end Applied

section Refusals

/-- Paths lead where the given links lead them, and every file but those that the report lists as
failed is as in `f`, or is one of the changed. -/
structure RestoredBut (links : Links) (changed : Set Path) (f : Path → Option Content)
    (report : RollbackReport) (t : Files) : Prop where
  routes : SameRoutes Set.univ links t.link
  content : ∀ p, (∀ failure ∈ report.failed, filePlace links failure.path ≠ some p) →
    contentAt t p = f p ∨ p ∈ changed

/-- What a program does when it runs alone, as a contract that asks nothing of it. -/
def alone : Contract EditOps Files := keeps EditOps fun _ => True

variable {links : Links} {changed : Set Path} {f : Path → Option Content} {b : FileBackup}
  {report : RollbackReport} {p : Path}

lemma RestoredBut.place (h : RestoredBut links changed f report t) (path : String) :
    filePlace t.link path = filePlace links path := h.routes.place fun _ _ => Set.mem_univ _

lemma RestoredBut.failed {v : Option Content} (hplace : filePlace links b.path = some p)
    (h : RestoredBut links (insert p changed) (Function.update f p v) report t)
    (hlink : t₁.link = t.link) (hfiles : ∀ q, q ≠ p → contentAt t₁ q = contentAt t q)
    (reason : String) :
    RestoredBut links changed f { report with failed := report.failed ++ [⟨b.path, reason⟩] }
      t₁ := by
  refine ⟨h.routes.trans (.of_eq hlink), fun q hq => ?_⟩
  have hne : q ≠ p := by
    rintro rfl
    exact hq ⟨b.path, reason⟩ (by simp) hplace
  have hrest := h.content q fun failure hmem => hq failure (by simp [hmem])
  rw [Function.update_of_ne hne] at hrest
  rw [hfiles q hne]
  exact hrest.imp_right fun hmem => hmem.resolve_left hne

lemma RestoredBut.undone {v : Option Content} {restored deleted : List String}
    (h : RestoredBut links (insert p changed) (Function.update f p v) report t)
    (hlink : t₁.link = t.link) (hfiles : contentAt t₁ = Function.update (contentAt t) p (f p)) :
    RestoredBut links changed f ⟨restored, report.failed, deleted⟩ t₁ := by
  refine ⟨h.routes.trans (.of_eq hlink), fun q hq => ?_⟩
  rw [hfiles]
  rcases eq_or_ne q p with rfl | hne
  · exact Or.inl (Function.update_self _ _ _)
  · have hrest := h.content q hq
    rw [Function.update_of_ne hne] at hrest ⊢
    exact hrest.imp_right fun hmem => hmem.resolve_left hne

lemma tearing_write {path content : String} {a : Except IoError Unit}
    (h : tearing env (.write path content) t a t₁) :
    a = .ok () ∧ writeOutcome t path content = some t₁ ∨
      ∃ e, a = .error e ∧ (t₁ = t ∨ ∃ torn, putFile t path torn = some t₁) := by
  rcases h with h | ⟨⟨message, rfl⟩, torn, -, hput⟩
  · rcases refusing_write h with h | ⟨rfl, e, rfl⟩
    · exact Or.inl h
    · exact Or.inr ⟨e, rfl, Or.inl rfl⟩
  · exact Or.inr ⟨_, rfl, Or.inr ⟨torn, hput⟩⟩

/-- Removing a path that no link stands for. -/
lemma tearing_removeFile {path : String} {a : Except IoError Unit}
    (hroute : route t.link false path = some ⟨p, false⟩) (hnone : t.link p = none)
    (h : tearing env (.removeFile path) t a t₁) :
    a = .ok () ∧ t₁.link = t.link ∧ contentAt t₁ = Function.update (contentAt t) p none ∨
      t₁ = t ∧ ∃ e, a = .error e ∧ (e.kind = .notFound → contentAt t p = none) := by
  rcases h with (h | ⟨rfl, m, rfl⟩) | h
  · simp only [perform, Attempted] at h
    split at h
    · next u hu =>
      obtain ⟨rfl, rfl⟩ := h
      simp only [removeOutcome, hroute, hnone] at hu
      split at hu
      · next disk hdisk =>
        obtain rfl := Option.some.inj hu
        exact Or.inl ⟨rfl, rfl, removeFile_fileAt hdisk⟩
      · cases hu
    · obtain ⟨rfl, m, rfl⟩ := h
      refine Or.inr ⟨rfl, _, rfl, fun hkind => ?_⟩
      simp only [removeCause, hroute] at hkind
      by_cases hocc : occupied t₁.disk p = true
      · simp [hocc] at hkind
      · have hnode : t₁.disk.node p = none := by simpa [occupied] using hocc
        exact fileAt_eq_none.mpr (Or.inl hnode)
  · exact Or.inr ⟨rfl, _, rfl, by simp⟩
  · cases h

/-- One backup is written back, or its path is listed. -/
lemma rollbackOne_restores (hb : BackupOf links Set.univ b p)
    (hsaved : b.originalContent.map .text = f p)
    (h : RestoredBut links (insert p changed) (Function.update f p (some (.text b.newContent)))
      report t) :
    Meets (tearing env) alone (RestoredBut links changed f) (rollbackOne b report) t := by
  have hplace := hb.place
  unfold rollbackOne
  cases horig : b.originalContent with
  | some original =>
      rintro s rfl a s' hstep
      refine ⟨trivial, ?_⟩
      rw [horig, Option.map_some] at hsaved
      rcases tearing_write hstep with ⟨rfl, hwrite⟩ | ⟨e, rfl, htorn⟩
      · obtain ⟨q, hq, -, hlink, hfiles⟩ := writeOutcome_eq_some hwrite
        rw [h.place, hplace] at hq
        obtain rfl := Option.some.inj hq
        rw [hsaved] at hfiles
        rintro _ rfl
        exact h.undone hlink hfiles
      · rintro _ rfl
        rcases htorn with rfl | ⟨torn, hput⟩
        · exact h.failed hplace rfl (fun _ _ => rfl) _
        · obtain ⟨q, hq, -, hlink, hfiles⟩ := putFile_eq_some hput
          rw [h.place, hplace] at hq
          obtain rfl := Option.some.inj hq
          exact h.failed hplace hlink (fun x hx => by rw [hfiles, Function.update_of_ne hx]) _
  | none =>
      rintro s rfl a s' hstep
      refine ⟨trivial, ?_⟩
      rw [horig, Option.map_none] at hsaved
      have hroute := hb.direct horig
      rw [← h.routes b.path (fun _ _ => Set.mem_univ _) false] at hroute
      have hnolink := link_filePlace ((h.place b.path).trans hplace)
      rcases tearing_removeFile hroute hnolink hstep with
        ⟨rfl, hlink, hfiles⟩ | ⟨rfl, e, rfl, habsent⟩
      · rw [hsaved] at hfiles
        rintro _ rfl
        exact h.undone hlink hfiles
      · obtain ⟨kind, message⟩ := e
        cases kind with
        | notFound =>
            have hsame : contentAt s' p = f p := (habsent rfl).trans hsaved
            rintro _ rfl
            apply h.undone rfl
            rw [← hsame, Function.update_eq_self]
        | other =>
            rintro _ rfl
            exact h.failed hplace rfl (fun _ _ => rfl) _

lemma rollbackEach_restores {log : List FileBackup} {g : Path → Option Content}
    (hlog : Logged links Set.univ f log g)
    (h : RestoredBut links (changedPaths links log ∪ changed) g report t) :
    Meets (tearing env) alone (RestoredBut links changed f) (rollbackEach log.reverse report)
      t := by
  induction log using List.reverseRecOn generalizing g t report with
  | nil =>
      have hg := hlog.recorded.undoAll_eq
      simp only [List.map_nil, undoAll_nil] at hg
      subst hg
      rintro _ rfl
      have hnone : changedPaths links [] = ∅ := by simp [changedPaths]
      rw [hnone, Set.empty_union] at h
      exact h
  | append_singleton log b ih =>
      obtain ⟨p, g', hb, hlog', hsaved, rfl⟩ := Logged.unconcat hlog
      rw [changedPaths_concat hb.place, Set.insert_union] at h
      rw [List.reverse_concat]
      exact Meets.bind ((rollbackOne_restores hb hsaved h).mono fun report' t' h' => ih hlog' h')

end Refusals

/-- Rolling back undoes an application in which any operation may have been refused and a write may
have broken off, where no file was created through a link: every file is as before, but for the one
whose write broke off. Where the rollback's own operations may be refused or break off, too, the
report lists the files that are not. -/
theorem rollback_inverse {tr : List (Event EditOps)} {r : Except ApplyError ApplyResult}
    (happly : Runs (guarded Direct (tearing env)) (apply parsed cwd) t tr r t₁) :
    (∀ tr' report t₂, Runs (perform env) (rollback (written r)) t₁ tr' report t₂ →
      report.failed = [] ∧ SameRoutes Set.univ t.link t₂.link ∧
        ∀ p ∉ lost t r t₁, contentAt t₂ p = contentAt t p) ∧
    ∀ tr' report t₂, Runs (tearing env) (rollback (written r)) t₁ tr' report t₂ →
      SameRoutes Set.univ t.link t₂.link ∧ ∀ p ∉ lost t r t₁,
        (∀ failure ∈ report.failed, filePlace t.link failure.path ≠ some p) →
          contentAt t₂ p = contentAt t p := by
  obtain ⟨g, hrecovers⟩ := apply_recovers happly
  have hlog := hrecovers.logged
  have hstart : RestoredBut t.link
      (changedPaths t.link (written r).modifiedFiles ∪ lost t r t₁) g ⟨[], [], []⟩ t₁ := by
    refine ⟨hrecovers.routes, fun p _ => ?_⟩
    by_cases hp : p ∈ lost t r t₁
    · exact Or.inr (Or.inr hp)
    · exact (hrecovers.content p hp).imp_right fun h => Or.inl h.1
  have hrestores : Meets (tearing env) alone (RestoredBut t.link (lost t r t₁) (contentAt t))
      (rollback (written r)) t₁ := rollbackEach_restores hlog hstart
  constructor
  · intro tr' report t₂ hroll
    -- The lost file is none of those the rollback is responsible for.
    have hown : Logged t.link (lost t r t₁)ᶜ (contentAt t) (written r).modifiedFiles g := by
      refine ⟨hlog.recorded, fun b hb => ?_⟩
      obtain ⟨p, hbackup⟩ := hlog.backups b hb
      exact ⟨p, hbackup.place, lost_disjoint ⟨b, hb, hbackup.place⟩, hbackup.direct⟩
    have hmeets : Meets (perform env)
        (ownFiles t.link Set.univ (lost t r t₁)ᶜ ⟨fun _ => True, fun _ => True⟩)
        (fun report t' => report.failed = [] ∧ Holds t.link (lost t r t₁)ᶜ (contentAt t) t')
        (rollback (written r)) t₁ :=
      rollback_meets (fun _ _ _ _ h => h) hown
        ⟨hrecovers.routes.mono (Set.subset_univ _), fun p hp => hrecovers.content p hp⟩
    obtain ⟨hfailed, hholds⟩ := hroll.post hmeets
    have hrestored := hroll.post (hrestores.restrict fun (_ : Op) _ _ _ (h : perform env _ _ _ _) =>
      tearing_of_refusing (refusing_of_perform h))
    exact ⟨hfailed, hrestored.routes, fun p hp => hholds.content hp⟩
  · intro tr' report t₂ hroll
    have hrestored := hroll.post hrestores
    exact ⟨hrestored.routes, fun p hp hlisted => (hrestored.content p hlisted).resolve_right hp⟩

section Runs

/-- Every command succeeds and changes nothing. -/
def carryOut : (o : Op) → Files → Answer o × Files :=
  handle (fun _ => ⟨true, "", "", some 0, false, false⟩) fun _ => .ok ""

/-- The writes of one text break off after some of it. -/
def breaking (text part : String) : (o : Op) → Files → Answer o × Files
  | .write path content, t =>
      if content = text then
        (.error ⟨.other, "no space left on device"⟩, (putFile t path (.text part)).getD t)
      else carryOut (.write path content) t
  | o, t => carryOut o t

lemma carryOut_performs (o : Op) (t : Files) :
    perform quiet o t (carryOut o t).1 (carryOut o t).2 :=
  handle_performs (fun _ => rfl) (fun _ _ _ => trivial) o t

lemma breaking_tears {text part : String} (hpart : part.toList <+: text.toList) (o : Op)
    (t : Files) : tearing quiet o t (breaking text part o t).1 (breaking text part o t).2 := by
  have hcarry := tearing_of_refusing (refusing_of_perform (carryOut_performs o t))
  cases o with
  | write path content =>
      by_cases htext : content = text
      · subst htext
        rw [breaking, if_pos rfl]
        cases hput : putFile t path (.text part) with
        | none => exact tearing_of_refusing (Or.inr ⟨rfl, _, rfl⟩)
        | some t' => exact Or.inr ⟨⟨_, rfl⟩, .text part, hpart, hput⟩
      · rw [breaking, if_neg htext]
        exact hcarry
  | readToString path => exact hcarry
  | createDirAll path => exact hcarry
  | removeFile path => exact hcarry
  | verify v cwd => exact hcarry
  | format command => exact hcarry
  | requestEdits context => exact hcarry

lemma tearing_plain (h : t.Plain) {o : Op} {a : Answer o} (hstep : tearing quiet o t a t₁) :
    t₁.Plain := by
  rcases hstep with (hstep | ⟨rfl, _⟩) | hstep
  · exact perform_plain (fun u u' hu => (quiet_quiet u u' hu).1) h hstep
  · exact h
  · cases o with
    | write path content =>
        obtain ⟨-, torn, -, hput⟩ := hstep
        obtain ⟨_, _, _, hlink, _⟩ := putFile_eq_some hput
        exact hlink.trans h
    | readToString path => cases hstep
    | createDirAll path => cases hstep
    | removeFile path => cases hstep
    | verify v cwd => cases hstep
    | format command => cases hstep
    | requestEdits context => cases hstep

/-- Two writes of one new file and a write of another one. -/
def brokenOff : ParsedEdits :=
  ⟨[⟨"a.txt", "", "one"⟩, ⟨"a.txt", "", "two"⟩, ⟨"b.txt", "", "three"⟩], .fullFile⟩

/-- The third write breaks off. -/
def applied : List (Event EditOps) × Except ApplyError ApplyResult × Files :=
  eval (breaking "three" "th") (apply brokenOff "/w") Files.empty

def undo (r : Except ApplyError ApplyResult) (t : Files) :
    List (Event EditOps) × RollbackReport × Files :=
  eval carryOut (rollback (written r)) t

lemma undo_runs (r : Except ApplyError ApplyResult) (t : Files) :
    Runs (perform quiet) (rollback (written r)) t (undo r t).1 (undo r t).2.1 (undo r t).2.2 :=
  eval_runs carryOut_performs _ _

theorem rollback_inverse_brokenOff :
    contentAt applied.2.2 ["w", "a.txt"] = some (.text "two") ∧
      contentAt applied.2.2 ["w", "b.txt"] = some (.text "th") ∧
      (undo applied.2.1 applied.2.2).2.1.deleted = ["/w/a.txt"] ∧
      (undo applied.2.1 applied.2.2).2.1.restored = ["/w/a.txt"] ∧
      (undo applied.2.1 applied.2.2).2.1.failed = [] ∧
      SameRoutes Set.univ Files.empty.link (undo applied.2.1 applied.2.2).2.2.link ∧
      ∀ p ∉ lost Files.empty applied.2.1 applied.2.2,
        contentAt (undo applied.2.1 applied.2.2).2.2 p = contentAt Files.empty p := by
  have hrun : Runs (tearing quiet) (apply brokenOff "/w") Files.empty applied.1 applied.2.1
      applied.2.2 := eval_runs (breaking_tears (by decide)) _ _
  have hplain : Files.empty.Plain := rfl
  have hdirect : Runs (guarded Direct (tearing quiet)) (apply brokenOff "/w") Files.empty applied.1
      applied.2.1 applied.2.2 :=
    Steps.guarded (fun o _ ht => Files.Plain.admits ht o) (fun _ _ _ _ ht h => tearing_plain ht h)
      hrun hplain
  exact ⟨by decide, by decide, by decide, by decide,
    (rollback_inverse hdirect).1 _ _ _ (undo_runs _ _)⟩

/-- One file is replaced as a whole. -/
def replacing : ParsedEdits := ⟨[⟨"a.txt", "", "new"⟩], .fullFile⟩

def throughLink : List (Event EditOps) × Except ApplyError ApplyResult × Files :=
  eval carryOut (apply replacing "/w") dangling

def oldText : Files :=
  (writeOutcome ⟨addDirs Disk.empty ["w"], fun _ => none⟩ "/w/a.txt" "old").getD Files.empty

/-- The only write breaks off before its first byte. -/
def emptied : List (Event EditOps) × Except ApplyError ApplyResult × Files :=
  eval (breaking "new" "") (apply replacing "/w") oldText

/-- Neither a file made behind a dangling link nor one whose write broke off is restored. -/
theorem rollback_leaves :
    (Runs (perform quiet) (apply replacing "/w") dangling throughLink.1 throughLink.2.1
        throughLink.2.2 ∧
      Runs (perform quiet) (rollback (written throughLink.2.1)) throughLink.2.2
        (undo throughLink.2.1 throughLink.2.2).1 (undo throughLink.2.1 throughLink.2.2).2.1
        (undo throughLink.2.1 throughLink.2.2).2.2 ∧
      contentAt dangling ["w", "b.txt"] = none ∧
      contentAt (undo throughLink.2.1 throughLink.2.2).2.2 ["w", "b.txt"] = some (.text "new")) ∧
    Runs (tearing quiet) (apply replacing "/w") oldText emptied.1 emptied.2.1 emptied.2.2 ∧
      Runs (perform quiet) (rollback (written emptied.2.1)) emptied.2.2
        (undo emptied.2.1 emptied.2.2).1 (undo emptied.2.1 emptied.2.2).2.1
        (undo emptied.2.1 emptied.2.2).2.2 ∧
      contentAt oldText ["w", "a.txt"] = some (.text "old") ∧
      contentAt (undo emptied.2.1 emptied.2.2).2.2 ["w", "a.txt"] = some (.text "") :=
  ⟨⟨eval_runs carryOut_performs _ _, undo_runs _ _, by decide, by decide⟩,
    eval_runs (breaking_tears (by decide)) _ _, undo_runs _ _, by decide, by decide⟩

end Runs

end Loker.Rollback
