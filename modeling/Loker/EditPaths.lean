import Loker.Rollback

/-! Which paths an application of edits works on, and what it leaves alone. -/

namespace Loker.EditPaths

open FileTree SymbolicLinks Programs TextOps EditFiles DiffApplier EditRetry Rollback

variable {env : Surroundings} {parsed : ParsedEdits} {edit : FileEdit} {cwd file : String}
  {format : EditFormat} {done : ApplyResult} {t t' : Files} {tr : List (Event EditOps)}

section Paths

/-- A path of nothing but dots and slashes. -/
def onlyDots (file : String) : Bool := normalComponents file = []

lemma foldl_descend {names : List String} (h : ".." ∉ names) (base : Path) :
    names.foldl descend base = base ++ names.filter fun s => s ≠ "" ∧ s ≠ "." := by
  induction names generalizing base with
  | nil => simp
  | cons s names ih =>
      have hrest : ".." ∉ names := fun hmem => h (List.mem_cons_of_mem _ hmem)
      have hup : s ≠ ".." := fun hs => h (hs ▸ List.mem_cons_self)
      rw [List.foldl_cons, ih hrest]
      by_cases hs : s = "" ∨ s = "."
      · have hdrop : ¬ (s ≠ "" ∧ s ≠ ".") := by tauto
        simp [descend, hs, hdrop]
      · have hkeep : s ≠ "" ∧ s ≠ "." := by tauto
        simp [descend, hup, hkeep.1, hkeep.2]

/-- An accepted path leads to the working directory and on from there. -/
lemma resolve_accepted (h : escapes cwd file = false) :
    resolve (joinPath cwd file) = resolve cwd ++ normalComponents file := by
  obtain ⟨hslash, hup⟩ := escapes_false h
  rw [(joinPath_components hslash).2, foldl_descend hup]
  rfl

lemma dots_of_onlyDots (hdots : onlyDots file = true) :
    ∀ s ∈ components file, s = "" ∨ s = "." := by
  intro s hs
  have hnil : normalComponents file = [] := by simpa [onlyDots] using hdots
  have hnot := List.filter_eq_nil_iff.mp hnil s hs
  simp only [decide_eq_true_eq] at hnot
  tauto

lemma namesDirectory_of_onlyDots (h : startsWith file "/" = false) (hdots : onlyDots file = true) :
    namesDirectory (joinPath cwd file) = true := by
  have hfront : ∃ front, components (joinPath cwd file) = front ++ components file :=
    (joinPath_components h).1
  obtain ⟨front, hfront⟩ := hfront
  have hne : components file ≠ [] := by simp [components]
  have hlast : (components (joinPath cwd file)).getLast? = some ((components file).getLast hne) := by
    rw [hfront, List.getLast?_append_of_ne_nil _ hne, List.getLast?_eq_some_getLast hne]
  simp only [namesDirectory, hlast, Option.some.injEq, decide_eq_true_eq]
  exact dots_of_onlyDots hdots _ (List.getLast_mem hne)

/-- The place a path of dots leads to from the working directory is the working directory. -/
lemma route_onlyDots {links : Links} (h : startsWith file "/" = false)
    (hdots : onlyDots file = true) :
    (route links true (joinPath cwd file)).map Route.place =
      (route links true cwd).map Route.place := by
  have hfile := dots_of_onlyDots hdots
  have hempty : ∀ s ∈ [""], s = "" ∨ s = "." := by simp
  unfold route joinPath
  rw [if_neg (by simp [h])]
  by_cases hnil : cwd = ""
  · subst hnil
    rw [if_pos (Or.inl rfl), String.empty_append, ← List.nil_append (components file),
      walk_dots hfile, show components "" = [] ++ [""] by decide, walk_dots hempty]
  · by_cases hslash : endsWith cwd "/" = true
    · rw [if_pos (Or.inr hslash)]
      obtain ⟨a, rfl⟩ := endsWith_iff.mp hslash
      have hcwd : components (a ++ "/") = components a ++ [""] := by
        have hconcat := components_concat a ""
        rwa [String.append_empty] at hconcat
      rw [components_concat, walk_dots hfile, hcwd, walk_dots hempty]
    · rw [if_neg (by simp [hnil, hslash]), components_concat, walk_dots hfile]

end Paths

section Emitted

/-- Strictly below the working directory, after `.` and `..` are resolved. -/
def Inside (cwd : String) (p : Path) : Prop := resolve cwd <+: p ∧ p ≠ resolve cwd

/-- The path of an edit that is not rejected. -/
def Accepted (cwd file path : String) : Prop :=
  path = joinPath cwd file ∧ escapes cwd file = false

/-- The operation reads or writes at an accepted path or makes the directories above it. -/
def Touches (cwd : String) (edits : List FileEdit) : Op → Prop
  | .readToString path | .write path _ => ∃ e ∈ edits, Accepted cwd e.file path
  | .createDirAll dir =>
      ∃ e ∈ edits, ∃ path, Accepted cwd e.file path ∧ dir = (normalComponents path).dropLast
  | _ => False

lemma Accepted.inside_or_dots {path : String} (h : Accepted cwd file path) :
    Inside cwd (resolve path) ∨ onlyDots file = true ∧ resolve path = resolve cwd := by
  obtain ⟨rfl, hescapes⟩ := h
  rw [resolve_accepted hescapes]
  by_cases hdots : onlyDots file = true
  · right
    have hnil : normalComponents file = [] := by simpa [onlyDots] using hdots
    exact ⟨hdots, by rw [hnil, List.append_nil]⟩
  · left
    have hnames : normalComponents file ≠ [] := by simpa [onlyDots] using hdots
    exact ⟨List.prefix_append _ _, by simpa using hnames⟩

variable {edits : List FileEdit}

lemma writeEdit_touches {filePath new : String} {original : Option String} (he : edit ∈ edits)
    (h : Accepted cwd edit.file filePath) :
    Emits (Touches cwd edits) (writeEdit filePath original new done) := by
  refine ⟨⟨edit, he, h⟩, fun a => ?_⟩
  cases a <;> trivial

lemma applyFullFile_touches {filePath : String} (he : edit ∈ edits)
    (h : Accepted cwd edit.file filePath) :
    Emits (Touches cwd edits) (applyFullFile edit filePath done) := by
  refine ⟨⟨edit, he, h⟩, fun a => ?_⟩
  cases a with
  | ok content => exact writeEdit_touches he h
  | error e =>
      obtain ⟨kind, message⟩ := e
      cases kind with
      | other => trivial
      | notFound =>
          refine ⟨⟨edit, he, filePath, h, rfl⟩, fun made => ?_⟩
          cases made with
          | error e => trivial
          | ok _ => exact writeEdit_touches he h

lemma applyFindReplace_touches {filePath : String} (he : edit ∈ edits)
    (h : Accepted cwd edit.file filePath) :
    Emits (Touches cwd edits) (applyFindReplace edit filePath format done) := by
  refine ⟨⟨edit, he, h⟩, fun a => ?_⟩
  cases a with
  | error e =>
      obtain ⟨kind, message⟩ := e
      cases kind <;> trivial
  | ok content =>
      show Emits (Touches cwd edits) (replaceOnce edit filePath format done content)
      unfold replaceOnce
      dsimp only
      split_ifs
      · trivial
      · trivial
      · trivial
      · trivial
      · exact writeEdit_touches he h

lemma applyEdit_touches (he : edit ∈ edits) :
    Emits (Touches cwd edits) (applyEdit cwd format edit done) := by
  unfold applyEdit
  split
  · trivial
  · split
    · trivial
    · next hescapes =>
      have haccepted : Accepted cwd edit.file (joinPath cwd edit.file) :=
        ⟨rfl, Bool.eq_false_iff.mpr hescapes⟩
      cases format with
      | fullFile => exact applyFullFile_touches he haccepted
      | jsonOldNew => exact applyFindReplace_touches he haccepted
      | unifiedDiff => exact applyFindReplace_touches he haccepted

lemma applyAll_touches (rest : List FileEdit) (done : ApplyResult) (h : rest ⊆ edits) :
    Emits (Touches cwd edits) (applyAll cwd format rest done) := by
  induction rest generalizing done with
  | nil => trivial
  | cons edit rest ih =>
      obtain ⟨he, hrest⟩ := List.cons_subset.mp h
      refine (applyEdit_touches he).bind fun r => ?_
      cases r with
      | error e => trivial
      | ok backup => exact ih _ hrest

end Emitted

section Returned

/-- One edit gives a backup of the file it wrote or fails with what was written before it. -/
def OneBackup (filePath : String) (done : ApplyResult) : Except ApplyError FileBackup → Prop
  | .ok backup => backup.path = filePath
  | .error e => e.partialResult = done

lemma writeEdit_yields (filePath new : String) (original : Option String) :
    Yields (OneBackup filePath done) (writeEdit filePath original new done) := by
  intro a
  cases a <;> rfl

lemma applyFullFile_yields (filePath : String) :
    Yields (OneBackup filePath done) (applyFullFile edit filePath done) := by
  intro a
  cases a with
  | ok content => exact writeEdit_yields filePath edit.new (some content)
  | error e =>
      obtain ⟨kind, message⟩ := e
      cases kind with
      | other => rfl
      | notFound =>
          intro made
          cases made with
          | error e => rfl
          | ok _ => exact writeEdit_yields filePath edit.new none

lemma applyFindReplace_yields (filePath : String) :
    Yields (OneBackup filePath done) (applyFindReplace edit filePath format done) := by
  intro a
  cases a with
  | error e =>
      obtain ⟨kind, message⟩ := e
      cases kind <;> rfl
  | ok content =>
      show Yields (OneBackup filePath done) (replaceOnce edit filePath format done content)
      unfold replaceOnce
      dsimp only
      split_ifs
      · rfl
      · rfl
      · rfl
      · rfl
      · exact writeEdit_yields filePath _ (some content)

lemma applyEdit_yields :
    Yields (fun r => match r with
      | .ok backup => Accepted cwd edit.file backup.path
      | .error e => e.partialResult = done) (applyEdit cwd format edit done) := by
  unfold applyEdit
  split
  · rfl
  · split
    · rfl
    · next hescapes =>
      have haccepted : ∀ r, OneBackup (joinPath cwd edit.file) done r → match r with
          | .ok backup => Accepted cwd edit.file backup.path
          | .error e => e.partialResult = done := by
        intro r hr
        cases r with
        | ok backup => exact ⟨hr, Bool.eq_false_iff.mpr hescapes⟩
        | error e => exact hr
      cases format with
      | fullFile => exact (applyFullFile_yields _).mono haccepted
      | jsonOldNew => exact (applyFindReplace_yields _).mono haccepted
      | unifiedDiff => exact (applyFindReplace_yields _).mono haccepted

end Returned

section Rejected

/-- The working directory is there. -/
def Present (t : Files) (cwd : String) : Prop :=
  ∃ p ∈ (route t.link true cwd).map Route.place, isDir t.disk p = true

/-- What an edit does that is not applied. -/
structure Spared (done : ApplyResult) (cwd : String) (t : Files)
    (r : Except ApplyError FileBackup) (t' : Files) : Prop where
  failed : ∃ e, r = .error e ∧ e.partialResult = done
  link : t'.link = t.link
  files : contentAt t' = contentAt t
  tree : Present t cwd → t' = t

variable {r : Except ApplyError FileBackup} {filePath : String}

lemma Spared.of_ret {kind : ApplyErrorKind}
    (run : Runs (tearing env) (.ret (.error ⟨kind, done⟩)) t tr r t') : Spared done cwd t r t' := by
  obtain ⟨_, rfl, rfl⟩ := runs_ret.mp run
  exact ⟨⟨_, rfl, rfl⟩, rfl, rfl, fun _ => rfl⟩

lemma putFile_directory {content : Content} (hname : namesDirectory filePath = true) :
    putFile t filePath content = none := by
  rw [putFile, filePlace_directory hname]

lemma writeEdit_spared {new : String} {original : Option String}
    (hname : namesDirectory filePath = true)
    (run : Runs (tearing env) (writeEdit filePath original new done) t tr r t') :
    (∃ e, r = .error e ∧ e.partialResult = done) ∧ t' = t := by
  obtain ⟨a, t₁, tr', hstep, hrest, _⟩ := runs_call run
  rcases tearing_write hstep with ⟨_, hwrite⟩ | ⟨e, rfl, hkept⟩
  · rw [writeOutcome, putFile_directory hname] at hwrite
    cases hwrite
  · obtain ⟨_, rfl, rfl⟩ := runs_ret.mp hrest
    refine ⟨⟨_, rfl, rfl⟩, ?_⟩
    rcases hkept with rfl | ⟨torn, hput⟩
    · rfl
    · rw [putFile_directory hname] at hput
      cases hput

/-- A directory's path is not read, and it is not taken for missing where there is one. -/
lemma tearing_read_directory {a : Except IoError String} (hname : namesDirectory filePath = true)
    (h : tearing env (.readToString filePath) t a t') :
    t' = t ∧ ∃ e, a = .error e ∧ (e.kind = .notFound →
      ∀ p ∈ (route t.link true filePath).map Route.place, isDir t.disk p = false) := by
  rcases h with (⟨rfl, ha⟩ | ⟨rfl, m, rfl⟩) | h
  · refine ⟨rfl, ?_⟩
    cases hread : readOutcome t' filePath with
    | ok s =>
        obtain ⟨p, hplace, _⟩ := readOutcome_ok hread
        rw [filePlace_directory hname] at hplace
        cases hplace
    | error kind =>
        rw [hread] at ha
        obtain ⟨m, rfl⟩ := ha
        refine ⟨_, rfl, fun hkind p hp => ?_⟩
        obtain rfl : kind = .notFound := hkind
        obtain ⟨place, hroute, rfl⟩ := Option.map_eq_some_iff.mp hp
        have hmissing := readOutcome_missing hread hroute
        simp [isDir, hmissing]
  · exact ⟨rfl, _, rfl, by simp⟩
  · cases h

lemma applyFullFile_spared (hname : namesDirectory filePath = true)
    (hcwd : (route t.link true filePath).map Route.place = (route t.link true cwd).map Route.place)
    (run : Runs (tearing env) (applyFullFile edit filePath done) t tr r t') :
    Spared done cwd t r t' := by
  obtain ⟨a, t₁, tr', hstep, hrest, _⟩ := runs_call run
  obtain ⟨rfl, e, rfl, hmissing⟩ := tearing_read_directory hname hstep
  obtain ⟨kind, message⟩ := e
  cases kind with
  | other => exact .of_ret hrest
  | notFound =>
      have hnone := hmissing rfl
      rw [hcwd] at hnone
      obtain ⟨made, t₂, tr₂, hmake, hwrite, _⟩ := runs_call hrest
      have hmade : t₂.link = t₁.link ∧ contentAt t₂ = contentAt t₁ := by
        rcases hmake with hmake | hmake
        · exact refusing_createDirAll hmake
        · cases hmake
      have hlast : (∃ e, r = .error e ∧ e.partialResult = done) ∧ t' = t₂ := by
        cases made with
        | error e =>
            obtain ⟨_, rfl, rfl⟩ := runs_ret.mp hwrite
            exact ⟨⟨_, rfl, rfl⟩, rfl⟩
        | ok _ => exact writeEdit_spared hname hwrite
      obtain ⟨hfailed, rfl⟩ := hlast
      refine ⟨hfailed, hmade.1, hmade.2, fun hpresent => ?_⟩
      obtain ⟨p, hp, hdir⟩ := hpresent
      rw [hnone p hp] at hdir
      cases hdir

lemma applyFindReplace_spared (hname : namesDirectory filePath = true)
    (run : Runs (tearing env) (applyFindReplace edit filePath format done) t tr r t') :
    Spared done cwd t r t' := by
  obtain ⟨a, t₁, tr', hstep, hrest, _⟩ := runs_call run
  obtain ⟨rfl, e, rfl, hmissing⟩ := tearing_read_directory hname hstep
  obtain ⟨kind, message⟩ := e
  cases kind with
  | other => exact .of_ret hrest
  | notFound => exact .of_ret hrest

/-- An edit whose path is not strictly inside the working directory fails without a change. -/
lemma applyEdit_spared (hout : ¬ Inside cwd (resolve (joinPath cwd edit.file)))
    (run : Runs (tearing env) (applyEdit cwd format edit done) t tr r t') :
    Spared done cwd t r t' := by
  unfold applyEdit at run
  split at run
  · exact .of_ret run
  · split at run
    · exact .of_ret run
    · next hescapes =>
      have hescapes : escapes cwd edit.file = false := Bool.eq_false_iff.mpr hescapes
      have haccepted : Accepted cwd edit.file (joinPath cwd edit.file) := ⟨rfl, hescapes⟩
      obtain ⟨hdots, _⟩ := haccepted.inside_or_dots.resolve_left hout
      obtain ⟨hslash, _⟩ := escapes_false hescapes
      have hname : namesDirectory (joinPath cwd edit.file) = true :=
        namesDirectory_of_onlyDots hslash hdots
      cases format with
      | fullFile => exact applyFullFile_spared hname (route_onlyDots hslash hdots) run
      | jsonOldNew => exact applyFindReplace_spared hname run
      | unifiedDiff => exact applyFindReplace_spared hname run

/-- Every file that was written is strictly inside the working directory, by induction on the
edits. -/
lemma applyAll_inside {edits : List FileEdit} {r : Except ApplyError ApplyResult}
    (hdone : ∀ backup ∈ done.modifiedFiles, Inside cwd (resolve backup.path))
    (run : Runs (tearing env) (applyAll cwd format edits done) t tr r t') :
    ∀ backup ∈ (written r).modifiedFiles, Inside cwd (resolve backup.path) := by
  induction edits generalizing done t tr with
  | nil =>
      obtain ⟨_, rfl, _⟩ := runs_ret.mp run
      exact hdone
  | cons edit edits ih =>
      obtain ⟨first, tr₁, tr₂, t₁, hfirst, hrest, _⟩ := runs_bind run
      have hyields := hfirst.yields applyEdit_yields
      cases first with
      | error e =>
          obtain ⟨_, rfl, _⟩ := runs_ret.mp hrest
          have hsame : e.partialResult = done := hyields
          rw [written, hsame]
          exact hdone
      | ok backup =>
          refine ih (fun b hb => ?_) hrest
          rcases List.mem_append.mp hb with hb | hb
          · exact hdone b hb
          · rw [List.mem_singleton.mp hb]
            by_contra hout
            have haccepted : Accepted cwd edit.file backup.path := hyields
            rw [haccepted.1] at hout
            obtain ⟨⟨e, herror, _⟩, _⟩ := applyEdit_spared hout hfirst
            cases herror

end Rejected

/-- At every moment of an application only paths strictly inside the working directory have been
worked on, but for reads of the working directory itself by edits of dots alone, and an edit with
any other path fails without a change. -/
theorem apply_inside {p : Prog EditOps (Except ApplyError ApplyResult)}
    (run : Steps (tearing env) (apply parsed cwd) t tr p t') :
    (∀ e ∈ tr, Touches cwd parsed.edits e.op) ∧
    (∀ e ∈ parsed.edits, ∀ path, Accepted cwd e.file path →
      Inside cwd (resolve path) ∨ onlyDots e.file = true ∧ resolve path = resolve cwd) ∧
    (∀ r, p = .ret r → ∀ backup ∈ (written r).modifiedFiles, Inside cwd (resolve backup.path)) ∧
    ∀ e ∈ parsed.edits, ¬ Inside cwd (resolve (joinPath cwd e.file)) →
      ∀ done u tr r u', Runs (tearing env) (applyEdit cwd parsed.format e done) u tr r u' →
        Spared done cwd u r u' := by
  have hemits : Emits (Touches cwd parsed.edits) (apply parsed cwd) :=
    applyAll_touches parsed.edits _ (List.Subset.refl _)
  refine ⟨(run.emits hemits).2, fun e _ path h => h.inside_or_dots, ?_, ?_⟩
  · rintro r rfl
    exact applyAll_inside (by simp) run
  · exact fun e _ hout done u tr r u' hrun => applyEdit_spared hout hrun

/-- A new file in a new directory and an edit that climbs out. -/
def climbing : ParsedEdits := ⟨[⟨"src/a.txt", "", "new"⟩, ⟨"../b.txt", "", "out"⟩], .fullFile⟩

def climbed : List (Event EditOps) × Except ApplyError ApplyResult × Files :=
  eval carryOut (apply climbing "/w") Files.empty

theorem apply_inside_climbing :
    contentAt climbed.2.2 ["w", "src", "a.txt"] = some (.text "new") ∧
      ∀ backup ∈ (written climbed.2.1).modifiedFiles, Inside "/w" (resolve backup.path) := by
  have hrun : Steps (tearing quiet) (apply climbing "/w") Files.empty climbed.1 (.ret climbed.2.1)
      climbed.2.2 :=
    eval_runs (fun o t => tearing_of_refusing (refusing_of_perform (carryOut_performs o t))) _ _
  obtain ⟨_, _, hbackups, _⟩ := apply_inside hrun
  exact ⟨by decide, hbackups _ rfl⟩

/-- An edit of `.` reads the working directory itself, and one of a plain name makes a missing
working directory. -/
theorem dot_reads_cwd :
    (∃ tr r t', Runs (perform quiet) (apply ⟨[⟨".", "", "x"⟩], .fullFile⟩ "/w")
      ⟨addDirs Disk.empty ["w"], fun _ => none⟩ tr r t' ∧
      ∃ e ∈ tr, e.op = .readToString "/w/." ∧ ¬ Inside "/w" (resolve "/w/.")) ∧
    ∃ tr r t', Runs (perform quiet) (apply ⟨[⟨"a.txt", "", "x"⟩], .fullFile⟩ "/w") Files.empty tr r
      t' ∧ t'.disk.node ["w"] = some .dir ∧ Files.empty.disk.node ["w"] = none ∧
      ¬ Inside "/w" ["w"] := by
  constructor
  · refine ⟨_, _, _, eval_runs carryOut_performs _ _, ⟨.readToString "/w/.", .error ⟨.other, ""⟩⟩,
      List.mem_cons_self, rfl, fun h => h.2 (by decide)⟩
  · exact ⟨_, _, _, eval_runs carryOut_performs _ _, by decide, by decide, fun h => h.2 (by decide)⟩

end Loker.EditPaths
