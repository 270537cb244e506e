import Loker.Programs
import Loker.SymbolicLinks
import Loker.TextOps

/-! The files an edit works on, the operations of the apply and retry code on them, and what
each operation does to the files a program is responsible for. -/

namespace Loker.EditFiles

open FileTree SymbolicLinks Programs TextOps

/-- A file's bytes, as `read_to_string` sees them. -/
inductive Content where
  | text (s : String)
  | binary (bytes : List UInt8)
  deriving DecidableEq, Repr

structure FileEdit where
  file : String
  old : String
  new : String
  deriving DecidableEq, Repr

inductive EditFormat where
  | unifiedDiff
  | jsonOldNew
  | fullFile
  deriving DecidableEq, Repr

structure ParsedEdits where
  edits : List FileEdit
  format : EditFormat
  deriving DecidableEq, Repr

/-- `original = none` means that the file did not exist before. -/
structure FileBackup where
  path : String
  originalContent : Option String
  newContent : String
  deriving DecidableEq, Repr

structure ApplyResult where
  modifiedFiles : List FileBackup
  formatApplied : EditFormat
  deriving DecidableEq, Repr

inductive ErrorKind where
  | notFound
  | other
  deriving DecidableEq, Repr

/-- An I/O error with the system's text for it. -/
structure IoError where
  kind : ErrorKind
  message : String
  deriving DecidableEq, Repr

inductive ApplyErrorKind where
  | fileNotFound (path : String)
  | readFailed (path : String) (source : IoError)
  | writeFailed (path : String) (source : IoError)
  | oldTextNotFound (path : String) (snippet : String)
  | ambiguousMatch (path : String) (count : ℕ)
  | multiHunkDiffNotContiguous (path : String)
  | invalidEdit (reason : String)
  deriving DecidableEq, Repr

def ApplyErrorKind.toString : ApplyErrorKind → String
  | .fileNotFound path => "file not found: " ++ path
  | .readFailed path source => "failed to read " ++ path ++ ": " ++ source.message
  | .writeFailed path source => "failed to write " ++ path ++ ": " ++ source.message
  | .oldTextNotFound path snippet => "old text not found in " ++ path ++ ": " ++ snippet
  | .ambiguousMatch path count =>
      "ambiguous match in " ++ path ++ ": " ++ count.repr ++ " occurrences"
  | .multiHunkDiffNotContiguous path =>
      "multi-hunk diff not contiguous in " ++ path ++
        ": re-emit as JSON old/new or single-hunk diff"
  | .invalidEdit reason => "invalid edit: " ++ reason

/-- The failure with the files already written before it. -/
structure ApplyError where
  kind : ApplyErrorKind
  partialResult : ApplyResult
  deriving DecidableEq, Repr

/-- A shell command with its limits. -/
structure Verification where
  command : String
  timeoutMs : ℕ
  maxOutputBytes : ℕ
  deriving DecidableEq, Repr

structure VerifyResult where
  success : Bool
  stdout : String
  stderr : String
  exitCode : Option ℤ
  timedOut : Bool
  truncated : Bool
  deriving DecidableEq, Repr

inductive RetryReason where
  | parseError (message : String)
  | applyError (message : String) (partialPaths : List String)
  | verifyError (result : VerifyResult)
  deriving DecidableEq, Repr

structure RetryContext where
  attempt : ℕ
  previousRaw : String
  reason : RetryReason
  deriving DecidableEq, Repr

section Paths

/-- `PathBuf::join` on path strings. -/
def joinPath (cwd file : String) : String :=
  if startsWith file "/" then file
  else if cwd = "" ∨ endsWith cwd "/" then cwd ++ file
  else cwd ++ "/" ++ file

def resolve (p : String) : Path := join [] p

/-- The edit's path would leave the working directory. -/
def escapes (cwd file : String) : Bool :=
  startsWith file "/" || (components file).contains ".." ||
    !(normalComponents cwd).isPrefixOf (normalComponents (joinPath cwd file))

variable {cwd file : String}

lemma startsWith_slash : startsWith file "/" = true ↔ file.toList.head? = some '/' := by
  rw [startsWith, show "/".toList = ['/'] from rfl]
  cases file.toList with
  | nil => simp
  | cons c cs =>
      rw [List.head?_cons, Option.some.injEq, List.isPrefixOf_iff_prefix, List.cons_prefix_cons]
      exact ⟨fun h => h.1.symm, fun h => ⟨h.symm, List.nil_prefix⟩⟩

lemma resolve_trailing_slash {a : String} (ha : a ≠ "") : resolve (a ++ "/") = resolve a := by
  have hempty : a ++ "/" = a ++ "/" ++ "" := by simp
  rw [hempty, resolve, join_concat ha]
  simp [components, descend, resolve]

/-- The edit's own components follow those of the working directory. -/
lemma joinPath_components (h : startsWith file "/" = false) :
    (∃ front, components (joinPath cwd file) = front ++ components file) ∧
      resolve (joinPath cwd file) = (components file).foldl descend (resolve cwd) := by
  have hhead : file.toList.head? ≠ some '/' := fun hs => by simp [startsWith_slash.mpr hs] at h
  unfold joinPath
  rw [if_neg (by simp [h])]
  by_cases hempty : cwd = ""
  · subst hempty
    rw [if_pos (Or.inl rfl), String.empty_append]
    refine ⟨⟨[], rfl⟩, ?_⟩
    rw [resolve, join, if_neg hhead]
    simp [resolve, join, components, descend]
  · by_cases hslash : endsWith cwd "/" = true
    · rw [if_pos (Or.inr hslash)]
      obtain ⟨a, rfl⟩ := endsWith_iff.mp hslash
      refine ⟨⟨components a, components_concat a file⟩, ?_⟩
      by_cases ha : a = ""
      · subst ha
        have hroot : resolve "/" = [] := by decide
        rw [String.empty_append, hroot, resolve, join, if_pos (by simp)]
        have hparts : components ("/" ++ file) = "" :: components file := by
          simpa using components_append (a := "") (s := file) (by simp)
        rw [hparts, List.foldl_cons]
        rfl
      · rw [resolve_trailing_slash ha, resolve, join_concat ha, resolve]
    · rw [if_neg (by simp [hempty, hslash])]
      exact ⟨⟨components cwd, components_concat cwd file⟩, join_concat hempty⟩

lemma escapes_false (h : escapes cwd file = false) :
    startsWith file "/" = false ∧ ".." ∉ components file := by
  unfold escapes at h
  simp only [Bool.or_eq_false_iff] at h
  refine ⟨h.1.1, ?_⟩
  simpa using h.1.2

end Paths

section Operations

inductive Op where
  | readToString (path : String)
  | createDirAll (path : Path)
  | write (path : String) (content : String)
  | removeFile (path : String)
  | verify (verification : Verification) (cwd : String)
  | format (command : String)
  | requestEdits (context : RetryContext)

def Answer : Op → Type
  | .readToString _ => Except IoError String
  | .createDirAll _ => Except IoError Unit
  | .write _ _ => Except IoError Unit
  | .removeFile _ => Except IoError Unit
  | .verify _ _ => VerifyResult
  | .format _ => Unit
  | .requestEdits _ => Except String String

abbrev EditOps : Signature := ⟨Op, Answer⟩

/-- The directories and files by their places, and the symbolic links. -/
structure Files where
  disk : Disk Content
  link : Links

def Files.empty : Files := ⟨Disk.empty, fun _ => none⟩

/-- What the files hold, by their places. -/
def contentAt (t : Files) : Path → Option Content := fileAt t.disk

def readOutcome (t : Files) (path : String) : Except ErrorKind String :=
  match route t.link true path with
  | none => .error .other
  | some r =>
      match t.disk.node r.place with
      | some (.file (.text s)) => if r.asDir then .error .other else .ok s
      | some _ => .error .other
      | none => if blocked t.disk r.place then .error .other else .error .notFound

/-- A link at the end of the path is followed, also to a file that is not there yet. -/
def putFile (t : Files) (path : String) (content : Content) : Option Files :=
  match filePlace t.link path with
  | none => none
  | some p => (writeFile t.disk p content).map fun disk => { t with disk := disk }

def writeOutcome (t : Files) (path : String) (content : String) : Option Files :=
  putFile t path (.text content)

/-- Some link on the way to a directory leads to none, so that the directory is not made. -/
def brokenLink (t : Files) (dir : Path) : Bool :=
  dir.inits.any fun front =>
    match walk t.link false maxLinks true [] front, walk t.link true maxLinks true [] front with
    | some here, some there => (t.link here.place).isSome && !isDir t.disk there.place
    | _, _ => true

def createDirs (t : Files) (dir : Path) : Option Files :=
  match walk t.link true maxLinks true [] dir with
  | none => none
  | some r =>
      if brokenLink t dir then none
      else (createDirAll t.disk r.place).map fun disk => { t with disk := disk }

/-- A link at the end of the path is itself removed. -/
def removeOutcome (t : Files) (path : String) : Option Files :=
  match route t.link false path with
  | some ⟨p, false⟩ =>
      match removeFile t.disk p with
      | some disk => some { t with disk := disk }
      | none =>
          if (t.link p).isSome then some { t with link := Function.update t.link p none } else none
  | _ => none

/-- Why a path cannot be removed. -/
def removeCause (t : Files) (path : String) : ErrorKind :=
  match route t.link false path with
  | some r => if occupied t.disk r.place || blocked t.disk r.place then .other else .notFound
  | none => .other

/-- A change of the tree that may fail, then with the error for the given cause. -/
def Attempted (next : Option Files) (cause : ErrorKind) (t : Files)
    (answer : Except IoError Unit) (t' : Files) : Prop :=
  match next with
  | some u => answer = .ok () ∧ t' = u
  | none => t' = t ∧ ∃ message, answer = .error ⟨cause, message⟩

/-- What the surroundings of the program may do: the shell commands to the files, the
requester with its answers. -/
structure Surroundings where
  commandEffect : Files → Files → Prop
  mayAnswer : String → Prop

/-- Every operation as the file system and the surroundings carry it out. -/
def perform (env : Surroundings) : Semantics EditOps Files
  | .readToString path, t, a, t' =>
      t' = t ∧ match readOutcome t path with
        | .ok s => a = .ok s
        | .error kind => ∃ message, a = .error ⟨kind, message⟩
  | .createDirAll path, t, a, t' => Attempted (createDirs t path) .other t a t'
  | .write path content, t, a, t' => Attempted (writeOutcome t path content) .other t a t'
  | .removeFile path, t, a, t' => Attempted (removeOutcome t path) (removeCause t path) t a t'
  | .verify _ _, t, _, t' => env.commandEffect t t'
  | .format _, t, _, t' => env.commandEffect t t'
  | .requestEdits _, t, a, t' => t' = t ∧ ∀ raw, a = .ok raw → env.mayAnswer raw

/-- The answer of a file operation that the system refuses, for lack of rights or of space. -/
def Refused : (o : Op) → Answer o → Prop
  | .readToString _, a => ∃ message, a = .error ⟨.other, message⟩
  | .createDirAll _, a => ∃ message, a = .error ⟨.other, message⟩
  | .write _ _, a => ∃ message, a = .error ⟨.other, message⟩
  | .removeFile _, a => ∃ message, a = .error ⟨.other, message⟩
  | _, _ => False

/-- As `perform`, but any file operation may also be refused and then changes nothing. -/
def refusing (env : Surroundings) : Semantics EditOps Files := fun o t a t' =>
  perform env o t a t' ∨ t' = t ∧ Refused o a

lemma refusing_of_perform {env : Surroundings} {o : Op} {t t' : Files} {a : Answer o}
    (h : perform env o t a t') : refusing env o t a t' := Or.inl h

/-- What a write that breaks off may leave in its file. -/
def Torn (content : String) : Content → Prop
  | .text s => s.toList <+: content.toList
  | .binary bytes => bytes <+: content.toUTF8.data.toList

/-- A write that fails after it has opened its file. -/
def BreaksOff : (o : Op) → Files → Answer o → Files → Prop
  | .write path content, t, a, t' =>
      (∃ message, a = .error ⟨.other, message⟩) ∧
        ∃ torn, Torn content torn ∧ putFile t path torn = some t'
  | _, _, _, _ => False

/-- As `refusing`, but a write may also break off. -/
def tearing (env : Surroundings) : Semantics EditOps Files := fun o t a t' =>
  refusing env o t a t' ∨ BreaksOff o t a t'

lemma tearing_of_refusing {env : Surroundings} {o : Op} {t t' : Files} {a : Answer o}
    (h : refusing env o t a t') : tearing env o t a t' := Or.inl h

/-- A write would not create a file through a link at the end of its path. -/
def Direct (o : Op) (t : Files) : Prop :=
  ∀ path content p, o = .write path content → filePlace t.link path = some p →
    contentAt t p = none → Writable t.disk p → route t.link false path = some ⟨p, false⟩

/-- As `perform`, where no file is created through a link. -/
abbrev direct (env : Surroundings) : Semantics EditOps Files := guarded Direct (perform env)

/-- The operations carried out with the commands' results and the requester's answers given
by functions; commands change nothing and error texts are empty. -/
def handle (verdict : Files → VerifyResult) (request : RetryContext → Except String String) :
    (o : Op) → Files → Answer o × Files
  | .readToString path, t =>
      match readOutcome t path with
      | .ok s => (.ok s, t)
      | .error kind => (.error ⟨kind, ""⟩, t)
  | .createDirAll path, t => attempted (createDirs t path) .other t
  | .write path content, t => attempted (writeOutcome t path content) .other t
  | .removeFile path, t => attempted (removeOutcome t path) (removeCause t path) t
  | .verify _ _, t => (verdict t, t)
  | .format _, t => ((), t)
  | .requestEdits context, t => (request context, t)
where
  attempted (next : Option Files) (cause : ErrorKind) (t : Files) :
      Except IoError Unit × Files :=
    match next with
    | some u => (.ok (), u)
    | none => (.error ⟨cause, ""⟩, t)

lemma attempted_holds (next : Option Files) (cause : ErrorKind) (t : Files) :
    Attempted next cause t (handle.attempted next cause t).1
      (handle.attempted next cause t).2 := by
  cases next with
  | none => exact ⟨rfl, "", rfl⟩
  | some u => exact ⟨rfl, rfl⟩

lemma handle_performs {env : Surroundings} {verdict : Files → VerifyResult}
    {request : RetryContext → Except String String} (heffect : ∀ t, env.commandEffect t t)
    (hanswers : ∀ context raw, request context = .ok raw → env.mayAnswer raw) (o : Op)
    (t : Files) :
    perform env o t (handle verdict request o t).1 (handle verdict request o t).2 := by
  cases o with
  | readToString path =>
      simp only [perform, handle]
      split
      · exact ⟨rfl, rfl⟩
      · exact ⟨rfl, "", rfl⟩
  | createDirAll path => exact attempted_holds _ _ t
  | write path content => exact attempted_holds _ _ t
  | removeFile path => exact attempted_holds _ _ t
  | verify v cwd => exact heffect t
  | format command => exact heffect t
  | requestEdits context => exact ⟨rfl, fun raw => hanswers context raw⟩

end Operations

section Rules

/-- The paths that lead to files of the set, or to none, lead to the same places by the other
links. -/
def SameRoutes (own : Set Path) (links links' : Links) : Prop :=
  ∀ path, (∀ p, filePlace links path = some p → p ∈ own) →
    ∀ follow, route links' follow path = route links follow path

/-- The program's own files are where the given links have them, and are as in `g`. -/
structure Holds (links : Links) (own : Set Path) (g : Path → Option Content) (t : Files) :
    Prop where
  routes : SameRoutes own links t.link
  content : Set.EqOn (contentAt t) g own

lemma SameRoutes.refl (own : Set Path) (links : Links) : SameRoutes own links links :=
  fun _ _ _ => rfl

lemma SameRoutes.place {own : Set Path} {links links' : Links} {path : String}
    (h : SameRoutes own links links') (hown : ∀ p, filePlace links path = some p → p ∈ own) :
    filePlace links' path = filePlace links path := by
  unfold filePlace
  rw [h path hown true]

lemma SameRoutes.trans {own : Set Path} {links₁ links₂ links₃ : Links}
    (h₁ : SameRoutes own links₁ links₂) (h₂ : SameRoutes own links₂ links₃) :
    SameRoutes own links₁ links₃ := by
  intro path hown follow
  rw [← h₁ path hown follow]
  refine h₂ path (fun p hp => hown p ?_) follow
  rwa [h₁.place hown] at hp

lemma SameRoutes.mono {own own' : Set Path} {links links' : Links} (h : SameRoutes own links links')
    (hsub : own' ⊆ own) : SameRoutes own' links links' :=
  fun path hown => h path fun p hp => hsub (hown p hp)

lemma SameRoutes.of_eq {own : Set Path} {links links' : Links} (h : links' = links) :
    SameRoutes own links links' := fun _ _ _ => by rw [h]

/-- What a program's own files may be when it asks for new edits and when it verifies. -/
structure Checkpoints where
  asking : (Path → Option Content) → Prop
  verifying : (Path → Option Content) → Prop

/-- The others leave the program's own files alone and their paths, it leaves the rest of all files
alone and the paths of all, and its own are as the checkpoints say. -/
def ownFiles (links : Links) (all own : Set Path) (points : Checkpoints) :
    Contract EditOps Files where
  rely t t' := SameRoutes own t.link t'.link ∧ Set.EqOn (contentAt t') (contentAt t) own
  guarantee e t t' := (SameRoutes (all ∪ own) t.link t'.link ∧
      Set.EqOn (contentAt t') (contentAt t) (all \ own)) ∧
    (∀ context, e.op = .requestEdits context → ∃ g, points.asking g ∧ Holds links own g t) ∧
    ∀ v cwd, e.op = .verify v cwd → ∃ g, points.verifying g ∧ Holds links own g t
  rely_refl t := ⟨SameRoutes.refl own t.link, Set.eqOn_refl _ _⟩
  rely_trans h₁ h₂ := ⟨h₁.1.trans h₂.1, h₂.2.trans h₁.2⟩

/-- The shell commands leave the paths of all files and the files of others alone, and of the
program's own files they change only those that its edits have changed, in place. -/
structure Surroundings.Tidy (env : Surroundings) (all own : Set Path)
    (f : Path → Option Content) : Prop where
  routes : ∀ t t', env.commandEffect t t' → SameRoutes (all ∪ own) t.link t'.link
  others : ∀ t t', env.commandEffect t t' → Set.EqOn (contentAt t') (contentAt t) (all \ own)
  edited : ∀ t t', env.commandEffect t t' → ∀ p ∈ own, contentAt t' p ≠ contentAt t p →
    contentAt t p ≠ f p ∧ (contentAt t' p).isSome = true

/-- What a shell command may make of the program's own files. -/
def Surroundings.Rewrites (env : Surroundings) (own : Set Path) (g h : Path → Option Content) :
    Prop :=
  ∃ t t', env.commandEffect t t' ∧ Set.EqOn (contentAt t) g own ∧ Set.EqOn (contentAt t') h own

/-- The shell commands change no file and no link. -/
def Surroundings.Quiet (env : Surroundings) : Prop :=
  ∀ t t', env.commandEffect t t' → t'.link = t.link ∧ contentAt t' = contentAt t

lemma Surroundings.Quiet.tidy {env : Surroundings} (h : env.Quiet) (all own : Set Path)
    (f : Path → Option Content) : env.Tidy all own f where
  routes t t' hstep := .of_eq (h t t' hstep).1
  others t t' hstep p _ := congrFun (h t t' hstep).2 p
  edited t t' hstep p _ hne := absurd (congrFun (h t t' hstep).2 p) hne

lemma Surroundings.Tidy.changed {env : Surroundings} {all own : Set Path}
    {f g h : Path → Option Content} (henv : env.Tidy all own f) (hrewrites : env.Rewrites own g h)
    {p : Path} (hp : p ∈ own) (hne : h p ≠ g p) : g p ≠ f p ∧ (h p).isSome = true := by
  obtain ⟨t, t', hstep, ht, ht'⟩ := hrewrites
  have hedited := henv.edited t t' hstep p hp
  rw [ht hp, ht' hp] at hedited
  exact hedited hne

variable {links : Links} {all own : Set Path} {points : Checkpoints} {g : Path → Option Content}
  {env : Surroundings} {sem : Semantics EditOps Files} {ρ : Type} {post : ρ → Files → Prop}
  {t : Files} {p : Path}

lemma Holds.stable {t' : Files} (ht : Holds links own g t)
    (h : (ownFiles links all own points).rely t t') : Holds links own g t' :=
  ⟨ht.routes.trans h.1, h.2.trans ht.content⟩

lemma Holds.place {path : String} (ht : Holds links own g t)
    (hown : ∀ p, filePlace links path = some p → p ∈ own) :
    filePlace t.link path = filePlace links path := ht.routes.place hown

lemma Holds.congr {t' : Files} (ht : Holds links own g t) (hlink : t'.link = t.link)
    (h : contentAt t' = contentAt t) : Holds links own g t' :=
  ⟨hlink ▸ ht.routes, by rw [h]; exact ht.content⟩

lemma Holds.update {t' : Files} {b : Option Content} (ht : Holds links own g t)
    (hlink : t'.link = t.link) (h : contentAt t' = Function.update (contentAt t) p b) :
    Holds links own (Function.update g p b) t' := by
  refine ⟨hlink ▸ ht.routes, fun q hq => ?_⟩
  rw [h]
  rcases eq_or_ne q p with rfl | hne
  · simp
  · rw [Function.update_of_ne hne, Function.update_of_ne hne]
    exact ht.content hq

lemma eqOn_diff_update {t' : Files} {b : Option Content} (hp : p ∈ own)
    (h : contentAt t' = Function.update (contentAt t) p b) :
    Set.EqOn (contentAt t') (contentAt t) (all \ own) := by
  intro q hq
  rw [h, Function.update_of_ne]
  rintro rfl
  exact hq.2 hp

lemma readOutcome_ok {path s : String} (h : readOutcome t path = .ok s) :
    ∃ p, filePlace t.link path = some p ∧ contentAt t p = some (.text s) := by
  unfold readOutcome at h
  split at h
  · cases h
  · next r hroute =>
    obtain ⟨place, asDir⟩ := r
    split at h
    · next s' hnode =>
      cases asDir with
      | true => cases h
      | false =>
          cases h
          exact ⟨place, filePlace_eq_some.mpr hroute, fileAt_eq_some.mpr hnode⟩
    · cases h
    · split at h <;> cases h

lemma readOutcome_of_file {path s : String} (hplace : filePlace t.link path = some p)
    (h : contentAt t p = some (.text s)) : readOutcome t path = .ok s := by
  rw [readOutcome, filePlace_eq_some.mp hplace]
  dsimp only
  rw [fileAt_eq_some.mp h]
  rfl

lemma readOutcome_missing {path : String} {r : Route} (h : readOutcome t path = .error .notFound)
    (hroute : route t.link true path = some r) : t.disk.node r.place = none := by
  rw [readOutcome, hroute] at h
  dsimp only at h
  split at h
  · split at h <;> cases h
  · cases h
  · assumption

lemma readOutcome_notFound {path : String} (h : readOutcome t path = .error .notFound)
    (hplace : filePlace t.link path = some p) : contentAt t p = none :=
  fileAt_eq_none.mpr (Or.inl (readOutcome_missing h (filePlace_eq_some.mp hplace)))

lemma putFile_eq_some {t' : Files} {path : String} {content : Content}
    (h : putFile t path content = some t') : ∃ p, filePlace t.link path = some p ∧
      Writable t.disk p ∧ t'.link = t.link ∧
        contentAt t' = Function.update (contentAt t) p (some content) := by
  unfold putFile at h
  split at h
  · cases h
  · next p hplace =>
    obtain ⟨disk, hdisk, rfl⟩ := Option.map_eq_some_iff.mp h
    obtain ⟨hwritable, _⟩ := writeFile_eq_some.mp hdisk
    exact ⟨p, hplace, hwritable, rfl, writeFile_fileAt hdisk⟩

/-- A file that is there can be written. -/
lemma putFile_of_file {path : String} {b : Content} (content : Content)
    (hplace : filePlace t.link path = some p) (h : contentAt t p = some b) :
    ∃ t', putFile t path content = some t' := by
  obtain ⟨disk, hdisk⟩ := writeFile_of_file content h
  exact ⟨{ t with disk := disk }, by rw [putFile, hplace]; simp [hdisk]⟩

lemma writeOutcome_eq_some {t' : Files} {path content : String}
    (h : writeOutcome t path content = some t') : ∃ p, filePlace t.link path = some p ∧
      Writable t.disk p ∧ t'.link = t.link ∧
        contentAt t' = Function.update (contentAt t) p (some (.text content)) :=
  putFile_eq_some h

/-- A file that can be read can be written. -/
lemma writeOutcome_of_read {path content : String} (new : String)
    (h : readOutcome t path = .ok content) : ∃ t', writeOutcome t path new = some t' := by
  obtain ⟨p, hplace, hcontent⟩ := readOutcome_ok h
  exact putFile_of_file (.text new) hplace hcontent

lemma createDirs_eq_some {t' : Files} {dir : Path} (h : createDirs t dir = some t') :
    t'.link = t.link ∧ contentAt t' = contentAt t := by
  unfold createDirs at h
  split at h
  · cases h
  · split at h
    · cases h
    · obtain ⟨disk, hdisk, rfl⟩ := Option.map_eq_some_iff.mp h
      exact ⟨rfl, createDirAll_fileAt hdisk⟩

/-- Removing a file that no link stands for. -/
lemma removeOutcome_of_file {path : String} {b : Content}
    (hroute : route t.link false path = some ⟨p, false⟩) (h : contentAt t p = some b) :
    ∃ t', removeOutcome t path = some t' ∧ t'.link = t.link ∧
      contentAt t' = Function.update (contentAt t) p none := by
  obtain ⟨disk, hdisk⟩ := removeFile_of_file h
  refine ⟨{ t with disk := disk }, ?_, rfl, removeFile_fileAt hdisk⟩
  rw [removeOutcome, hroute]
  simp only [hdisk]

lemma refusing_createDirAll {t' : Files} {dir : Path} {a : Except IoError Unit}
    (h : refusing env (.createDirAll dir) t a t') :
    t'.link = t.link ∧ contentAt t' = contentAt t := by
  rcases h with h | ⟨rfl, _⟩
  · simp only [perform, Attempted] at h
    split at h
    · next u hu =>
      rw [h.2]
      exact createDirs_eq_some hu
    · rw [h.1]
      exact ⟨rfl, rfl⟩
  · exact ⟨rfl, rfl⟩

lemma refusing_write {t' : Files} {path content : String} {a : Except IoError Unit}
    (h : refusing env (.write path content) t a t') :
    a = .ok () ∧ writeOutcome t path content = some t' ∨ t' = t ∧ ∃ e, a = .error e := by
  rcases h with h | ⟨rfl, m, rfl⟩
  · simp only [perform, Attempted] at h
    split at h
    · next u hu =>
      obtain ⟨rfl, rfl⟩ := h
      exact Or.inl ⟨rfl, hu⟩
    · obtain ⟨rfl, m, rfl⟩ := h
      exact Or.inr ⟨rfl, _, rfl⟩
  · exact Or.inr ⟨rfl, _, rfl⟩

lemma meets_readToString {path : String} {next : Except IoError String → Prog EditOps ρ}
    (hown : ∀ p, filePlace links path = some p → p ∈ own) (ht : Holds links own g t)
    (hok : ∀ s p t', Holds links own g t' → filePlace links path = some p → g p = some (.text s) →
      Meets (guarded Direct (refusing env)) (ownFiles links all own points) post (next (.ok s)) t')
    (habsent : ∀ m t', Holds links own g t' → (∀ p, filePlace links path = some p → g p = none) →
      Meets (guarded Direct (refusing env)) (ownFiles links all own points) post
        (next (.error ⟨.notFound, m⟩)) t')
    (herr : ∀ m t', Holds links own g t' →
      Meets (guarded Direct (refusing env)) (ownFiles links all own points) post
        (next (.error ⟨.other, m⟩)) t') :
    Meets (guarded Direct (refusing env)) (ownFiles links all own points) post
      (.act (.readToString path) next) t := by
  rintro t₁ hrely a t₂ ⟨-, hstep⟩
  have ht₁ := ht.stable hrely
  rcases hstep with ⟨rfl, ha⟩ | ⟨rfl, m, rfl⟩
  swap
  · exact ⟨⟨⟨SameRoutes.refl _ _, Set.eqOn_refl _ _⟩, by simp⟩, herr m t₂ ht₁⟩
  refine ⟨⟨⟨SameRoutes.refl _ _, Set.eqOn_refl _ _⟩, by simp⟩, ?_⟩
  rcases hread : readOutcome t₂ path with kind | s
  · rw [hread] at ha
    obtain ⟨m, rfl⟩ := ha
    cases kind with
    | notFound =>
        refine habsent m t₂ ht₁ fun p hplace => ?_
        rw [← ht₁.content (hown p hplace)]
        exact readOutcome_notFound hread ((ht₁.place hown).trans hplace)
    | other => exact herr m t₂ ht₁
  · rw [hread] at ha
    obtain rfl := ha
    obtain ⟨p, hplace, hcontent⟩ := readOutcome_ok hread
    rw [ht₁.place hown] at hplace
    exact hok s p t₂ ht₁ hplace ((ht₁.content (hown p hplace)).symm.trans hcontent)

lemma meets_createDirAll {dir : Path} {next : Except IoError Unit → Prog EditOps ρ}
    (ht : Holds links own g t)
    (h : ∀ a t', Holds links own g t' →
      Meets (guarded Direct (refusing env)) (ownFiles links all own points) post (next a) t') :
    Meets (guarded Direct (refusing env)) (ownFiles links all own points) post
      (.act (.createDirAll dir) next) t := by
  rintro t₁ hrely a t₂ ⟨-, hstep⟩
  obtain ⟨hlink, hsame⟩ := refusing_createDirAll hstep
  exact ⟨⟨⟨.of_eq hlink, fun q _ => congrFun hsame q⟩, by simp⟩,
    h a t₂ ((ht.stable hrely).congr hlink hsame)⟩

/-- A write that succeeds has a place among the program's own, and where it creates a file no link
at the end of its path leads there. -/
lemma meets_write {path content : String} {next : Except IoError Unit → Prog EditOps ρ}
    (hown : ∀ p, filePlace links path = some p → p ∈ own) (ht : Holds links own g t)
    (hok : ∀ p t', filePlace links path = some p →
      (g p = none → route links false path = some ⟨p, false⟩) →
      Holds links own (Function.update g p (some (.text content))) t' →
      Meets (guarded Direct (refusing env)) (ownFiles links all own points) post (next (.ok ())) t')
    (herr : ∀ e t', Holds links own g t' →
      Meets (guarded Direct (refusing env)) (ownFiles links all own points) post
        (next (.error e)) t') :
    Meets (guarded Direct (refusing env)) (ownFiles links all own points) post
      (.act (.write path content) next) t := by
  rintro t₁ hrely a t₂ ⟨hdirect, hstep⟩
  have ht₁ := ht.stable hrely
  rcases refusing_write hstep with ⟨rfl, hwrite⟩ | ⟨rfl, e, rfl⟩
  · obtain ⟨p, hplace, hwritable, hlink, hcontent⟩ := writeOutcome_eq_some hwrite
    have hplace₁ : filePlace links path = some p := (ht₁.place hown).symm.trans hplace
    have hp := hown p hplace₁
    refine ⟨⟨⟨.of_eq hlink, eqOn_diff_update hp hcontent⟩, by simp⟩,
      hok p t₂ hplace₁ (fun hnone => ?_) (ht₁.update hlink hcontent)⟩
    rw [← ht₁.content hp] at hnone
    rw [← ht₁.routes path hown false]
    exact hdirect path content p rfl hplace hnone hwritable
  · exact ⟨⟨⟨SameRoutes.refl _ _, Set.eqOn_refl _ _⟩, by simp⟩, herr e t₂ ht₁⟩

/-- Writing over an existing file succeeds. -/
lemma meets_overwrite {path content : String} {b : Content}
    {next : Except IoError Unit → Prog EditOps ρ}
    (hsem : ∀ o s a s', sem o s a s' → perform env o s a s')
    (hplace : filePlace links path = some p) (hp : p ∈ own) (ht : Holds links own g t)
    (hb : g p = some b)
    (hok : ∀ t', Holds links own (Function.update g p (some (.text content))) t' →
      Meets sem (ownFiles links all own points) post (next (.ok ())) t') :
    Meets sem (ownFiles links all own points) post (.act (.write path content) next) t := by
  intro t₁ hrely a t₂ hstep
  have ht₁ := ht.stable hrely
  have hown : ∀ q, filePlace links path = some q → q ∈ own :=
    fun q hq => Option.some.inj (hplace.symm.trans hq) ▸ hp
  have hplace₁ : filePlace t₁.link path = some p := (ht₁.place hown).trans hplace
  obtain ⟨u, hu⟩ := putFile_of_file (.text content) hplace₁ ((ht₁.content hp).trans hb)
  have hstep := hsem _ t₁ a t₂ hstep
  have hout : writeOutcome t₁ path content = some u := hu
  simp only [perform, Attempted, hout] at hstep
  obtain ⟨rfl, rfl⟩ := hstep
  obtain ⟨p', hplace', _, hlink, hcontent⟩ := writeOutcome_eq_some hout
  obtain rfl : p = p' := Option.some.inj (hplace₁.symm.trans hplace')
  exact ⟨⟨⟨.of_eq hlink, eqOn_diff_update hp hcontent⟩, by simp⟩,
    hok t₂ (ht₁.update hlink hcontent)⟩

/-- Removing an existing file succeeds. -/
lemma meets_removeFile {path : String} {b : Content}
    {next : Except IoError Unit → Prog EditOps ρ}
    (hsem : ∀ o s a s', sem o s a s' → perform env o s a s')
    (hplace : filePlace links path = some p) (hroute : route links false path = some ⟨p, false⟩)
    (hp : p ∈ own) (ht : Holds links own g t) (hb : g p = some b)
    (hok : ∀ t', Holds links own (Function.update g p none) t' →
      Meets sem (ownFiles links all own points) post (next (.ok ())) t') :
    Meets sem (ownFiles links all own points) post (.act (.removeFile path) next) t := by
  intro t₁ hrely a t₂ hstep
  have ht₁ := ht.stable hrely
  have hown : ∀ q, filePlace links path = some q → q ∈ own :=
    fun q hq => Option.some.inj (hplace.symm.trans hq) ▸ hp
  have hroute₁ : route t₁.link false path = some ⟨p, false⟩ :=
    (ht₁.routes path hown false).trans hroute
  have hstep := hsem _ t₁ a t₂ hstep
  obtain ⟨u, hout, hlink, hcontent⟩ := removeOutcome_of_file hroute₁ ((ht₁.content hp).trans hb)
  simp only [perform, Attempted, hout] at hstep
  obtain ⟨rfl, rfl⟩ := hstep
  exact ⟨⟨⟨.of_eq hlink, eqOn_diff_update hp hcontent⟩, by simp⟩,
    hok t₂ (ht₁.update hlink hcontent)⟩

lemma meets_verify {f : Path → Option Content} {v : Verification} {cwd : String}
    {next : VerifyResult → Prog EditOps ρ}
    (hsem : ∀ o s a s', sem o s a s' → perform env o s a s') (henv : env.Tidy all own f)
    (hg : points.verifying g) (ht : Holds links own g t)
    (hnext : ∀ a t' h, env.Rewrites own g h → Holds links own h t' →
      Meets sem (ownFiles links all own points) post (next a) t') :
    Meets sem (ownFiles links all own points) post (.act (.verify v cwd) next) t := by
  intro t₁ hrely a t₂ hstep
  have ht₁ := ht.stable hrely
  have hstep := hsem _ t₁ a t₂ hstep
  have hroutes := henv.routes t₁ t₂ hstep
  refine ⟨⟨⟨hroutes, henv.others t₁ t₂ hstep⟩, by simp, fun _ _ _ => ⟨g, hg, ht₁⟩⟩, ?_⟩
  exact hnext a t₂ (contentAt t₂) ⟨t₁, t₂, hstep, ht₁.content, Set.eqOn_refl _ _⟩
    ⟨ht₁.routes.trans (hroutes.mono Set.subset_union_right), Set.eqOn_refl _ _⟩

lemma meets_format {f : Path → Option Content} {command : String} {next : Unit → Prog EditOps ρ}
    (hsem : ∀ o s a s', sem o s a s' → perform env o s a s') (henv : env.Tidy all own f)
    (ht : Holds links own g t)
    (hnext : ∀ a t' h, env.Rewrites own g h → Holds links own h t' →
      Meets sem (ownFiles links all own points) post (next a) t') :
    Meets sem (ownFiles links all own points) post (.act (.format command) next) t := by
  intro t₁ hrely a t₂ hstep
  have ht₁ := ht.stable hrely
  have hstep := hsem _ t₁ a t₂ hstep
  have hroutes := henv.routes t₁ t₂ hstep
  refine ⟨⟨⟨hroutes, henv.others t₁ t₂ hstep⟩, by simp⟩, ?_⟩
  exact hnext a t₂ (contentAt t₂) ⟨t₁, t₂, hstep, ht₁.content, Set.eqOn_refl _ _⟩
    ⟨ht₁.routes.trans (hroutes.mono Set.subset_union_right), Set.eqOn_refl _ _⟩

lemma meets_requestEdits {context : RetryContext}
    {next : Except String String → Prog EditOps ρ}
    (hsem : ∀ o s a s', sem o s a s' → perform env o s a s') (hg : points.asking g)
    (ht : Holds links own g t)
    (hok : ∀ raw t', Holds links own g t' → env.mayAnswer raw →
      Meets sem (ownFiles links all own points) post (next (.ok raw)) t')
    (herr : ∀ m t', Holds links own g t' →
      Meets sem (ownFiles links all own points) post (next (.error m)) t') :
    Meets sem (ownFiles links all own points) post (.act (.requestEdits context) next) t := by
  intro t₁ hrely a t₂ hstep
  have ht₁ := ht.stable hrely
  obtain ⟨rfl, ha⟩ := hsem _ t₁ a t₂ hstep
  refine ⟨⟨⟨SameRoutes.refl _ _, Set.eqOn_refl _ _⟩, fun _ _ => ⟨g, hg, ht₁⟩, by simp⟩, ?_⟩
  cases a with
  | ok raw => exact hok raw t₂ ht₁ (ha raw rfl)
  | error m => exact herr m t₂ ht₁

end Rules

section Plain

/-- No link is in the tree. -/
def Files.Plain (t : Files) : Prop := t.link = fun _ => none

lemma Files.Plain.admits {t : Files} (h : t.Plain) (o : Op) : Direct o t := by
  intro path content p ho hplace hnone hwritable
  rw [h, filePlace_eq_some, route, walk_noLinks] at hplace
  rw [h, route, walk_noLinks]
  exact hplace

lemma Attempted.plain {next : Option Files} {cause : ErrorKind} {t t' : Files}
    {answer : Except IoError Unit} (hnext : ∀ u, next = some u → u.Plain) (h : t.Plain)
    (hstep : Attempted next cause t answer t') : t'.Plain := by
  cases next with
  | none => exact hstep.1.symm ▸ h
  | some u => exact hstep.2.symm ▸ hnext u rfl

/-- Where the commands make no links, nothing does. -/
lemma perform_plain {env : Surroundings} (henv : ∀ t t', env.commandEffect t t' → t'.link = t.link)
    {o : Op} {t t' : Files} {a : Answer o} (h : t.Plain) (hstep : perform env o t a t') :
    t'.Plain := by
  cases o with
  | readToString path => exact hstep.1.symm ▸ h
  | createDirAll path =>
      refine Attempted.plain (fun u hu => ?_) h hstep
      exact (createDirs_eq_some hu).1.trans h
  | write path content =>
      refine Attempted.plain (fun u hu => ?_) h hstep
      obtain ⟨_, _, _, hlink, _⟩ := putFile_eq_some hu
      exact hlink.trans h
  | removeFile path =>
      refine Attempted.plain (fun u hu => ?_) h hstep
      unfold removeOutcome at hu
      split at hu
      · split at hu
        · obtain rfl := Option.some.inj hu
          exact h
        · rw [h] at hu
          cases hu
      · cases hu
  | verify v cwd => exact (henv t t' hstep).trans h
  | format command => exact (henv t t' hstep).trans h
  | requestEdits context => exact hstep.1.symm ▸ h

variable {env : Surroundings} {ρ : Type} {prog prog' : Prog EditOps ρ} {t t' : Files}

/-- In a tree without links no file is created through one. -/
lemma Files.Plain.steps (h : t.Plain) (henv : ∀ t t', env.commandEffect t t' → t'.link = t.link)
    {tr : List (Event EditOps)} (run : Steps (perform env) prog t tr prog' t') :
    Steps (direct env) prog t tr prog' t' :=
  run.guarded (fun o _ ht => Files.Plain.admits ht o)
    (fun _ _ _ _ ht hstep => perform_plain henv ht hstep) h

end Plain

end Loker.EditFiles
