import Loker.LinkedTrees
import Loker.PercentCoding

/-! The files of a run that the server hands out: a request's run id and path, the file that they
lead to, and which files of a run are reached at all. -/

namespace Loker.ArtefactFiles

open ByteLines LinkedTrees PercentCoding

section Resolution

inductive ArtefactError where
  | traversal
  | notFound
  | symlink
  | io (errno : Errno)
  deriving DecidableEq, Repr

def backslash : UInt8 := 92

def runsName : Name := [114, 117, 110, 115]

def validateRunId (runId : Bytes) : Bool :=
  runId ≠ [] && !decide (dotDot <:+: runId) && slash ∉ runId && backslash ∉ runId && 0 ∉ runId

def validComponent (comp : Bytes) : Bool :=
  comp ≠ [] && comp ≠ dot && comp ≠ dotDot && 0 ∉ comp && backslash ∉ comp

def isSymlink (host : Host) (path : FilePath) : Except ArtefactError Bool :=
  match host.symlinkMetadata path with
  | .ok entry => .ok entry.isLink
  | .error .notFound => .ok false
  | .error errno => .error (.io errno)

/-- Every component on the way is looked at, without following it. -/
def refuseLinks (host : Host) : FilePath → List Bytes → Except ArtefactError Unit
  | _, [] => .ok ()
  | current, comp :: comps =>
      match isSymlink host (current.join comp) with
      | .ok false => refuseLinks host (current.join comp) comps
      | .ok true => .error .symlink
      | .error e => .error e

def canonicalFile (host : Host) (candidate runRoot : FilePath) : Except ArtefactError RealPath :=
  match host.canonicalize candidate with
  | .error .notFound => .error .notFound
  | .error errno => .error (.io errno)
  | .ok canonical =>
      match host.canonicalize runRoot with
      | .error errno => .error (.io errno)
      | .ok canonicalRoot =>
          if canonicalRoot.isPrefixOf canonical = false then .error .traversal
          else
            match host.metadata ⟨true, canonical⟩ with
            | .ok (.file _) => .ok canonical
            | .ok _ => .error .notFound
            | .error .notFound => .error .notFound
            | .error errno => .error (.io errno)

/-- The path is decoded here, whatever the router has decoded before. -/
def relComponents (rel : Bytes) : List Bytes :=
  (fromUtf8Lossy (percentDecode rel)).splitOn slash

def resolveArtefact (host : Host) (projectRoot : FilePath) (runId rel : Bytes) :
    Except ArtefactError RealPath :=
  if validateRunId runId = false then .error .traversal
  else
    let runRoot := (projectRoot.join runsName).join runId
    let components := relComponents rel
    if components.all validComponent = false then .error .traversal
    else
      match isSymlink host runRoot with
      | .error e => .error e
      | .ok true => .error .symlink
      | .ok false =>
          match refuseLinks host runRoot components with
          | .error e => .error e
          | .ok () => canonicalFile host (components.foldl FilePath.join runRoot) runRoot

inductive Response where
  | file (path : RealPath) (body : Bytes)
  | refused (status : ℕ) (text : String)
  | badUrl
  deriving DecidableEq, Repr

/-- The router decodes every parameter once and wants a text. -/
def pathParam (raw : Bytes) : Option Bytes :=
  if isUtf8 (percentDecode raw) then some (percentDecode raw) else none

def getArtefact (host : Host) (projectRoot : FilePath) (rawId rawPath : Bytes) : Response :=
  match pathParam rawId, pathParam rawPath with
  | some runId, some path =>
      if validateRunId runId = false then .refused 400 "Invalid run ID"
      else
        match resolveArtefact host projectRoot runId path with
        | .ok artefactPath =>
            match host.read ⟨true, artefactPath⟩ with
            | .ok body => .file artefactPath body
            | .error _ => .refused 404 "Not found"
        | .error .traversal => .refused 400 "Invalid path"
        | .error .symlink => .refused 403 "Symlink not allowed"
        | .error _ => .refused 404 "Not found"
  | _, _ => .badUrl

end Resolution

section Names

variable {runId comp : Bytes}

lemma validateRunId_iff : validateRunId runId = true ↔
    runId ≠ [] ∧ ¬ dotDot <:+: runId ∧ slash ∉ runId ∧ backslash ∉ runId ∧ 0 ∉ runId := by
  unfold validateRunId
  simp only [Bool.and_eq_true, Bool.not_eq_true', decide_eq_true_eq, decide_eq_false_iff_not,
    and_assoc]

lemma validComponent_iff : validComponent comp = true ↔
    comp ≠ [] ∧ comp ≠ dot ∧ comp ≠ dotDot ∧ 0 ∉ comp ∧ backslash ∉ comp := by
  unfold validComponent
  simp only [Bool.and_eq_true, decide_eq_true_eq, and_assoc]

lemma isName_of_validateRunId (h : validateRunId runId = true) (hdot : runId ≠ dot) :
    IsName runId := by
  obtain ⟨hempty, hdots, hslash, -, hnul⟩ := validateRunId_iff.mp h
  refine ⟨hempty, hdot, ?_, hslash, hnul⟩
  intro heq
  rw [heq] at hdots
  exact hdots (List.infix_refl dotDot)

lemma isName_of_validComponent (h : validComponent comp = true) (hslash : slash ∉ comp) :
    IsName comp := by
  obtain ⟨hempty, hdot, hdots, hnul, -⟩ := validComponent_iff.mp h
  exact ⟨hempty, hdot, hdots, hslash, hnul⟩

lemma not_mem_of_splitOn {text part : Bytes} (h : part ∈ text.splitOn slash) : slash ∉ part := by
  induction text generalizing part with
  | nil =>
    rw [List.splitOn_nil, List.mem_singleton] at h
    rw [h]
    exact List.not_mem_nil
  | cons b bs ih =>
    rw [List.splitOn_cons_eq_if_modifyHead] at h
    by_cases hb : (b == slash) = true
    · rw [if_pos hb] at h
      rcases List.mem_cons.mp h with hnil | hrest
      · rw [hnil]
        exact List.not_mem_nil
      · exact ih hrest
    · rw [if_neg hb] at h
      cases hsplit : bs.splitOn slash with
      | nil =>
        rw [hsplit] at h
        cases h
      | cons first rest =>
        rw [hsplit, List.modifyHead_cons] at h
        rw [hsplit] at ih
        rcases List.mem_cons.mp h with hfirst | hrest
        · rw [hfirst]
          intro hmem
          rcases List.mem_cons.mp hmem with heq | htail
          · exact hb (beq_iff_eq.mpr heq.symm)
          · exact ih List.mem_cons_self htail
        · exact ih (List.mem_cons_of_mem _ hrest)

end Names

section Links

variable {host : Host} {path current : FilePath} {comps : List Bytes} {e : Entry}

lemma not_link_of_isSymlink (h : isSymlink host path = .ok false)
    (hmeta : host.symlinkMetadata path = .ok e) : e.isLink = false := by
  unfold isSymlink at h
  rw [hmeta] at h
  exact Except.ok.inj h

lemma isSymlink_of_not_link (hmeta : host.symlinkMetadata path = .ok e)
    (hlink : e.isLink = false) : isSymlink host path = .ok false := by
  unfold isSymlink
  rw [hmeta]
  exact congrArg Except.ok hlink

/-- What is joined below a path one component after the other. -/
def below (path : FilePath) (comps : List Bytes) : FilePath := ⟨path.rooted, path.parts ++ comps⟩

lemma below_nil : below path [] = path := by
  unfold below
  rw [List.append_nil]

lemma below_below (p q : List Bytes) : below (below path p) q = below path (p ++ q) := by
  unfold below
  rw [List.append_assoc]

lemma join_eq_below {comp : Bytes} (h : slash ∉ comp) : path.join comp = below path [comp] :=
  FilePath.join_of_not_mem h

lemma foldl_join (h : ∀ comp ∈ comps, slash ∉ comp) :
    comps.foldl FilePath.join path = below path comps := by
  induction comps generalizing path with
  | nil => exact below_nil.symm
  | cons comp comps ih =>
    rw [List.foldl_cons, join_eq_below (h comp List.mem_cons_self),
      ih fun c hc => h c (List.mem_cons_of_mem _ hc), below_below]
    rfl

lemma refuseLinks_ok_iff (h : ∀ comp ∈ comps, slash ∉ comp) :
    refuseLinks host current comps = .ok () ↔
      ∀ first ≠ [], first <+: comps → isSymlink host (below current first) = .ok false := by
  induction comps generalizing current with
  | nil =>
    constructor
    · intro _ first hne hpre
      exact absurd (List.prefix_nil.mp hpre) hne
    · intro _
      rfl
  | cons comp comps ih =>
    have hrest : refuseLinks host (below current [comp]) comps = .ok () ↔
        ∀ first ≠ [], first <+: comps →
          isSymlink host (below (below current [comp]) first) = .ok false :=
      ih fun c hc => h c (List.mem_cons_of_mem _ hc)
    rw [refuseLinks, join_eq_below (h comp List.mem_cons_self)]
    constructor
    · intro hok first hne hpre
      cases hcomp : isSymlink host (below current [comp]) with
      | error e =>
        rw [hcomp] at hok
        cases hok
      | ok link =>
        rw [hcomp] at hok
        cases link with
        | true => cases hok
        | false =>
          cases first with
          | nil => exact absurd rfl hne
          | cons c first =>
            obtain ⟨rfl, hlast⟩ := List.cons_prefix_cons.mp hpre
            by_cases hnil : first = []
            · rw [hnil]
              exact hcomp
            · have hlater := hrest.mp hok first hnil hlast
              rwa [below_below] at hlater
    · intro hall
      have hcomp := hall [comp] (List.cons_ne_nil _ _) ⟨comps, rfl⟩
      rw [hcomp]
      apply hrest.mpr
      intro first hne hpre
      rw [below_below]
      exact hall (comp :: first) (List.cons_ne_nil _ _) (List.cons_prefix_cons.mpr ⟨rfl, hpre⟩)

end Links

section Places

variable {host : Host} {projectRoot : FilePath} {runs path : RealPath} {links : ℕ}
  {parts : List Name} {e : Entry} {runId rel : Bytes} {comps : List Bytes}

/-- What is asked of a file that is handed out for a run. -/
structure Contained (t : Tree) (runs : RealPath) (r : Name) (path : RealPath) (body : Bytes) :
    Prop where
  child : IsName r
  inside : ∃ rest ≠ [], path = runs ++ r :: rest ∧
    ∀ first, first <+: rest → ∀ e, t.entry (runs ++ r :: first) = some e → e.isLink = false
  regular : t.entry path = some (.file body)

def encodeName (n : Name) : Bytes := percentEncode unreserved n

def relPath (rest : List Name) : Bytes := [slash].intercalate rest

/-- The separators of the relative path stay. -/
def encodePath (rest : List Name) : Bytes :=
  percentEncode (fun b => unreserved b || b = slash) (relPath rest)

/-- The directory that `project/runs` leads to, and the links that may be followed below it. -/
def LeadsTo (host : Host) (projectRoot : FilePath) (links : ℕ) (runs : RealPath) : Prop :=
  walk host.tree true host.linkLimit (host.start projectRoot) (projectRoot.parts ++ [runsName]) =
    .ok (links, runs)

lemma exists_leadsTo (h : host.canonicalize (projectRoot.join runsName) = .ok runs) :
    ∃ links, LeadsTo host projectRoot links runs := by
  rw [join_eq_below (by decide)] at h
  unfold Host.canonicalize at h
  change (walk host.tree true host.linkLimit (host.start projectRoot)
    (projectRoot.parts ++ [runsName])).map Prod.snd = .ok runs at h
  cases hwalk : walk host.tree true host.linkLimit (host.start projectRoot)
      (projectRoot.parts ++ [runsName]) with
  | error errno =>
    rw [hwalk] at h
    cases h
  | ok r =>
    rw [hwalk] at h
    cases h
    exact ⟨r.1, hwalk⟩

lemma LeadsTo.canonicalize (h : LeadsTo host projectRoot links runs) :
    host.canonicalize (projectRoot.join runsName) = .ok runs := by
  rw [join_eq_below (by decide)]
  exact congrArg (Except.map Prod.snd) h

/-- Below that directory only what follows it matters. -/
lemma LeadsTo.walk_below (h : LeadsTo host projectRoot links runs) (hparts : parts ≠ [])
    (follow : Bool) :
    walk host.tree follow host.linkLimit (host.start projectRoot)
      (projectRoot.parts ++ [runsName] ++ parts) = walk host.tree follow links runs parts := by
  rw [walk_append hparts, h]
  rfl

lemma runRoot_eq (h : validateRunId runId = true) :
    (projectRoot.join runsName).join runId = below projectRoot [runsName, runId] := by
  have hslash : slash ∉ runsName := by decide
  rw [join_eq_below hslash, join_eq_below (validateRunId_iff.mp h).2.2.1, below_below]
  rfl

lemma LeadsTo.symlinkMetadata (h : LeadsTo host projectRoot links runs) (hparts : parts ≠ []) :
    host.symlinkMetadata (below projectRoot (runsName :: parts)) =
      (walk host.tree false links runs parts).bind fun r =>
        match host.tree.entry r.2 with
        | none => .error .notFound
        | some e => .ok e := by
  rw [← h.walk_below hparts, List.append_assoc]
  rfl

lemma LeadsTo.canonicalize_below (h : LeadsTo host projectRoot links runs) (hparts : parts ≠ []) :
    host.canonicalize (below projectRoot (runsName :: parts)) =
      (walk host.tree true links runs parts).map Prod.snd := by
  rw [← h.walk_below hparts, List.append_assoc]
  rfl

lemma real_of_walk {cur : RealPath} {left : ℕ} (hparts : parts ≠ [])
    (h : walk host.tree true links cur parts = .ok (left, path)) : Real host.tree path := by
  cases parts with
  | nil => exact absurd rfl hparts
  | cons part parts =>
    by_cases hdir : host.tree.entry cur = some .dir
    · exact walk_real (.of_dir hdir) h
    · rw [walk_not_dir hdir] at h
      cases h

/-- A path of real names is where it says. -/
lemma metadata_real (h : host.tree.entry path = some e) (hlink : e.isLink = false) :
    host.metadata ⟨true, path⟩ = .ok e := by
  have hwalk : walk host.tree true host.linkLimit [] path = .ok (host.linkLimit, path) :=
    walk_plain h hlink
  unfold Host.metadata Host.lookAt
  change (walk host.tree true host.linkLimit [] path).bind _ = _
  rw [hwalk]
  change (match host.tree.entry path with
    | none => Except.error Errno.notFound
    | some e => Except.ok e) = _
  rw [h]

lemma canonicalize_of_canonicalFile {candidate runRoot : FilePath}
    (h : canonicalFile host candidate runRoot = .ok path) :
    host.canonicalize candidate = .ok path ∧
      ∃ body, host.metadata ⟨true, path⟩ = .ok (.file body) := by
  unfold canonicalFile at h
  cases hcandidate : host.canonicalize candidate with
  | error errno =>
    rw [hcandidate] at h
    cases errno <;> cases h
  | ok canonical =>
    rw [hcandidate] at h
    cases hroot : host.canonicalize runRoot with
    | error errno =>
      rw [hroot] at h
      cases h
    | ok canonicalRoot =>
      simp only [hroot] at h
      by_cases hprefix : canonicalRoot.isPrefixOf canonical = false
      · rw [if_pos hprefix] at h
        cases h
      · rw [if_neg hprefix] at h
        cases hmeta : host.metadata ⟨true, canonical⟩ with
        | error errno =>
          rw [hmeta] at h
          cases errno <;> cases h
        | ok entry =>
          rw [hmeta] at h
          cases entry with
          | file body =>
            cases h
            exact ⟨rfl, body, hmeta⟩
          | _ => cases h

/-- A path that leads somewhere below `project/runs` leads through it. -/
lemma exists_walk_below (hparts : parts ≠ [])
    (h : host.canonicalize (below projectRoot (runsName :: parts)) = .ok path) :
    ∃ links runs left, LeadsTo host projectRoot links runs ∧
      walk host.tree true links runs parts = .ok (left, path) := by
  unfold Host.canonicalize at h
  change (walk host.tree true host.linkLimit (host.start projectRoot)
    (projectRoot.parts ++ ([runsName] ++ parts))).map Prod.snd = .ok path at h
  rw [← List.append_assoc, walk_append hparts] at h
  cases hwalk : walk host.tree true host.linkLimit (host.start projectRoot)
      (projectRoot.parts ++ [runsName]) with
  | error errno =>
    rw [hwalk] at h
    cases h
  | ok r =>
    rw [hwalk] at h
    change (walk host.tree true r.1 r.2 parts).map Prod.snd = .ok path at h
    cases hbelow : walk host.tree true r.1 r.2 parts with
    | error errno =>
      rw [hbelow] at h
      cases h
    | ok s =>
      rw [hbelow] at h
      cases h
      exact ⟨r.1, r.2, s.1, hwalk, hbelow⟩

lemma LeadsTo.not_link (h : LeadsTo host projectRoot links runs) (hparts : parts ≠ [])
    (hlink : isSymlink host (below projectRoot (runsName :: parts)) = .ok false) (r : ℕ × RealPath)
    (hr : walk host.tree false links runs parts = .ok r) (e : Entry)
    (he : host.tree.entry r.2 = some e) : e.isLink = false := by
  apply not_link_of_isSymlink hlink
  rw [h.symlinkMetadata hparts, hr]
  change (match host.tree.entry r.2 with
    | none => Except.error Errno.notFound
    | some e => Except.ok e) = _
  rw [he]

/-- The components that the resolver has looked at one by one lead where they say. -/
lemma LeadsTo.path_eq {left : ℕ} (h : LeadsTo host projectRoot links runs)
    (hid : validateRunId runId = true) (hcomps : ∀ comp ∈ comps, IsName comp)
    (hlinks : ∀ first ≠ [], first <+: runId :: comps →
      isSymlink host (below projectRoot (runsName :: first)) = .ok false)
    (hwalk : walk host.tree true links runs (runId :: comps) = .ok (left, path)) :
    path = (if runId = dot then runs else runs ++ [runId]) ++ comps := by
  by_cases hdot : runId = dot
  · rw [if_pos hdot]
    by_cases hdir : host.tree.entry runs = some .dir
    · rw [hdot, walk_dot hdir] at hwalk
      refine (walk_names hcomps ?_ hwalk).1
      intro first hne hpre r hr
      apply h.not_link (List.cons_ne_nil runId first)
        (hlinks (runId :: first) (List.cons_ne_nil _ _) (List.cons_prefix_cons.mpr ⟨rfl, hpre⟩))
      rw [hdot, walk_dot hdir]
      exact hr
    · rw [walk_not_dir hdir] at hwalk
      cases hwalk
  · rw [if_neg hdot, List.append_assoc]
    have hnames : ∀ n ∈ runId :: comps, IsName n :=
      List.forall_mem_cons.mpr ⟨isName_of_validateRunId hid hdot, hcomps⟩
    exact (walk_names hnames (fun first hne hpre r hr =>
      h.not_link hne (hlinks first hne hpre) r hr) hwalk).1

lemma isSymlink_of_refuseLinks (hid : validateRunId runId = true)
    (hslash : ∀ comp ∈ comps, slash ∉ comp)
    (hroot : isSymlink host ((projectRoot.join runsName).join runId) = .ok false)
    (hlinks : refuseLinks host ((projectRoot.join runsName).join runId) comps = .ok ())
    (first : List Bytes) (hne : first ≠ []) (hpre : first <+: runId :: comps) :
    isSymlink host (below projectRoot (runsName :: first)) = .ok false := by
  rw [runRoot_eq hid] at hroot hlinks
  cases first with
  | nil => exact absurd rfl hne
  | cons n first =>
    obtain ⟨rfl, hrest⟩ := List.cons_prefix_cons.mp hpre
    by_cases hnil : first = []
    · rw [hnil]
      exact hroot
    · have hlater := (refuseLinks_ok_iff hslash).mp hlinks first hnil hrest
      rwa [below_below] at hlater

lemma exists_of_canonicalFile (hid : validateRunId runId = true)
    (hslash : ∀ comp ∈ comps, slash ∉ comp) (hcomps : comps.all validComponent = true)
    (hroot : isSymlink host ((projectRoot.join runsName).join runId) = .ok false)
    (hlinks : refuseLinks host ((projectRoot.join runsName).join runId) comps = .ok ())
    (h : canonicalFile host (comps.foldl FilePath.join ((projectRoot.join runsName).join runId))
      ((projectRoot.join runsName).join runId) = .ok path) :
    ∃ links runs body, LeadsTo host projectRoot links runs ∧
      path = (if runId = dot then runs else runs ++ [runId]) ++ comps ∧
      host.tree.entry path = some (.file body) := by
  have hnames : ∀ comp ∈ comps, IsName comp := fun comp hcomp =>
    isName_of_validComponent (List.all_eq_true.mp hcomps comp hcomp) (hslash comp hcomp)
  obtain ⟨hcanonical, body, hmeta⟩ := canonicalize_of_canonicalFile h
  rw [foldl_join hslash, runRoot_eq hid, below_below] at hcanonical
  obtain ⟨links, runs, left, hleads, hwalk⟩ :=
    exists_walk_below (List.cons_ne_nil runId comps) hcanonical
  have hpath := hleads.path_eq hid hnames (isSymlink_of_refuseLinks hid hslash hroot hlinks) hwalk
  obtain ⟨e, he, hlink⟩ := real_of_walk (List.cons_ne_nil runId comps) hwalk
  rw [metadata_real he hlink] at hmeta
  cases hmeta
  exact ⟨links, runs, body, hleads, hpath, he⟩

lemma relComponents_no_slash : ∀ comp ∈ relComponents rel, slash ∉ comp := fun _ hcomp =>
  not_mem_of_splitOn hcomp

/-- The file that is answered lies where the components lead from the run's directory; a run id that
is a single dot leads to the directory of all runs. -/
lemma exists_of_resolveArtefact (h : resolveArtefact host projectRoot runId rel = .ok path) :
    validateRunId runId = true ∧ (relComponents rel).all validComponent = true ∧
      ∃ links runs body, LeadsTo host projectRoot links runs ∧
        path = (if runId = dot then runs else runs ++ [runId]) ++ relComponents rel ∧
        host.tree.entry path = some (.file body) := by
  unfold resolveArtefact at h
  cases hid : validateRunId runId with
  | false =>
    rw [if_pos hid] at h
    cases h
  | true =>
    rw [if_neg (ne_false_of_eq_true hid)] at h
    cases hcomps : (relComponents rel).all validComponent with
    | false =>
      simp only [hcomps, if_true] at h
      cases h
    | true =>
      simp only [hcomps, Bool.true_eq_false, if_false] at h
      cases hroot : isSymlink host ((projectRoot.join runsName).join runId) with
      | error e =>
        rw [hroot] at h
        cases h
      | ok link =>
        rw [hroot] at h
        cases link with
        | true => cases h
        | false =>
          cases hlinks : refuseLinks host ((projectRoot.join runsName).join runId)
              (relComponents rel) with
          | error e =>
            simp only [hlinks] at h
            cases h
          | ok u =>
            simp only [hlinks] at h
            exact ⟨rfl, rfl,
              exists_of_canonicalFile hid relComponents_no_slash hcomps hroot hlinks h⟩

lemma LeadsTo.isSymlink_of_file {body : Bytes} (h : LeadsTo host projectRoot links runs)
    (hfile : host.tree.entry (runs ++ parts) = some (.file body)) {first : List Name}
    (hne : first ≠ []) (hpre : first <+: parts) :
    isSymlink host (below projectRoot (runsName :: first)) = .ok false := by
  obtain ⟨rest, rfl⟩ := hpre
  rw [← List.append_assoc] at hfile
  have hreal : ∃ e, host.tree.entry (runs ++ first) = some e ∧ e.isLink = false := by
    by_cases hnil : rest = []
    · rw [hnil, List.append_nil] at hfile
      exact ⟨_, hfile, rfl⟩
    · exact ⟨_, host.tree.dir_above hfile hnil, rfl⟩
  obtain ⟨e, he, hlink⟩ := hreal
  apply isSymlink_of_not_link (e := e) _ hlink
  rw [h.symlinkMetadata hne, walk_plain he hlink]
  change (match host.tree.entry (runs ++ first) with
    | none => Except.error Errno.notFound
    | some e => Except.ok e) = _
  rw [he]

/-- A regular file below the run's directory is found under its names. -/
lemma LeadsTo.resolveArtefact_of_file {body : Bytes} (h : LeadsTo host projectRoot links runs)
    (hid : validateRunId runId = true) (hcomps : (relComponents rel).all validComponent = true)
    (hfile : host.tree.entry (runs ++ runId :: relComponents rel) = some (.file body)) :
    resolveArtefact host projectRoot runId rel = .ok (runs ++ runId :: relComponents rel) := by
  have hlooked : ∀ first ≠ [], first <+: runId :: relComponents rel →
      isSymlink host (below projectRoot (runsName :: first)) = .ok false := fun first hne hpre =>
    h.isSymlink_of_file hfile hne hpre
  have hroot := hlooked [runId] (List.cons_ne_nil _ _) ⟨relComponents rel, rfl⟩
  have hlinks : refuseLinks host (below projectRoot [runsName, runId]) (relComponents rel) =
      .ok () := by
    apply (refuseLinks_ok_iff relComponents_no_slash).mpr
    intro first hne hpre
    rw [below_below]
    exact hlooked (runId :: first) (List.cons_ne_nil _ _) (List.cons_prefix_cons.mpr ⟨rfl, hpre⟩)
  have hcanonical : host.canonicalize (below projectRoot (runsName :: runId :: relComponents rel)) =
      .ok (runs ++ runId :: relComponents rel) := by
    rw [h.canonicalize_below (List.cons_ne_nil _ _), walk_plain hfile rfl]
    rfl
  have hdir : host.tree.entry (runs ++ [runId]) = some .dir := by
    rw [List.append_cons] at hfile
    exact host.tree.dir_above hfile (List.splitOn_ne_nil _ _)
  have hcanonicalRoot : host.canonicalize (below projectRoot [runsName, runId]) =
      .ok (runs ++ [runId]) := by
    rw [h.canonicalize_below (List.cons_ne_nil _ _), walk_plain hdir rfl]
    rfl
  have hinside : ¬ (runs ++ [runId]).isPrefixOf (runs ++ runId :: relComponents rel) = false := by
    have hpre : runs ++ [runId] <+: runs ++ runId :: relComponents rel :=
      ⟨relComponents rel, by rw [List.append_assoc]; rfl⟩
    rw [List.isPrefixOf_iff_prefix.mpr hpre]
    nofun
  unfold resolveArtefact
  rw [if_neg (ne_false_of_eq_true hid)]
  simp only [hcomps, Bool.true_eq_false, if_false]
  rw [runRoot_eq hid, hroot]
  simp only [hlinks]
  rw [foldl_join relComponents_no_slash, below_below]
  unfold canonicalFile
  change (match host.canonicalize
    (below projectRoot (runsName :: runId :: relComponents rel)) with
    | .error .notFound => _
    | .error errno => _
    | .ok canonical => _) = _
  rw [hcanonical, hcanonicalRoot]
  simp only [if_neg hinside]
  rw [metadata_real hfile rfl]

end Places

section Requests

variable {host : Host} {projectRoot : FilePath} {runs path : RealPath} {rawId rawPath body : Bytes}
  {r : Name} {rest : List Name}

lemma pathParam_eq_some_iff {raw text : Bytes} :
    pathParam raw = some text ↔ percentDecode raw = text ∧ isUtf8 text = true := by
  unfold pathParam
  constructor
  · intro h
    split at h
    · next hutf8 =>
      cases h
      exact ⟨rfl, hutf8⟩
    · cases h
  · rintro ⟨rfl, hutf8⟩
    exact if_pos hutf8

/-- What a request that is answered with a file has been resolved to. -/
lemma resolved_of_getArtefact (h : getArtefact host projectRoot rawId rawPath = .file path body) :
    resolveArtefact host projectRoot (percentDecode rawId) (percentDecode rawPath) = .ok path ∧
      host.read ⟨true, path⟩ = .ok body := by
  unfold getArtefact at h
  cases hid : pathParam rawId with
  | none =>
    rw [hid] at h
    cases h
  | some runId =>
    cases hpath : pathParam rawPath with
    | none =>
      rw [hid, hpath] at h
      cases h
    | some rel =>
      rw [hid, hpath] at h
      obtain ⟨rfl, -⟩ := pathParam_eq_some_iff.mp hid
      obtain ⟨rfl, -⟩ := pathParam_eq_some_iff.mp hpath
      simp only at h
      by_cases hvalid : validateRunId (percentDecode rawId) = false
      · rw [if_pos hvalid] at h
        cases h
      · rw [if_neg hvalid] at h
        cases hresolve : resolveArtefact host projectRoot (percentDecode rawId)
            (percentDecode rawPath) with
        | error e =>
          rw [hresolve] at h
          cases e <;> cases h
        | ok found =>
          rw [hresolve] at h
          simp only at h
          cases hread : host.read ⟨true, found⟩ with
          | error errno =>
            rw [hread] at h
            cases h
          | ok contents =>
            rw [hread] at h
            cases h
            exact ⟨rfl, hread⟩

lemma read_real (h : host.tree.entry path = some (.file body)) :
    host.read ⟨true, path⟩ = .ok body := by
  unfold Host.read
  rw [metadata_real h rfl]
  rfl

/-- A file that is handed out, in terms of what the request's parameters say. -/
lemma exists_of_getArtefact (h : getArtefact host projectRoot rawId rawPath = .file path body) :
    validateRunId (percentDecode rawId) = true ∧
      ∃ links runs, LeadsTo host projectRoot links runs ∧
        path = (if percentDecode rawId = dot then runs else runs ++ [percentDecode rawId]) ++
          relComponents (percentDecode rawPath) ∧
        host.tree.entry path = some (.file body) := by
  obtain ⟨hresolve, hread⟩ := resolved_of_getArtefact h
  obtain ⟨hid, -, links, runs, contents, hleads, hpath, hfile⟩ :=
    exists_of_resolveArtefact hresolve
  rw [read_real hfile] at hread
  cases hread
  exact ⟨hid, links, runs, hleads, hpath, hfile⟩

lemma contained_of_file (hname : IsName r) (hrest : rest ≠ [])
    (hfile : host.tree.entry (runs ++ r :: rest) = some (.file body)) :
    Contained host.tree runs r (runs ++ r :: rest) body := by
  refine ⟨hname, ⟨rest, hrest, rfl, ?_⟩, hfile⟩
  intro first hpre e he
  obtain ⟨last, rfl⟩ := hpre
  by_cases hnil : last = []
  · rw [hnil, List.append_nil, he] at hfile
    cases hfile
    rfl
  · rw [← List.cons_append, ← List.append_assoc] at hfile
    rw [host.tree.dir_above hfile hnil] at he
    cases he
    rfl

lemma isUtf8_relPath (h : ∀ n ∈ rest, isUtf8 n = true) : isUtf8 (relPath rest) = true := by
  unfold relPath
  induction rest with
  | nil => rfl
  | cons n rest ih =>
    have hn := h n List.mem_cons_self
    have htail := ih fun m hm => h m (List.mem_cons_of_mem _ hm)
    by_cases hnil : rest = []
    · rw [hnil, List.intercalate_singleton]
      exact hn
    · rw [List.intercalate_cons_of_ne_nil hnil]
      exact isUtf8_append (isUtf8_append hn rfl) htail

lemma decode_encodeName : percentDecode (encodeName r) = r :=
  percentDecode_percentEncode (by decide)

lemma decode_encodePath : percentDecode (encodePath rest) = relPath rest :=
  percentDecode_percentEncode (by decide)

lemma splitOn_relPath (hrest : rest ≠ []) (h : ∀ n ∈ rest, IsName n) :
    (relPath rest).splitOn slash = rest :=
  List.splitOn_intercalate slash (fun n hn => (h n hn).2.2.2.1) hrest

/-- The path's second decoding gives the same names exactly when it has nothing to decode. -/
lemma relComponents_relPath_iff (hrest : rest ≠ []) (hnames : ∀ n ∈ rest, IsName n)
    (hutf8 : ∀ n ∈ rest, isUtf8 n = true) :
    relComponents (relPath rest) = rest ↔ hasEscape (relPath rest) = false := by
  rw [← lossy_decode_eq_iff (isUtf8_relPath hutf8)]
  unfold relComponents
  constructor
  · intro h
    have hjoin := congrArg [slash].intercalate h
    rwa [List.intercalate_splitOn] at hjoin
  · intro h
    rw [h, splitOn_relPath hrest hnames]

end Requests

section Served

variable {host : Host} {projectRoot : FilePath}

/-- A file that is handed out lies in the run that the id names unless the id is a single dot; a
file of a run is handed out under its encoded names exactly when the run's name has no two dots in
a row and the path does not look encoded itself. -/
theorem artefacts_served_iff (host : Host) (projectRoot : FilePath) :
    (∀ rawId rawPath path body,
      getArtefact host projectRoot rawId rawPath = .file path body →
      ((∃ runs, host.canonicalize (projectRoot.join runsName) = .ok runs ∧
        Contained host.tree runs (percentDecode rawId) path body) ↔ percentDecode rawId ≠ dot)) ∧
    (∀ runs r rest body,
      host.canonicalize (projectRoot.join runsName) = .ok runs →
      Contained host.tree runs r (runs ++ r :: rest) body →
      (∀ n ∈ r :: rest, isUtf8 n = true ∧ backslash ∉ n) →
      (getArtefact host projectRoot (encodeName r) (encodePath rest) =
          .file (runs ++ r :: rest) body ↔
        ¬ dotDot <:+: r ∧ hasEscape (relPath rest) = false)) := by
  constructor
  · intro rawId rawPath path body h
    obtain ⟨hid, links, runs, hleads, hpath, hfile⟩ := exists_of_getArtefact h
    constructor
    · rintro ⟨_, _, hcontained⟩ heq
      exact hcontained.child.2.1 heq
    · intro hdot
      rw [if_neg hdot, List.append_assoc, List.singleton_append] at hpath
      rw [hpath] at hfile ⊢
      exact ⟨runs, hleads.canonicalize, contained_of_file (isName_of_validateRunId hid hdot)
        (List.splitOn_ne_nil _ _) hfile⟩
  · intro runs r rest body hruns hcontained htexts
    obtain ⟨links, hleads⟩ := exists_leadsTo hruns
    obtain ⟨hr, ⟨rest', hrest, heq, -⟩, hfile⟩ := hcontained
    cases (List.cons.inj (List.append_cancel_left heq)).2
    have hnames : ∀ n ∈ rest, IsName n := fun n hn => host.tree.isName_of_mem hfile
      (List.mem_append_right runs (List.mem_cons_of_mem r hn))
    have hutf8 : ∀ n ∈ rest, isUtf8 n = true := fun n hn =>
      (htexts n (List.mem_cons_of_mem r hn)).1
    have hsecond := relComponents_relPath_iff hrest hnames hutf8
    constructor
    · intro h
      obtain ⟨hid, links', runs', hleads', hpath, -⟩ := exists_of_getArtefact h
      rw [decode_encodeName] at hid hpath
      rw [decode_encodePath, if_neg hr.2.1, List.append_assoc, List.singleton_append] at hpath
      have hsame : runs' = runs := by
        have hcanonical := hleads'.canonicalize
        rw [hruns] at hcanonical
        exact (Except.ok.inj hcanonical).symm
      rw [hsame] at hpath
      have hcomps := (List.cons.inj (List.append_cancel_left hpath)).2
      exact ⟨(validateRunId_iff.mp hid).2.1, hsecond.mp hcomps.symm⟩
    · rintro ⟨hdots, hescape⟩
      have hcomps := hsecond.mpr hescape
      have hself := htexts r List.mem_cons_self
      have hid : validateRunId r = true :=
        validateRunId_iff.mpr ⟨hr.1, hdots, hr.2.2.2.1, hself.2, hr.2.2.2.2⟩
      have hall : (relComponents (relPath rest)).all validComponent = true := by
        rw [hcomps]
        apply List.all_eq_true.mpr
        intro n hn
        obtain ⟨hempty, hdot, hdotDot, -, hnul⟩ := hnames n hn
        exact validComponent_iff.mpr
          ⟨hempty, hdot, hdotDot, hnul, (htexts n (List.mem_cons_of_mem r hn)).2⟩
      have hresolve := hleads.resolveArtefact_of_file hid hall (by rwa [hcomps])
      rw [hcomps] at hresolve
      unfold getArtefact
      rw [pathParam_eq_some_iff.mpr ⟨decode_encodeName, hself.1⟩,
        pathParam_eq_some_iff.mpr ⟨decode_encodePath, isUtf8_relPath hutf8⟩]
      simp only
      rw [if_neg (ne_false_of_eq_true hid), hresolve]
      simp only [read_real hfile]

def sampleRun : Name := [114, 49]

/-- `a.md`. -/
def plainName : Name := [97, 46, 109, 100]

/-- `a%20b.md`, which is what another name looks like when it is encoded. -/
def encodedName : Name := [97, 37, 50, 48, 98, 46, 109, 100]

def sampleEntries : List (RealPath × Entry) :=
  [([runsName], .dir), ([runsName, sampleRun], .dir),
    ([runsName, sampleRun, plainName], .file [104, 105]),
    ([runsName, sampleRun, encodedName], .file [104, 111])]

def sampleHost : Host := ⟨.ofEntries sampleEntries (by decide), [], 40⟩

def sampleRoot : FilePath := .ofBytes [slash]

theorem artefacts_served_iff_sample :
    ((∃ runs, sampleHost.canonicalize (sampleRoot.join runsName) = .ok runs ∧
      Contained sampleHost.tree runs (percentDecode sampleRun) [runsName, sampleRun, plainName]
        [104, 105]) ↔ percentDecode sampleRun ≠ dot) ∧
    (getArtefact sampleHost sampleRoot (encodeName sampleRun) (encodePath [plainName]) =
        .file [runsName, sampleRun, plainName] [104, 105] ↔
      ¬ dotDot <:+: sampleRun ∧ hasEscape (relPath [plainName]) = false) := by
  have hchild : IsName sampleRun := by decide
  have hfile : sampleHost.tree.entry [runsName, sampleRun, plainName] = some (.file [104, 105]) :=
    rfl
  constructor
  · exact (artefacts_served_iff sampleHost sampleRoot).1 sampleRun plainName _ _ (by decide)
  · exact (artefacts_served_iff sampleHost sampleRoot).2 [runsName] sampleRun [plainName] _
      (by decide) (contained_of_file hchild (List.cons_ne_nil _ _) hfile) (by decide)

/-- A file whose name looks encoded is not found, and a run id that is a single dot hands out the
file of a run that it does not name. -/
theorem artefacts_not_served :
    (Contained sampleHost.tree [runsName] sampleRun [runsName, sampleRun, encodedName]
        [104, 111] ∧
      getArtefact sampleHost sampleRoot (encodeName sampleRun) (encodePath [encodedName]) =
        .refused 404 "Not found") ∧
    (getArtefact sampleHost sampleRoot dot (relPath [sampleRun, plainName]) =
        .file [runsName, sampleRun, plainName] [104, 105] ∧
      ¬ ∃ runs, sampleHost.canonicalize (sampleRoot.join runsName) = .ok runs ∧
        Contained sampleHost.tree runs (percentDecode dot) [runsName, sampleRun, plainName]
          [104, 105]) := by
  have hfile : sampleHost.tree.entry [runsName, sampleRun, encodedName] =
      some (.file [104, 111]) := rfl
  have hchild : IsName sampleRun := by decide
  constructor
  · exact ⟨contained_of_file hchild (List.cons_ne_nil _ _) hfile, by decide⟩
  · constructor
    · decide
    · rintro ⟨_, _, hcontained⟩
      exact absurd hcontained.child (by decide)

end Served

end Loker.ArtefactFiles
