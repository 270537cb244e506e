import Mathlib

/-! A tree of directories and files, with the operations of a POSIX-like file system. -/

namespace Loker.FileTree

/-- The components of an absolute path; the root is the empty list. -/
abbrev Path := List String

inductive Node (β : Type) where
  | file (bytes : β)
  | dir
  deriving DecidableEq, Repr

/-- Finitely many nodes, each of them inside a directory. -/
structure Disk (β : Type) where
  node : Path → Option (Node β)
  support : List Path
  node_root : node [] = some .dir
  mem_support : ∀ {p}, node p ≠ none → p ∈ support
  node_parent : ∀ {p s}, node (p ++ [s]) ≠ none → node p = some .dir

variable {β : Type}

def Disk.empty : Disk β where
  node p := if p = [] then some .dir else none
  support := [[]]
  node_root := rfl
  mem_support := by simp
  node_parent := by simp

def fileAt (t : Disk β) (p : Path) : Option β :=
  match t.node p with
  | some (.file b) => some b
  | _ => none

def isDir (t : Disk β) (p : Path) : Bool :=
  match t.node p with
  | some .dir => true
  | _ => false

def occupied (t : Disk β) (p : Path) : Bool := (t.node p).isSome

lemma isDir_iff {t : Disk β} {p : Path} : isDir t p = true ↔ t.node p = some .dir := by
  unfold isDir
  split <;> simp_all

lemma fileAt_eq_some {t : Disk β} {p : Path} {b : β} :
    fileAt t p = some b ↔ t.node p = some (.file b) := by
  unfold fileAt
  split <;> simp_all

lemma fileAt_eq_none {t : Disk β} {p : Path} :
    fileAt t p = none ↔ t.node p = none ∨ t.node p = some .dir := by
  unfold fileAt
  rcases t.node p with _ | _ | _ <;> simp

lemma fileAt_congr {t u : Disk β} {p : Path} (h : u.node p = t.node p) :
    fileAt u p = fileAt t p := by
  simp only [fileAt, h]

/-- Every proper prefix of an existing path is a directory. -/
lemma node_of_append {t : Disk β} {p q : Path} (hq : q ≠ []) (h : t.node (p ++ q) ≠ none) :
    t.node p = some .dir := by
  induction q using List.reverseRecOn with
  | nil => exact absurd rfl hq
  | append_singleton q s ih =>
      rw [← List.append_assoc] at h
      have hdir := t.node_parent h
      rcases eq_or_ne q [] with rfl | hne
      · simpa using hdir
      · exact ih hne (by simp [hdir])

lemma node_above {t : Disk β} {p q : Path} (hpq : p <+: q) (hne : p ≠ q)
    (h : t.node q ≠ none) : t.node p = some .dir := by
  obtain ⟨r, rfl⟩ := hpq
  exact node_of_append (by rintro rfl; simp at hne) h

lemma node_below_none {t : Disk β} {p q : Path} (hpq : p <+: q) (h : t.node p = none) :
    t.node q = none := by
  by_contra hq
  rcases eq_or_ne p q with rfl | hne
  · exact hq h
  · simp [node_above hpq hne hq] at h

/-- No path goes through a file. -/
lemma eq_of_isPrefix_of_file {t : Disk β} {p q : Path} {b : β} (hpq : p <+: q)
    (hp : fileAt t p = some b) (hq : t.node q ≠ none) : p = q := by
  by_contra hne
  have hdir := node_above hpq hne hq
  simp [fileAt_eq_some.mp hp] at hdir

section Create

/-- A proper or improper prefix of the path is a file. -/
def blocked (t : Disk β) (p : Path) : Prop := ∃ q ∈ p.inits, (fileAt t q).isSome

instance (t : Disk β) (p : Path) : Decidable (blocked t p) :=
  inferInstanceAs (Decidable (∃ q ∈ p.inits, _))

lemma not_blocked {t : Disk β} {p q : Path} (h : ¬ blocked t p) (hq : q <+: p) :
    fileAt t q = none := by
  by_contra hne
  exact h ⟨q, (List.mem_inits q p).mpr hq, Option.isSome_iff_ne_none.mpr hne⟩

def addDirs (t : Disk β) (p : Path) : Disk β where
  node q := if q <+: p then some .dir else t.node q
  support := p.inits ++ t.support
  node_root := by simp
  mem_support {q} hq := by
    by_cases hpre : q <+: p
    · exact List.mem_append_left _ ((List.mem_inits q p).mpr hpre)
    · simp only [hpre, if_false] at hq
      exact List.mem_append_right _ (t.mem_support hq)
  node_parent {q s} hq := by
    by_cases hpre : q <+: p
    · simp [hpre]
    · have hs : ¬ q ++ [s] <+: p := fun hs => hpre ((List.prefix_append q [s]).trans hs)
      simp only [hs, if_false] at hq
      simp [hpre, t.node_parent hq]

/-- Creates the directory and every missing directory above it. -/
def createDirAll (t : Disk β) (p : Path) : Option (Disk β) :=
  if blocked t p then none else some (addDirs t p)

lemma createDirAll_eq_some {t u : Disk β} {p : Path} :
    createDirAll t p = some u ↔ ¬ blocked t p ∧ addDirs t p = u := by
  unfold createDirAll
  split <;> simp_all

lemma createDirAll_node {t u : Disk β} {p : Path} (h : createDirAll t p = some u) (q : Path) :
    u.node q = if q <+: p then some .dir else t.node q := by
  obtain ⟨_, rfl⟩ := createDirAll_eq_some.mp h
  rfl

lemma createDirAll_fileAt {t u : Disk β} {p : Path} (h : createDirAll t p = some u) :
    fileAt u = fileAt t := by
  funext q
  obtain ⟨hb, rfl⟩ := createDirAll_eq_some.mp h
  by_cases hq : q <+: p
  · rw [not_blocked hb hq, fileAt_eq_none]
    exact Or.inr (if_pos hq)
  · exact fileAt_congr (if_neg hq)

lemma createDirAll_isDir {t u : Disk β} {p : Path} (h : createDirAll t p = some u) :
    isDir u p = true := by
  simp [isDir_iff, createDirAll_node h]

/-- A directory can be made inside a directory unless a file is there. -/
lemma createDirAll_child {t : Disk β} {p : Path} {s : String} (hdir : isDir t p = true)
    (hfree : fileAt t (p ++ [s]) = none) : ∃ u, createDirAll t (p ++ [s]) = some u := by
  refine ⟨_, createDirAll_eq_some.mpr ⟨?_, rfl⟩⟩
  rintro ⟨q, hq, hfile⟩
  obtain ⟨b, hb⟩ := Option.isSome_iff_exists.mp hfile
  have hpre : q <+: p ++ [s] := (List.mem_inits q _).mp hq
  rcases List.prefix_concat_iff.mp hpre with heq | hle
  · rw [heq, hfree] at hb
    cases hb
  · have hnode := isDir_iff.mp hdir
    have heq := eq_of_isPrefix_of_file hle hb (by simp [hnode])
    rw [heq, fileAt_eq_some, hnode] at hb
    cases hb

lemma createDirAll_isDir_of {t u : Disk β} {p q : Path} (h : createDirAll t p = some u)
    (hq : isDir t q = true) : isDir u q = true := by
  rw [isDir_iff] at hq ⊢
  rw [createDirAll_node h, hq, ite_self]

lemma createDirAll_keeps {t u : Disk β} {p q : Path} (h : createDirAll t p = some u)
    (hq : t.node q ≠ none) : u.node q = t.node q := by
  rw [createDirAll_node h]
  split
  · next hpre =>
    obtain ⟨hb, rfl⟩ := createDirAll_eq_some.mp h
    rcases fileAt_eq_none.mp (not_blocked hb hpre) with hnone | hdir
    · exact absurd hnone hq
    · exact hdir.symm
  · rfl

end Create

section Write

/-- The path can hold a file: its parent is a directory and it is not one itself. -/
structure Writable (t : Disk β) (p : Path) : Prop where
  ne_root : p ≠ []
  not_dir : isDir t p = false
  parent : isDir t p.dropLast = true

instance (t : Disk β) (p : Path) : Decidable (Writable t p) :=
  decidable_of_iff (p ≠ [] ∧ isDir t p = false ∧ isDir t p.dropLast = true)
    ⟨fun ⟨h₁, h₂, h₃⟩ => ⟨h₁, h₂, h₃⟩, fun ⟨h₁, h₂, h₃⟩ => ⟨h₁, h₂, h₃⟩⟩

def setFile (t : Disk β) (p : Path) (b : β) (h : Writable t p) : Disk β where
  node q := if q = p then some (.file b) else t.node q
  support := p :: t.support
  node_root := by simp [h.ne_root.symm, t.node_root]
  mem_support {q} hq := by
    by_cases hqp : q = p
    · simp [hqp]
    · simp only [hqp, if_false] at hq
      exact List.mem_cons_of_mem _ (t.mem_support hq)
  node_parent {q s} hq := by
    have hdir : t.node q = some .dir := by
      by_cases hqs : q ++ [s] = p
      · subst hqs
        simpa [isDir_iff] using h.parent
      · simp only [hqs, if_false] at hq
        exact t.node_parent hq
    have hne : q ≠ p := by
      rintro rfl
      exact absurd h.not_dir (by simp [isDir_iff.mpr hdir])
    simp [hne, hdir]

/-- Replaces or creates one file; the write is all or nothing. -/
def writeFile (t : Disk β) (p : Path) (b : β) : Option (Disk β) :=
  if h : Writable t p then some (setFile t p b h) else none

lemma writeFile_eq_some {t u : Disk β} {p : Path} {b : β} :
    writeFile t p b = some u ↔ ∃ h : Writable t p, setFile t p b h = u := by
  unfold writeFile
  split <;> simp_all

lemma writeFile_node {t u : Disk β} {p : Path} {b : β} (h : writeFile t p b = some u)
    (q : Path) : u.node q = if q = p then some (.file b) else t.node q := by
  obtain ⟨_, rfl⟩ := writeFile_eq_some.mp h
  rfl

lemma writeFile_fileAt {t u : Disk β} {p : Path} {b : β} (h : writeFile t p b = some u) :
    fileAt u = Function.update (fileAt t) p (some b) := by
  funext q
  rcases eq_or_ne q p with rfl | hne
  · simp [fileAt_eq_some, writeFile_node h]
  · rw [Function.update_of_ne hne]
    exact fileAt_congr (by simp [writeFile_node h, hne])

lemma writeFile_self {t u : Disk β} {p : Path} {b : β} (h : writeFile t p b = some u) :
    fileAt u p = some b := by
  rw [writeFile_fileAt h, Function.update_self]

lemma writeFile_other {t u : Disk β} {p q : Path} {b : β} (h : writeFile t p b = some u)
    (hq : q ≠ p) : fileAt u q = fileAt t q := by
  rw [writeFile_fileAt h, Function.update_of_ne hq]

lemma writeFile_isDir {t u : Disk β} {p q : Path} {b : β} (h : writeFile t p b = some u)
    (hq : isDir t q = true) : isDir u q = true := by
  obtain ⟨hwritable, _⟩ := writeFile_eq_some.mp h
  have hne : q ≠ p := by
    rintro rfl
    rw [hwritable.not_dir] at hq
    cases hq
  rw [isDir_iff, writeFile_node h, if_neg hne]
  exact isDir_iff.mp hq

lemma writable_of_file {t : Disk β} {p : Path} {b : β} (h : fileAt t p = some b) :
    Writable t p := by
  have hnode := fileAt_eq_some.mp h
  rcases List.eq_nil_or_concat p with rfl | ⟨q, s, hp⟩
  · simp [t.node_root] at hnode
  · rw [List.concat_eq_append] at hp
    subst hp
    have hparent := t.node_parent (p := q) (s := s) (by simp [hnode])
    exact ⟨by simp, by simp [isDir, hnode], by simpa [isDir_iff] using hparent⟩

/-- Any path but the root can hold a file. -/
lemma exists_fileAt {p : Path} (hp : p ≠ []) (b : β) : ∃ t : Disk β, fileAt t p = some b := by
  have hfree : ¬ blocked (Disk.empty : Disk β) p.dropLast := by
    rintro ⟨q, _, hfile⟩
    by_cases hq : q = [] <;> simp [fileAt, Disk.empty, hq] at hfile
  have hwritable : Writable (addDirs (Disk.empty : Disk β) p.dropLast) p := by
    refine ⟨hp, ?_, by simp [isDir, addDirs]⟩
    have hlong : ¬ p <+: p.dropLast := by
      intro hpre
      have hle := hpre.length_le
      have hpos := List.length_pos_iff.mpr hp
      rw [List.length_dropLast] at hle
      omega
    simp [isDir, addDirs, hlong, Disk.empty, hp]
  exact ⟨setFile _ p b hwritable, fileAt_eq_some.mpr (if_pos rfl)⟩

lemma writeFile_of_file {t : Disk β} {p : Path} {b : β} (c : β) (h : fileAt t p = some b) :
    ∃ u, writeFile t p c = some u :=
  ⟨_, dif_pos (writable_of_file h)⟩

end Write

section Remove

def dropFile (t : Disk β) (p : Path) (h : (fileAt t p).isSome) : Disk β where
  node q := if q = p then none else t.node q
  support := t.support
  node_root := by
    have : ([] : Path) ≠ p := by
      rintro rfl
      simp [fileAt, t.node_root] at h
    simp [this, t.node_root]
  mem_support {q} hq := by
    by_cases hqp : q = p
    · simp [hqp] at hq
    · simp only [hqp, if_false] at hq
      exact t.mem_support hq
  node_parent {q s} hq := by
    have hqs : t.node (q ++ [s]) ≠ none := by
      by_cases hqs : q ++ [s] = p <;> simp_all
    have hdir := t.node_parent hqs
    have hne : q ≠ p := by
      rintro rfl
      simp [fileAt, hdir] at h
    simp [hne, hdir]

def removeFile (t : Disk β) (p : Path) : Option (Disk β) :=
  if h : (fileAt t p).isSome then some (dropFile t p h) else none

lemma removeFile_eq_some {t u : Disk β} {p : Path} :
    removeFile t p = some u ↔ ∃ h : (fileAt t p).isSome, dropFile t p h = u := by
  unfold removeFile
  split <;> simp_all

lemma removeFile_fileAt {t u : Disk β} {p : Path} (h : removeFile t p = some u) :
    fileAt u = Function.update (fileAt t) p none := by
  funext q
  obtain ⟨_, rfl⟩ := removeFile_eq_some.mp h
  rcases eq_or_ne q p with rfl | hne
  · simp [fileAt, dropFile]
  · rw [Function.update_of_ne hne]
    exact fileAt_congr (by simp [dropFile, hne])

lemma removeFile_of_file {t : Disk β} {p : Path} {b : β} (h : fileAt t p = some b) :
    ∃ u, removeFile t p = some u :=
  ⟨_, dif_pos (by simp [h])⟩

end Remove

section Rename

/-- Where a path lands when the subtree at `src` moves to `dst`. -/
def unmove (src dst q : Path) : Path := src ++ q.drop dst.length

/-- The subtree at `src` can move to `dst`, which must not exist yet. -/
structure Movable (t : Disk β) (src dst : Path) : Prop where
  source : occupied t src = true
  target_free : occupied t dst = false
  parent : isDir t dst.dropLast = true
  not_inside : ¬ src <+: dst

instance (t : Disk β) (src dst : Path) : Decidable (Movable t src dst) :=
  decidable_of_iff (occupied t src = true ∧ occupied t dst = false ∧
      isDir t dst.dropLast = true ∧ ¬ src <+: dst)
    ⟨fun ⟨h₁, h₂, h₃, h₄⟩ => ⟨h₁, h₂, h₃, h₄⟩, fun ⟨h₁, h₂, h₃, h₄⟩ => ⟨h₁, h₂, h₃, h₄⟩⟩

lemma Movable.ne_root {t : Disk β} {src dst : Path} (h : Movable t src dst) : dst ≠ [] := by
  rintro rfl
  exact absurd h.target_free (by simp [occupied, t.node_root])

def moveTree (t : Disk β) (src dst : Path) (h : Movable t src dst) : Disk β where
  node q :=
    if dst <+: q then t.node (unmove src dst q)
    else if src <+: q then none
    else t.node q
  support := t.support.map (fun q => dst ++ q.drop src.length) ++ t.support
  node_root := by
    have hsrc : src ≠ [] := by
      rintro rfl
      exact h.not_inside (List.nil_prefix)
    simp [h.ne_root, hsrc, t.node_root]
  mem_support {q} hq := by
    by_cases hdst : dst <+: q
    · simp only [hdst, if_true] at hq
      have hmem := t.mem_support hq
      refine List.mem_append_left _ (List.mem_map.mpr ⟨_, hmem, ?_⟩)
      obtain ⟨r, rfl⟩ := hdst
      simp [unmove]
    · by_cases hsrc : src <+: q
      · simp [hdst, hsrc] at hq
      · simp only [hdst, hsrc, if_false] at hq
        exact List.mem_append_right _ (t.mem_support hq)
  node_parent {q s} hq := by
    by_cases hdst : dst <+: q
    · obtain ⟨r, rfl⟩ := hdst
      have hnode : t.node (src ++ r ++ [s]) ≠ none := by
        simpa [unmove, List.append_assoc] using hq
      simpa [unmove] using t.node_parent hnode
    · by_cases hstep : dst <+: q ++ [s]
      · have heq : dst = q ++ [s] := by
          rcases List.prefix_concat_iff.mp hstep with h' | h'
          · exact h'
          · exact absurd h' hdst
        have hsrc : ¬ src <+: q := by
          intro h'
          exact h.not_inside (heq ▸ h'.trans (List.prefix_append q [s]))
        have hparent := h.parent
        rw [heq, List.dropLast_concat, isDir_iff] at hparent
        simp [hdst, hsrc, hparent]
      · by_cases hsrc : src <+: q ++ [s]
        · simp [hstep, hsrc] at hq
        · have hsrc' : ¬ src <+: q := fun h' => hsrc (h'.trans (List.prefix_append q [s]))
          simp only [hstep, hsrc, if_false] at hq
          simp [hdst, hsrc', t.node_parent hq]

def rename (t : Disk β) (src dst : Path) : Option (Disk β) :=
  if h : Movable t src dst then some (moveTree t src dst h) else none

lemma rename_eq_some {t u : Disk β} {src dst : Path} :
    rename t src dst = some u ↔ ∃ h : Movable t src dst, moveTree t src dst h = u := by
  unfold rename
  split <;> simp_all

/-- A path that is neither in the source nor in the target is not affected. -/
lemma rename_node {t u : Disk β} {src dst q : Path} (h : rename t src dst = some u)
    (hsrc : ¬ src <+: q) (hdst : ¬ dst <+: q) : u.node q = t.node q := by
  obtain ⟨_, rfl⟩ := rename_eq_some.mp h
  simp [moveTree, hsrc, hdst]

lemma rename_eq_none_or {t u : Disk β} {src dst q : Path} (h : rename t src dst = some u)
    (hdst : ¬ dst <+: q) : u.node q = none ∨ u.node q = t.node q := by
  obtain ⟨_, rfl⟩ := rename_eq_some.mp h
  by_cases hsrc : src <+: q
  · simp [moveTree, hdst, hsrc]
  · simp [moveTree, hdst, hsrc]

end Rename

section Listing

/-- The name under which `q` is a direct child of `p`. -/
def childName (p q : Path) : Option String :=
  if q.dropLast = p then q.getLast? else none

/-- The names in a directory, each once, in no particular order. -/
def readDir (t : Disk β) (p : Path) : List String :=
  (t.support.filterMap (childName p)).dedup.filter fun s => occupied t (p ++ [s])

lemma mem_readDir {t : Disk β} {p : Path} {s : String} :
    s ∈ readDir t p ↔ t.node (p ++ [s]) ≠ none := by
  simp only [readDir, List.mem_filter, List.mem_dedup, List.mem_filterMap, occupied,
    Option.isSome_iff_ne_none]
  constructor
  · exact fun h => h.2
  · intro h
    refine ⟨⟨p ++ [s], t.mem_support h, ?_⟩, h⟩
    simp [childName]

lemma mem_readDir_of_fileAt {t : Disk β} {p : Path} {s : String} {b : β}
    (h : fileAt t (p ++ [s]) = some b) : s ∈ readDir t p :=
  mem_readDir.mpr (by simp [fileAt_eq_some.mp h])

lemma readDir_of_absent {t : Disk β} {p : Path} (h : t.node p = none) : readDir t p = [] := by
  rw [List.eq_nil_iff_forall_not_mem]
  intro s hs
  have hparent := t.node_parent (mem_readDir.mp hs)
  rw [h] at hparent
  cases hparent

end Listing

section Join

/-- One component of a relative path, as `.` and `..` are resolved. -/
def descend (p : Path) (s : String) : Path :=
  if s = "" ∨ s = "." then p else if s = ".." then p.dropLast else p ++ [s]

/-- The string split at every slash. -/
def components (s : String) : List String := (s.toList.splitOn '/').map String.ofList

/-- A path string taken relative to a directory; a leading slash makes it absolute. -/
def join (base : Path) (s : String) : Path :=
  (components s).foldl descend (if s.toList.head? = some '/' then [] else base)

/-- A trailing slash or dot makes the system treat the last component as a directory. -/
def namesDirectory (p : String) : Bool :=
  let last := (components p).getLast?
  last = some "" ∨ last = some "."

def normalComponents (p : String) : List String :=
  (components p).filter fun s => s ≠ "" ∧ s ≠ "."

/-- The string names one entry of a directory. -/
structure IsName (s : String) : Prop where
  no_slash : '/' ∉ s.toList
  ne_empty : s ≠ ""
  ne_dot : s ≠ "."
  ne_dotdot : s ≠ ".."

instance (s : String) : Decidable (IsName s) :=
  decidable_of_iff ('/' ∉ s.toList ∧ s ≠ "" ∧ s ≠ "." ∧ s ≠ "..")
    ⟨fun ⟨h₁, h₂, h₃, h₄⟩ => ⟨h₁, h₂, h₃, h₄⟩, fun ⟨h₁, h₂, h₃, h₄⟩ => ⟨h₁, h₂, h₃, h₄⟩⟩

lemma components_of_no_slash {s : String} (h : '/' ∉ s.toList) : components s = [s] := by
  simp [components, List.splitOn_eq_singleton h]

lemma slash_not_mem_of_components {s name : String} (h : name ∈ components s) :
    '/' ∉ name.toList := by
  have hparts : ∀ cs : List Char, ∀ part ∈ cs.splitOn '/', '/' ∉ part := by
    intro cs
    induction cs with
    | nil => simp
    | cons c cs ih =>
        intro part hpart
        rw [List.splitOn, List.splitOnP_cons_eq_if_modifyHead] at hpart
        split at hpart
        · rcases List.mem_cons.mp hpart with rfl | hmem
          · simp
          · exact ih part hmem
        · next hc =>
          obtain ⟨first, rest, hsplit⟩ := List.exists_cons_of_ne_nil (List.splitOnP_ne_nil (· == '/') cs)
          rw [hsplit, List.modifyHead_cons] at hpart
          rw [List.splitOn, hsplit] at ih
          rcases List.mem_cons.mp hpart with rfl | hmem
          · have hfirst := ih first List.mem_cons_self
            have hne : '/' ≠ c := by rintro rfl; simp at hc
            simp [hfirst, hne]
          · exact ih part (List.mem_cons_of_mem _ hmem)
  obtain ⟨part, hpart, rfl⟩ := List.mem_map.mp h
  rw [String.toList_ofList]
  exact hparts _ part hpart

lemma mem_join {base : Path} {s name : String} (h : name ∈ join base s) :
    name ∈ base ∨ name ∈ components s := by
  have hfold : ∀ (names : List String) (p : Path), name ∈ names.foldl descend p →
      name ∈ p ∨ name ∈ names := by
    intro names
    induction names with
    | nil => exact fun p h => Or.inl h
    | cons first names ih =>
        intro p h
        rcases ih _ h with hp | hmem
        · unfold descend at hp
          split at hp
          · exact Or.inl hp
          · split at hp
            · exact Or.inl (List.mem_of_mem_dropLast hp)
            · rcases List.mem_append.mp hp with hp | hfirst
              · exact Or.inl hp
              · exact Or.inr (List.mem_singleton.mp hfirst ▸ List.mem_cons_self)
        · exact Or.inr (List.mem_cons_of_mem _ hmem)
  rcases hfold _ _ h with hp | hmem
  · split at hp
    · simp at hp
    · exact Or.inl hp
  · exact Or.inr hmem

lemma components_concat (a s : String) : components (a ++ "/" ++ s) = components a ++ components s := by
  have hlist : (a ++ "/" ++ s).toList = a.toList ++ '/' :: s.toList := by simp
  simp [components, hlist, List.splitOn_append_cons_self]

lemma components_append {a s : String} (ha : '/' ∉ a.toList) :
    components (a ++ "/" ++ s) = a :: components s := by
  rw [components_concat, components_of_no_slash ha, List.singleton_append]

lemma join_concat {base : Path} {a s : String} (ha : a ≠ "") :
    join base (a ++ "/" ++ s) = (components s).foldl descend (join base a) := by
  have hhead : (a ++ "/" ++ s).toList.head? = a.toList.head? := by
    have hlist : a.toList ≠ [] := fun h => ha (by rw [← String.toList_inj, h]; rfl)
    obtain ⟨c, cs, hc⟩ := List.exists_cons_of_ne_nil hlist
    simp [hc]
  rw [join, hhead, components_concat, List.foldl_append, join]

lemma join_of_isName {base : Path} {s : String} (h : IsName s) : join base s = base ++ [s] := by
  have hhead : s.toList.head? ≠ some '/' := by
    intro hs
    exact h.no_slash (List.mem_of_mem_head? hs)
  simp [join, components_of_no_slash h.no_slash, hhead, descend, h.ne_empty, h.ne_dot,
    h.ne_dotdot]

/-- Below a directory named by the first component. -/
lemma join_append {base : Path} {a s : String} (ha : IsName a)
    (hs : s.toList.head? ≠ some '/') : join base (a ++ "/" ++ s) = join (base ++ [a]) s := by
  have hhead : (a ++ "/" ++ s).toList.head? ≠ some '/' := by
    intro hslash
    have hempty : a.toList ≠ [] := fun h => ha.ne_empty (by rw [← String.toList_inj, h]; rfl)
    obtain ⟨c, cs, hc⟩ := List.exists_cons_of_ne_nil hempty
    simp only [String.toList_append, hc, List.cons_append, List.head?_cons,
      Option.some.injEq] at hslash
    exact ha.no_slash (by simp [hc, hslash])
  have hfirst : descend base a = base ++ [a] := by
    simp [descend, ha.ne_empty, ha.ne_dot, ha.ne_dotdot]
  rw [join, if_neg hhead, join, if_neg hs, components_append ha.no_slash, List.foldl_cons, hfirst]

lemma isName_append {a b : String} (ha : '/' ∉ a.toList) (hb : '/' ∉ b.toList)
    (hlen : 2 < b.toList.length) : IsName (a ++ b) := by
  have hlength : 2 < (a ++ b).toList.length := by
    rw [String.toList_append, List.length_append]
    omega
  constructor
  · simp [ha, hb]
  all_goals
    intro heq
    rw [heq] at hlength
    revert hlength
    decide

lemma isDigit_of_mem_repr {n : ℕ} {c : Char} (h : c ∈ n.repr.toList) : c.isDigit := by
  rw [Nat.toList_repr] at h
  exact Nat.isDigit_of_mem_toDigits (by decide) (by decide) h

lemma slash_not_mem_repr (n : ℕ) : '/' ∉ n.repr.toList :=
  fun h => absurd (isDigit_of_mem_repr h) (by decide)

lemma isName_repr (n : ℕ) : IsName n.repr := by
  have hdot : '.' ∉ n.repr.toList := fun h => absurd (isDigit_of_mem_repr h) (by decide)
  refine ⟨slash_not_mem_repr n, fun h => ?_, fun h => hdot (by simp [h]), fun h => hdot (by simp [h])⟩
  have hne := Nat.toDigits_ne_nil (n := n) (b := 10)
  rw [← Nat.toList_repr, h] at hne
  exact hne rfl

end Join

end Loker.FileTree
