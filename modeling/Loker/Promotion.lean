import Loker.TextOps
import Loker.TreeMoves

/-! Attempts of a phase: the pointer to the latest one, and the promotion of one that succeeds. -/

namespace Loker.Promotion

open FileTree TextOps TreeMoves

/-- What stands in the place of a file: bytes, or the target of a symbolic link. -/
inductive Leaf (B : Type) where
  | bytes (b : B)
  | link (target : String)
  deriving DecidableEq, Repr

section Links

variable {B : Type}

/-- What a path means when links are followed; after forty of them the system gives up. -/
def resolve (t : Disk (Leaf B)) : ℕ → Path → Option (Node B)
  | 0, _ => none
  | fuel + 1, p =>
      match t.node p with
      | none => none
      | some .dir => some .dir
      | some (.file (.bytes b)) => some (.file b)
      | some (.file (.link target)) => resolve t fuel (join p.dropLast target)

def pathExists (t : Disk (Leaf B)) (p : Path) : Bool := (resolve t 40 p).isSome

/-- A link cannot be made where something is already. -/
def symlink (t : Disk (Leaf B)) (p : Path) (target : String) : Option (Disk (Leaf B)) :=
  if occupied t p then none else writeFile t p (.link target)

/-- A link is removed itself. -/
def removeTree (t : Disk (Leaf B)) (p : Path) : Option (Disk (Leaf B)) :=
  match t.node p with
  | some (.file (.link _)) => removeFile t p
  | _ => removeDirAll t p

/-- The file that is copied for a leaf. -/
def followed (t : Disk (Leaf B)) (p : Path) (leaf : Leaf B) : Leaf B :=
  match resolve t 40 p with
  | some (.file b) => .bytes b
  | _ => leaf

def Copyable (t : Disk (Leaf B)) (src : Path) : Prop :=
  isDir t src = true ∧ ∀ p ∈ t.support, src <+: p → (fileAt t p).isSome = true →
    ∃ b, resolve t 40 p = some (.file b)

instance (t : Disk (Leaf B)) (p : Path) : Decidable (∃ b, resolve t 40 p = some (.file b)) :=
  match resolve t 40 p with
  | some (.file b) => .isTrue ⟨b, rfl⟩
  | some .dir => .isFalse nofun
  | none => .isFalse nofun

instance (t : Disk (Leaf B)) (src : Path) : Decidable (Copyable t src) :=
  inferInstanceAs (Decidable (_ ∧ _))

/-- Copies the tree into a new directory; what links lead to is copied for them. -/
def copyTree (t : Disk (Leaf B)) (src dst : Path) : Option (Disk (Leaf B)) := do
  let t ← createDirAll t dst
  if h : dst ≠ [] ∧ isDir t dst.dropLast = true then
    if Copyable t src then some (graft t src dst (followed t) h) else none
  else none

end Links

section Attempts

variable {B : Type}

/-- The canonical directory of a phase, given by the parts of its name. -/
def phaseDir (runDir phase : Path) : Path := runDir ++ phase

def attemptDir (runDir phase : Path) (attempt : ℕ) : Path :=
  runDir ++ "attempts" :: (phase ++ [attempt.repr])

def phaseName (phase : Path) : String := "/".intercalate phase

def removeIfThere (t : Disk (Leaf B)) (p : Path) : Disk (Leaf B) := (removeFile t p).getD t

/-- Points to the attempt if its directory is there, and to the canonical one if not; what fails
is left. The body of the fallback file is made of the attempt and its path. -/
def update (symlinks : Bool) (pointer : ℕ → String → B) (t : Disk (Leaf B)) (runDir phase : Path)
    (attempt : ℕ) : Disk (Leaf B) :=
  match createDirAll t (phaseDir runDir phase) with
  | none => t
  | some t =>
      let latest := phaseDir runDir phase ++ ["latest"]
      let json := phaseDir runDir phase ++ ["latest.json"]
      let path := phaseName phase ++ "/" ++ attempt.repr ++ "/"
      if pathExists t (attemptDir runDir phase attempt) then
        let t := removeIfThere (removeIfThere t latest) json
        match if symlinks then symlink t latest ("../attempts/" ++ path) else none with
        | some t => t
        | none => (writeFile t json (.bytes (pointer attempt ("attempts/" ++ path)))).getD t
      else
        let t := removeIfThere t latest
        (writeFile t json (.bytes (pointer attempt (phaseName phase ++ "/")))).getD t

/-- No stale files are merged with the copied ones. -/
def removeExisting (t : Disk (Leaf B)) (canonical : Path) : Option (Disk (Leaf B)) :=
  if pathExists t canonical then removeTree t canonical else some t

/-- A rename, or a copy where the canonical directory is on another device. -/
def promoteToCanonical (sameDevice : Bool) (t : Disk (Leaf B)) (path canonical : Path) :
    Option (Disk (Leaf B)) := do
  let t ← createDirAll t canonical.dropLast
  if sameDevice then renameDir t path canonical
  else do
    let t ← removeExisting t canonical
    let t ← copyTree t path canonical
    removeDirAll t path

/-- An attempt, which works in its own directory. -/
structure Attempt (B : Type) (runDir phase : Path) where
  number : ℕ
  work : Disk (Leaf B) → Disk (Leaf B)
  inside : ∀ t q, ¬ (attemptDir runDir phase number <+: q ∧
    q ≠ attemptDir runDir phase number) → (work t).node q = t.node q

variable {runDir phase : Path}

def attempted (a : Attempt B runDir phase) (t : Disk (Leaf B)) : Option (Disk (Leaf B)) :=
  (createDirAll t (attemptDir runDir phase a.number)).map a.work

/-- A failed attempt stays where it is, and the pointer is moved to it. -/
def failOnce (symlinks : Bool) (pointer : ℕ → String → B) (a : Attempt B runDir phase)
    (t : Disk (Leaf B)) : Option (Disk (Leaf B)) :=
  (attempted a t).map fun t => update symlinks pointer t runDir phase a.number

def failAll (symlinks : Bool) (pointer : ℕ → String → B) (t : Disk (Leaf B)) :
    List (Attempt B runDir phase) → Option (Disk (Leaf B))
  | [] => some t
  | a :: attempts => (failOnce symlinks pointer a t).bind (failAll symlinks pointer · attempts)

end Attempts

section Paths

variable {B : Type} {runDir phase : Path} {m n : ℕ} {q : Path}

lemma length_attemptDir :
    (attemptDir runDir phase n).length = (phaseDir runDir phase).length + 2 := by
  simp only [attemptDir, phaseDir, List.length_append, List.length_cons, List.length_nil]
  omega

/-- Next to the canonical directory and right inside it there is no attempt. -/
lemma attemptDir_not_above (h : q.length ≤ (phaseDir runDir phase).length + 1) :
    ¬ attemptDir runDir phase n <+: q := by
  intro hpre
  have hlen := hpre.length_le
  rw [length_attemptDir] at hlen
  omega

lemma attemptDir_not_above_child (s : String) :
    ¬ attemptDir runDir phase n <+: phaseDir runDir phase ++ [s] :=
  attemptDir_not_above (by rw [List.length_append, List.length_singleton])

lemma below_not_above (q : Path) {r : Path} (h : r.length ≤ (phaseDir runDir phase).length + 1) :
    ¬ attemptDir runDir phase n ++ q <+: r :=
  fun hpre => attemptDir_not_above h ((List.prefix_append _ q).trans hpre)

lemma attempt_ne_child (q : Path) (s : String) :
    attemptDir runDir phase n ++ q ≠ phaseDir runDir phase ++ [s] := by
  intro heq
  have hlen : (phaseDir runDir phase ++ [s]).length ≤ (phaseDir runDir phase).length + 1 := by
    rw [List.length_append, List.length_singleton]
  rw [← heq] at hlen
  exact below_not_above q hlen (List.prefix_refl _)

lemma attemptDir_apart (h : m ≠ n) (q : Path) :
    ¬ attemptDir runDir phase n <+: attemptDir runDir phase m ++ q := by
  intro hpre
  have heq : attemptDir runDir phase n = attemptDir runDir phase m := by
    apply List.IsPrefix.eq_of_length _ (by rw [length_attemptDir, length_attemptDir])
    exact List.prefix_of_prefix_length_le hpre (List.prefix_append _ q)
      (by rw [length_attemptDir, length_attemptDir])
  have hlast := congrArg List.getLast? heq
  have hof : ∀ k, (attemptDir runDir phase k).getLast? = some k.repr := by
    intro k
    rw [attemptDir, ← List.cons_append, ← List.append_assoc, List.getLast?_concat]
  rw [hof, hof] at hlast
  exact h (repr_inj (Option.some.inj hlast)).symm

/-- The canonical directory is above the attempts only if the phase is called like theirs. -/
lemma phase_prefix_iff {phase rest : Path} :
    phase <+: "attempts" :: (phase ++ rest) ↔ ∀ s ∈ phase, s = "attempts" := by
  induction phase generalizing rest with
  | nil =>
    constructor
    · intro _ s hs
      cases hs
    · exact fun _ => List.nil_prefix
  | cons s phase ih =>
    rw [List.cons_prefix_cons, List.forall_mem_cons]
    constructor
    · rintro ⟨rfl, hpre⟩
      exact ⟨rfl, ih.mp hpre⟩
    · rintro ⟨rfl, hall⟩
      exact ⟨rfl, ih.mpr hall⟩

lemma phaseDir_above_iff :
    phaseDir runDir phase <+: attemptDir runDir phase n ↔ ∀ s ∈ phase, s = "attempts" := by
  rw [phaseDir, attemptDir, List.prefix_append_right_inj, phase_prefix_iff]

lemma phaseDir_above_below_iff :
    phaseDir runDir phase <+: attemptDir runDir phase n ++ q ↔ ∀ s ∈ phase, s = "attempts" := by
  have habove : phaseDir runDir phase <+: attemptDir runDir phase n ↔ ∀ s ∈ phase, s = "attempts" :=
    phaseDir_above_iff
  rw [← habove]
  constructor
  · intro hpre
    apply List.prefix_of_prefix_length_le hpre (List.prefix_append _ q)
    rw [length_attemptDir]
    omega
  · exact fun hpre => hpre.trans (List.prefix_append _ q)

end Paths

section Steps

variable {B : Type} {runDir phase : Path} {t u v : Disk (Leaf B)} {q : Path}
  {symlinks : Bool} {pointer : ℕ → String → B}

lemma blocked_of_fails {p : Path} (h : createDirAll t p = none) : blocked t p := by
  unfold createDirAll at h
  split at h
  · assumption
  · cases h

lemma createDirAll_other {p : Path} (h : createDirAll t p = some u) (hq : ¬ q <+: p) :
    u.node q = t.node q := by
  rw [createDirAll_node h, if_neg hq]

lemma attempted_other {a : Attempt B runDir phase} (h : attempted a t = some v)
    (hbelow : ¬ attemptDir runDir phase a.number <+: q)
    (habove : ¬ q <+: attemptDir runDir phase a.number) : v.node q = t.node q := by
  obtain ⟨u, hu, rfl⟩ := Option.map_eq_some_iff.mp h
  rw [a.inside u q fun hq => hbelow hq.1, createDirAll_other hu habove]

/-- What is there stays, but for what is in the directory of the attempt. -/
lemma attempted_keeps {a : Attempt B runDir phase} (h : attempted a t = some v)
    (hbelow : ¬ attemptDir runDir phase a.number <+: q) (hq : t.node q ≠ none) :
    v.node q = t.node q := by
  obtain ⟨u, hu, rfl⟩ := Option.map_eq_some_iff.mp h
  rw [a.inside u q fun hq => hbelow hq.1, createDirAll_keeps hu hq]

lemma attempted_isDir {a : Attempt B runDir phase} (h : attempted a t = some v) :
    isDir v (attemptDir runDir phase a.number) = true := by
  obtain ⟨u, hu, rfl⟩ := Option.map_eq_some_iff.mp h
  rw [isDir_iff, a.inside u _ fun hq => hq.2 rfl]
  exact isDir_iff.mp (createDirAll_isDir hu)

lemma removeIfThere_node {p : Path} (hq : q ≠ p) : (removeIfThere t p).node q = t.node q := by
  unfold removeIfThere
  cases hremove : removeFile t p with
  | none => rfl
  | some u =>
    obtain ⟨_, rfl⟩ := removeFile_eq_some.mp hremove
    exact if_neg hq

lemma symlink_eq_some {p : Path} {target : String} (h : symlink t p target = some u) :
    writeFile t p (.link target) = some u := by
  unfold symlink at h
  split at h
  · cases h
  · exact h

lemma getD_writeFile_node {p : Path} {leaf : Leaf B} (hq : q ≠ p) :
    ((writeFile t p leaf).getD t).node q = t.node q := by
  cases hwrite : writeFile t p leaf with
  | none => rfl
  | some u => rw [Option.getD_some, writeFile_node hwrite, if_neg hq]

/-- The pointer is all that an update changes. -/
lemma update_node {n : ℕ} (hdir : ¬ q <+: phaseDir runDir phase)
    (hlatest : q ≠ phaseDir runDir phase ++ ["latest"])
    (hjson : q ≠ phaseDir runDir phase ++ ["latest.json"]) :
    (update symlinks pointer t runDir phase n).node q = t.node q := by
  unfold update
  cases hcreate : createDirAll t (phaseDir runDir phase) with
  | none => rfl
  | some u =>
    have hu := createDirAll_other hcreate hdir
    dsimp only
    split
    · split
      · next v hlink =>
        split at hlink
        · rw [writeFile_node (symlink_eq_some hlink), if_neg hlatest, removeIfThere_node hjson,
            removeIfThere_node hlatest, hu]
        · cases hlink
      · rw [getD_writeFile_node hjson, removeIfThere_node hjson, removeIfThere_node hlatest, hu]
    · rw [getD_writeFile_node hjson, removeIfThere_node hlatest, hu]

lemma update_attempt {m n : ℕ} (q : Path) :
    (update symlinks pointer t runDir phase n).node (attemptDir runDir phase m ++ q) =
      t.node (attemptDir runDir phase m ++ q) := by
  apply update_node
  · exact below_not_above q (Nat.le_succ _)
  · exact attempt_ne_child q "latest"
  · exact attempt_ne_child q "latest.json"

lemma attempted_attempt {m : ℕ} {a : Attempt B runDir phase} (h : attempted a t = some v)
    (hne : m ≠ a.number) (q : Path) :
    v.node (attemptDir runDir phase m ++ q) = t.node (attemptDir runDir phase m ++ q) := by
  apply attempted_other h (attemptDir_apart hne q)
  intro hpre
  have hpre' := (List.prefix_append (attemptDir runDir phase m) q).trans hpre
  apply attemptDir_apart (Ne.symm hne) []
  rw [List.append_nil]
  exact hpre'

/-- An attempt's directory stays as it is through the attempts after it. -/
lemma failAll_attempt {m : ℕ} {attempts : List (Attempt B runDir phase)}
    (h : failAll symlinks pointer t attempts = some u)
    (hne : ∀ a ∈ attempts, m ≠ a.number) (q : Path) :
    u.node (attemptDir runDir phase m ++ q) = t.node (attemptDir runDir phase m ++ q) := by
  induction attempts generalizing t with
  | nil =>
    obtain rfl := Option.some.inj h
    rfl
  | cons a attempts ih =>
    obtain ⟨v, hv, hrest⟩ := Option.bind_eq_some_iff.mp h
    obtain ⟨w, hw, rfl⟩ := Option.map_eq_some_iff.mp hv
    rw [ih hrest fun b hb => hne b (List.mem_cons_of_mem _ hb), update_attempt,
      attempted_attempt hw (hne a List.mem_cons_self)]

lemma failAll_append {before after : List (Attempt B runDir phase)} :
    failAll symlinks pointer t (before ++ after) =
      (failAll symlinks pointer t before).bind (failAll symlinks pointer · after) := by
  induction before generalizing t with
  | nil => rfl
  | cons a before ih =>
    change (failOnce symlinks pointer a t).bind (failAll symlinks pointer · (before ++ after)) =
      ((failOnce symlinks pointer a t).bind (failAll symlinks pointer · before)).bind
        (failAll symlinks pointer · after)
    rw [Option.bind_assoc]
    congr 1
    funext u
    exact ih

end Steps

section Obstruction

variable {B : Type} {runDir phase : Path} {t u v : Disk (Leaf B)} {symlinks : Bool}
  {pointer : ℕ → String → B}

/-- No directory can be renamed onto this path. -/
def Obstructed (t : Disk (Leaf B)) (p : Path) : Prop := blocked t p ∨ ∃ s, t.node (p ++ [s]) ≠ none

lemma Obstructed.keeps {p : Path} (h : Obstructed t p)
    (hkeeps : ∀ q : Path, q.length ≤ p.length + 1 → t.node q ≠ none → u.node q = t.node q) :
    Obstructed u p := by
  rcases h with ⟨q, hq, hfile⟩ | ⟨s, hs⟩
  · left
    refine ⟨q, hq, ?_⟩
    obtain ⟨leaf, hleaf⟩ := Option.isSome_iff_exists.mp hfile
    have hnode := fileAt_eq_some.mp hleaf
    have hlen := ((List.mem_inits q p).mp hq).length_le
    have hsame := hkeeps q (by omega) (by rw [hnode]; nofun)
    rw [fileAt_eq_some.mpr (hsame.trans hnode)]
    rfl
  · right
    refine ⟨s, ?_⟩
    rw [hkeeps _ (by rw [List.length_append, List.length_singleton]) hs]
    exact hs

lemma Obstructed.attempted {a : Attempt B runDir phase} (h : Obstructed t (phaseDir runDir phase))
    (hv : attempted a t = some v) : Obstructed v (phaseDir runDir phase) :=
  h.keeps fun _ hlen hq => attempted_keeps hv (attemptDir_not_above hlen) hq

lemma Obstructed.createDirAll {p q : Path} (h : Obstructed t p)
    (hu : FileTree.createDirAll t q = some u) : Obstructed u p :=
  h.keeps fun _ _ hq => createDirAll_keeps hu hq

lemma writeFile_fails_child {p : Path} {s : String} {leaf : Leaf B} (hdir : isDir t p = true)
    (h : writeFile t (p ++ [s]) leaf = none) : isDir t (p ++ [s]) = true := by
  by_contra hnot
  have hwritable : Writable t (p ++ [s]) := by
    constructor
    · exact List.append_ne_nil_of_right_ne_nil p (List.cons_ne_nil s [])
    · exact Bool.eq_false_iff.mpr hnot
    · rw [List.dropLast_concat]
      exact hdir
  unfold writeFile at h
  rw [dif_pos hwritable] at h
  cases h

lemma obstructed_writeFile {p : Path} {s : String} {leaf : Leaf B} (hdir : isDir t p = true) :
    Obstructed ((writeFile t (p ++ [s]) leaf).getD t) p := by
  right
  refine ⟨s, ?_⟩
  cases hwrite : writeFile t (p ++ [s]) leaf with
  | none =>
    rw [Option.getD_none, isDir_iff.mp (writeFile_fails_child hdir hwrite)]
    nofun
  | some u =>
    rw [Option.getD_some, writeFile_node hwrite, if_pos rfl]
    nofun

/-- The pointer stands in the way. -/
lemma obstructed_update (n : ℕ) :
    Obstructed (update symlinks pointer t runDir phase n) (phaseDir runDir phase) := by
  unfold update
  cases hcreate : FileTree.createDirAll t (phaseDir runDir phase) with
  | none => exact Or.inl (blocked_of_fails hcreate)
  | some u =>
    have hself : ∀ s, phaseDir runDir phase ≠ phaseDir runDir phase ++ [s] := by
      intro s heq
      have hlen := congrArg List.length heq
      rw [List.length_append, List.length_singleton] at hlen
      omega
    have hdir : ∀ s, isDir (removeIfThere u (phaseDir runDir phase ++ [s]))
        (phaseDir runDir phase) = true := by
      intro s
      rw [isDir_iff, removeIfThere_node (hself s)]
      exact isDir_iff.mp (createDirAll_isDir hcreate)
    dsimp only
    split
    · have hdir' : isDir (removeIfThere (removeIfThere u (phaseDir runDir phase ++ ["latest"]))
          (phaseDir runDir phase ++ ["latest.json"])) (phaseDir runDir phase) = true := by
        rw [isDir_iff, removeIfThere_node (hself _)]
        exact isDir_iff.mp (hdir _)
      split
      · next v hlink =>
        right
        refine ⟨"latest", ?_⟩
        split at hlink
        · rw [writeFile_node (symlink_eq_some hlink), if_pos rfl]
          nofun
        · cases hlink
      · exact obstructed_writeFile hdir'
    · exact obstructed_writeFile (hdir _)

lemma Obstructed.failAll {attempts : List (Attempt B runDir phase)}
    (h : Obstructed t (phaseDir runDir phase))
    (hu : failAll symlinks pointer t attempts = some u) :
    Obstructed u (phaseDir runDir phase) := by
  induction attempts generalizing t with
  | nil =>
    obtain rfl := Option.some.inj hu
    exact h
  | cons a attempts ih =>
    obtain ⟨v, hv, hrest⟩ := Option.bind_eq_some_iff.mp hu
    obtain ⟨w, hw, rfl⟩ := Option.map_eq_some_iff.mp hv
    exact ih (obstructed_update a.number) hrest

/-- After a failed attempt, the phase's directory is never vacant again. -/
lemma obstructed_of_failed {attempts : List (Attempt B runDir phase)} (hne : attempts ≠ [])
    (hu : Promotion.failAll symlinks pointer t attempts = some u) :
    Obstructed u (phaseDir runDir phase) := by
  cases attempts with
  | nil => exact absurd rfl hne
  | cons a attempts =>
    obtain ⟨v, hv, hrest⟩ := Option.bind_eq_some_iff.mp hu
    obtain ⟨w, hw, rfl⟩ := Option.map_eq_some_iff.mp hv
    exact (obstructed_update a.number).failAll hrest

lemma Obstructed.not_vacant {p : Path} (h : Obstructed t p) (hparent : ¬ blocked t p.dropLast) :
    ¬ Vacant t p := by
  rcases h with ⟨q, hq, hfile⟩ | ⟨s, hs⟩
  · obtain ⟨leaf, hleaf⟩ := Option.isSome_iff_exists.mp hfile
    have hnode := fileAt_eq_some.mp hleaf
    have hpre := (List.mem_inits q p).mp hq
    have heq : q = p := by
      by_contra hne
      apply hparent
      refine ⟨q, (List.mem_inits q _).mpr ?_, hfile⟩
      obtain ⟨r, rfl⟩ := hpre
      have hr : r ≠ [] := fun hnil => hne (by rw [hnil, List.append_nil])
      rw [List.dropLast_append_of_ne_nil hr]
      exact List.prefix_append _ _
    subst heq
    rintro (hnone | ⟨_, hdir, _⟩)
    · rw [hnode] at hnone
      cases hnone
    · rw [isDir_iff, hnode] at hdir
      cases hdir
  · rintro (hnone | ⟨_, _, hempty⟩)
    · have hdir := t.node_parent hs
      rw [hnone] at hdir
      cases hdir
    · have hmem := mem_readDir.mpr hs
      rw [hempty] at hmem
      cases hmem

end Obstruction

section SameDevice

variable {B : Type} {runDir phase : Path} {t u w w' : Disk (Leaf B)} {q : Path} {n : ℕ}

lemma isDir_congr {p : Path} (h : u.node p = t.node p) : isDir u p = isDir t p := by
  unfold isDir
  rw [h]

lemma readDir_nil_iff {p : Path} : readDir t p = [] ↔ ∀ s, t.node (p ++ [s]) = none := by
  rw [List.eq_nil_iff_forall_not_mem]
  apply forall_congr'
  intro s
  rw [mem_readDir, not_not]

lemma vacant_congr {p : Path} (hself : u.node p = t.node p)
    (hchild : ∀ s, u.node (p ++ [s]) = t.node (p ++ [s])) : Vacant u p ↔ Vacant t p := by
  unfold Vacant
  rw [hself, isDir_congr hself, readDir_nil_iff, readDir_nil_iff]
  simp only [hchild]

lemma not_prefix_dropLast {p : Path} (s : String) (hne : p ≠ []) : ¬ p ++ [s] <+: p.dropLast := by
  intro hpre
  have hlen := hpre.length_le
  have hpos := List.length_pos_iff.mpr hne
  rw [List.length_append, List.length_singleton, List.length_dropLast] at hlen
  omega

/-- On one device, a directory is promoted exactly if the place is vacant. -/
lemma promote_succeeds_iff {src dst : Path} (hsrc : isDir t src = true) (hapart : ¬ src <+: dst)
    (hne : dst ≠ []) :
    (∃ u, promoteToCanonical true t src dst = some u) ↔
      ¬ blocked t dst.dropLast ∧ Vacant t dst := by
  unfold promoteToCanonical
  cases hcreate : createDirAll t dst.dropLast with
  | none =>
    constructor
    · rintro ⟨u, hu⟩
      cases hu
    · exact fun h => absurd (blocked_of_fails hcreate) h.1
  | some v =>
    have hfree : ¬ blocked t dst.dropLast := (createDirAll_eq_some.mp hcreate).1
    have hvacant : Vacant v dst ↔ Vacant t dst :=
      vacant_congr (createDirAll_other hcreate (dropLast_not_below hne))
        fun s => createDirAll_other hcreate (not_prefix_dropLast s hne)
    have hrename := renameDir_succeeds_iff (createDirAll_isDir_of hcreate hsrc) hapart hne
    rw [hvacant] at hrename
    change (∃ u, renameDir v src dst = some u) ↔ _
    rw [hrename]
    constructor
    · exact fun h => ⟨hfree, h.1⟩
    · exact fun h => ⟨h.2, createDirAll_isDir hcreate⟩

lemma promote_below {src dst : Path} (h : promoteToCanonical true t src dst = some u)
    (hsrc : src.length > dst.length) (q : Path) : u.node (dst ++ q) = t.node (src ++ q) := by
  unfold promoteToCanonical at h
  obtain ⟨v, hv, hu⟩ := Option.bind_eq_some_iff.mp h
  rw [if_pos rfl] at hu
  rw [renameDir_below hu, createDirAll_other hv]
  intro hpre
  have hlen := hpre.length_le
  rw [List.length_append, List.length_dropLast] at hlen
  omega

lemma promote_other {src dst : Path} (h : promoteToCanonical true t src dst = some u)
    (hsrc : ¬ src <+: q) (hdst : ¬ dst <+: q) (hparent : ¬ q <+: dst.dropLast) :
    u.node q = t.node q := by
  unfold promoteToCanonical at h
  obtain ⟨v, hv, hu⟩ := Option.bind_eq_some_iff.mp h
  rw [if_pos rfl] at hu
  rw [renameDir_other hu hsrc hdst, createDirAll_other hv hparent]

/-- The place as it was before the attempt. -/
lemma place_of_attempted {a : Attempt B runDir phase} (h : attempted a t = some w)
    (hphase : ¬ ∀ s ∈ phase, s = "attempts") :
    (Vacant w (phaseDir runDir phase) ↔ Vacant t (phaseDir runDir phase)) ∧
      (blocked w (phaseDir runDir phase).dropLast ↔
        blocked t (phaseDir runDir phase).dropLast) := by
  have habove : ∀ q, phaseDir runDir phase <+: q →
      ¬ q <+: attemptDir runDir phase a.number := by
    intro q hq hpre
    exact hphase (phaseDir_above_iff.mp (hq.trans hpre))
  constructor
  · apply vacant_congr
    · exact attempted_other h (attemptDir_not_above (Nat.le_succ _))
        (habove _ (List.prefix_refl _))
    · intro s
      exact attempted_other h (attemptDir_not_above_child s) (habove _ (List.prefix_append _ _))
  · obtain ⟨u, hu, rfl⟩ := Option.map_eq_some_iff.mp h
    have hfile : ∀ q ∈ (phaseDir runDir phase).dropLast.inits,
        fileAt (a.work u) q = fileAt t q := by
      intro q hq
      have hlen := ((List.mem_inits q _).mp hq).length_le
      rw [List.length_dropLast] at hlen
      rw [← createDirAll_fileAt hu]
      apply fileAt_congr
      exact a.inside u q fun hpre => attemptDir_not_above (by omega) hpre.1
    unfold blocked
    constructor
    · rintro ⟨q, hq, hb⟩
      exact ⟨q, hq, by rwa [← hfile q hq]⟩
    · rintro ⟨q, hq, hb⟩
      exact ⟨q, hq, by rwa [hfile q hq]⟩

end SameDevice

section OtherDevice

variable {B : Type} {t u v w : Disk (Leaf B)} {src dst p q : Path}

lemma resolve_congr (h : ∀ q, u.node q = t.node q) (fuel : ℕ) (p : Path) :
    resolve u fuel p = resolve t fuel p := by
  induction fuel generalizing p with
  | zero => rfl
  | succ fuel ih =>
    rw [resolve, resolve, h]
    split
    · rfl
    · rfl
    · rfl
    · exact ih _

lemma createDirAll_same (h : createDirAll t p = some u) (hdir : isDir t p = true) (q : Path) :
    u.node q = t.node q := by
  by_cases hpre : q <+: p
  · apply createDirAll_keeps h
    by_cases hne : q = p
    · rw [hne, isDir_iff.mp hdir]
      nofun
    · rw [node_above hpre hne (by rw [isDir_iff.mp hdir]; nofun)]
      nofun
  · exact createDirAll_other h hpre

lemma removeTree_node (h : removeTree t p = some u) (q : Path) :
    u.node q = if p <+: q then none else t.node q := by
  unfold removeTree at h
  split at h
  · next target hlink =>
    obtain ⟨hfile, rfl⟩ := removeFile_eq_some.mp h
    change (if q = p then none else t.node q) = _
    by_cases hpre : p <+: q
    · rw [if_pos hpre]
      by_cases heq : q = p
      · rw [if_pos heq]
      · rw [if_neg heq]
        by_contra hq
        exact heq (eq_of_isPrefix_of_file hpre (fileAt_eq_some.mpr hlink) hq).symm
    · have hne : q ≠ p := fun heq => hpre (by rw [heq])
      rw [if_neg hpre, if_neg hne]
  · exact removeDirAll_node h q

lemma removeTree_succeeds_iff (hne : p ≠ []) : (∃ u, removeTree t p = some u) ↔
    isDir t p = true ∨ ∃ target, t.node p = some (.file (.link target)) := by
  unfold removeTree
  split
  · next target hlink =>
    constructor
    · exact fun _ => Or.inr ⟨target, hlink⟩
    · exact fun _ => removeFile_of_file (fileAt_eq_some.mpr hlink)
  · next hlink =>
    constructor
    · rintro ⟨u, hu⟩
      left
      by_contra hdir
      have hnone : removeDirAll t p = none := dif_neg fun h => hdir h.1
      rw [hnone] at hu
      cases hu
    · rintro (hdir | ⟨target, htarget⟩)
      · exact exists_removeDirAll hdir hne
      · exact absurd htarget (hlink target)

lemma copyTree_eq_some : copyTree t src dst = some u ↔
    ∃ v, createDirAll t dst = some v ∧ Copyable v src ∧
      ∃ h : dst ≠ [] ∧ isDir v dst.dropLast = true, graft v src dst (followed v) h = u := by
  unfold copyTree
  constructor
  · intro h
    obtain ⟨v, hv, hu⟩ := Option.bind_eq_some_iff.mp h
    split at hu
    · next hgraft =>
      split at hu
      · next hcopy => exact ⟨v, hv, hcopy, hgraft, Option.some.inj hu⟩
      · cases hu
    · cases hu
  · rintro ⟨v, hv, hcopy, hgraft, rfl⟩
    apply Option.bind_eq_some_iff.mpr
    refine ⟨v, hv, ?_⟩
    rw [dif_pos hgraft, if_pos hcopy]

/-- The place can be cleared, and there is nothing to copy but files and directories. -/
structure Copies (t : Disk (Leaf B)) (src dst : Path) : Prop where
  reachable : ¬ blocked t dst.dropLast
  replaceable : t.node dst = none ∨ isDir t dst = true ∨
    pathExists t dst = true ∧ ∃ target, t.node dst = some (.file (.link target))
  plain : ∀ q target, t.node (src ++ q) ≠ some (.file (.link target))

/-- What the steps of a promotion by copying give. -/
lemma promote_copies_iff {w : Disk (Leaf B)} : promoteToCanonical false t src dst = some w ↔
    ∃ t₁ t₂ t₃, createDirAll t dst.dropLast = some t₁ ∧
      removeExisting t₁ dst = some t₂ ∧
      copyTree t₂ src dst = some t₃ ∧ removeDirAll t₃ src = some w := by
  unfold promoteToCanonical
  constructor
  · intro h
    obtain ⟨t₁, h₁, h⟩ := Option.bind_eq_some_iff.mp h
    rw [if_neg Bool.false_ne_true] at h
    obtain ⟨t₂, h₂, h⟩ := Option.bind_eq_some_iff.mp h
    obtain ⟨t₃, h₃, h⟩ := Option.bind_eq_some_iff.mp h
    exact ⟨t₁, t₂, t₃, h₁, h₂, h₃, h⟩
  · rintro ⟨t₁, t₂, t₃, h₁, h₂, h₃, h⟩
    apply Option.bind_eq_some_iff.mpr
    refine ⟨t₁, h₁, ?_⟩
    rw [if_neg Bool.false_ne_true]
    apply Option.bind_eq_some_iff.mpr
    refine ⟨t₂, h₂, ?_⟩
    apply Option.bind_eq_some_iff.mpr
    exact ⟨t₃, h₃, h⟩

/-- Once what exists is removed, nothing is left in the place. -/
lemma removeExisting_node (h : removeExisting t dst = some u)
    (hplace : t.node dst = none ∨ pathExists t dst = true) (q : Path) :
    u.node q = if dst <+: q then none else t.node q := by
  unfold removeExisting at h
  split at h
  · exact removeTree_node h q
  next hexists =>
  obtain rfl := Option.some.inj h
  have hnone := hplace.resolve_right hexists
  by_cases hpre : dst <+: q
  · rw [if_pos hpre, node_below_none hpre hnone]
  · rw [if_neg hpre]

lemma pathExists_of_isDir (h : isDir t p = true) : pathExists t p = true := by
  rw [pathExists, resolve, isDir_iff.mp h]
  rfl

/-- A dangling link stays in the way of the new directory. -/
lemma place_of_created (h₂ : removeExisting t dst = some u) (h₃ : createDirAll u dst = some v) :
    t.node dst = none ∨ pathExists t dst = true := by
  by_cases hexists : pathExists t dst = true
  · exact Or.inr hexists
  · left
    unfold removeExisting at h₂
    rw [if_neg hexists] at h₂
    obtain rfl := Option.some.inj h₂
    by_contra hthere
    have hkept := createDirAll_keeps h₃ hthere
    rw [isDir_iff.mp (createDirAll_isDir h₃)] at hkept
    exact hexists (pathExists_of_isDir (isDir_iff.mpr hkept.symm))

lemma parent_isDir (hne : p ≠ []) (h : t.node p ≠ none) : isDir t p.dropLast = true := by
  apply isDir_iff.mpr
  apply node_above (List.dropLast_prefix p) _ h
  intro heq
  exact dropLast_not_below hne (by rw [heq])

/-- What removing and creating the place leaves elsewhere. -/
lemma cleared_other {t₁ t₂ : Disk (Leaf B)} (h₁ : createDirAll t dst.dropLast = some t₁)
    (h₂ : removeExisting t₁ dst = some t₂) (h₃ : createDirAll t₂ dst = some v)
    (hdst : ¬ dst <+: q) (hq : ¬ q <+: dst) : v.node q = t.node q := by
  have hparent : ¬ q <+: dst.dropLast := fun hpre => hq (hpre.trans (List.dropLast_prefix dst))
  rw [createDirAll_other h₃ hq, removeExisting_node h₂ (place_of_created h₂ h₃), if_neg hdst,
    createDirAll_other h₁ hparent]

lemma copied_other (h : promoteToCanonical false t src dst = some w) (hsrc : ¬ src <+: q)
    (hdst : ¬ dst <+: q) (hq : ¬ q <+: dst) : w.node q = t.node q := by
  obtain ⟨t₁, t₂, t₃, h₁, h₂, hcopy, hremove⟩ := promote_copies_iff.mp h
  obtain ⟨v, h₃, _, hgraft, rfl⟩ := copyTree_eq_some.mp hcopy
  rw [removeDirAll_node hremove, if_neg hsrc, graft_other hgraft hdst,
    cleared_other h₁ h₂ h₃ hdst hq]

lemma not_prefix_of_apart (hsrc : ¬ src <+: dst) (hdst : ¬ dst <+: src) (q : Path) :
    ¬ src <+: dst ++ q := by
  intro hpre
  rcases List.prefix_or_prefix_of_prefix hpre (List.prefix_append dst q) with h | h
  · exact hsrc h
  · exact hdst h

lemma source_kept {t₁ t₂ : Disk (Leaf B)} (h₁ : createDirAll t dst.dropLast = some t₁)
    (h₂ : removeExisting t₁ dst = some t₂) (h₃ : createDirAll t₂ dst = some v)
    (hsrc : ¬ src <+: dst) (hdst : ¬ dst <+: src) (q : Path) :
    v.node (src ++ q) = t.node (src ++ q) :=
  cleared_other h₁ h₂ h₃ (not_prefix_of_apart hdst hsrc q)
    fun hpre => hsrc ((List.prefix_append src q).trans hpre)

lemma copied_below {t₁ t₂ : Disk (Leaf B)} (h₁ : createDirAll t dst.dropLast = some t₁)
    (h₂ : removeExisting t₁ dst = some t₂) (h₃ : createDirAll t₂ dst = some v)
    (hgraft : dst ≠ [] ∧ isDir v dst.dropLast = true)
    (hremove : removeDirAll (graft v src dst (followed v) hgraft) src = some w)
    (hsrc : ¬ src <+: dst) (hdst : ¬ dst <+: src) (q : Path) :
    w.node (dst ++ q) = (t.node (src ++ q)).map (mapNode (followed v (src ++ q))) := by
  rw [removeDirAll_node hremove, if_neg (not_prefix_of_apart hsrc hdst q), graft_below hgraft,
    source_kept h₁ h₂ h₃ hsrc hdst]

lemma followed_bytes {b c : B} (h : t.node p = some (.file (.bytes b))) :
    followed t p (.bytes c) = .bytes b := by
  rw [followed, resolve, h]

lemma followed_link {b : B} {target : String} (h : resolve t 40 p = some (.file b)) :
    (some (Node.file (Leaf.link target))).map (mapNode (followed t p)) =
      some (Node.file (Leaf.bytes b)) := by
  change some (Node.file (followed t p (.link target))) = _
  rw [followed, h]

/-- The copy is the same tree exactly if the tree has no links. -/
lemma copied_same_iff (hsrc : ∀ q, v.node (src ++ q) = t.node (src ++ q))
    (hcopy : Copyable v src) :
    (∀ q, (t.node (src ++ q)).map (mapNode (followed v (src ++ q))) = t.node (src ++ q)) ↔
      ∀ q target, t.node (src ++ q) ≠ some (.file (.link target)) := by
  constructor
  · intro h q target hlink
    have hv : v.node (src ++ q) = some (.file (.link target)) := (hsrc q).trans hlink
    have hsupport : src ++ q ∈ v.support := v.mem_support (by rw [hv]; nofun)
    obtain ⟨b, hb⟩ := hcopy.2 _ hsupport (List.prefix_append src q)
      (by rw [fileAt_eq_some.mpr hv]; rfl)
    have hsame := h q
    rw [hlink, followed_link hb] at hsame
    cases hsame
  · intro h q
    cases hnode : t.node (src ++ q) with
    | none => rfl
    | some node =>
      cases node with
      | dir => rfl
      | file leaf =>
        cases leaf with
        | link target => exact absurd hnode (h q target)
        | bytes b =>
          change some (Node.file (followed v (src ++ q) (.bytes b))) = some (Node.file (.bytes b))
          rw [followed_bytes ((hsrc q).trans hnode)]

lemma removeExisting_succeeds (hne : dst ≠ []) (h : t.node dst = none ∨ isDir t dst = true ∨
    pathExists t dst = true ∧ ∃ target, t.node dst = some (.file (.link target))) :
    (∃ u, removeExisting t dst = some u) ∧ (t.node dst = none ∨ pathExists t dst = true) := by
  unfold removeExisting
  rcases h with hnone | hdir | ⟨hexists, hlink⟩
  · have hexists : pathExists t dst = false := by
      rw [pathExists, resolve, hnone]
      rfl
    rw [hexists, if_neg Bool.false_ne_true]
    exact ⟨⟨t, rfl⟩, Or.inl hnone⟩
  · rw [pathExists_of_isDir hdir, if_pos rfl]
    exact ⟨(removeTree_succeeds_iff hne).mpr (Or.inl hdir), Or.inr rfl⟩
  · rw [hexists, if_pos rfl]
    exact ⟨(removeTree_succeeds_iff hne).mpr (Or.inr hlink), Or.inr rfl⟩

/-- What is in the place is there before and after its parent is made sure of. -/
lemma replaceable_congr (hne : dst ≠ []) (h₁ : createDirAll t dst.dropLast = some u) :
    (u.node dst = none ∨ isDir u dst = true ∨
      pathExists u dst = true ∧ ∃ target, u.node dst = some (.file (.link target))) ↔
    (t.node dst = none ∨ isDir t dst = true ∨
      pathExists t dst = true ∧ ∃ target, t.node dst = some (.file (.link target))) := by
  have hself : u.node dst = t.node dst := createDirAll_other h₁ (dropLast_not_below hne)
  rw [hself, isDir_congr hself]
  by_cases hnone : t.node dst = none
  · exact ⟨fun _ => Or.inl hnone, fun _ => Or.inl hnone⟩
  · have hsame := createDirAll_same h₁ (parent_isDir hne hnone)
    rw [pathExists, pathExists, resolve_congr hsame]

lemma not_blocked_of_removed (hne : dst ≠ []) (hparent : isDir t dst.dropLast = true)
    (hnode : ∀ q, u.node q = if dst <+: q then none else t.node q) : ¬ blocked u dst := by
  rintro ⟨q, hq, hfile⟩
  have hpre := (List.mem_inits q dst).mp hq
  obtain ⟨leaf, hleaf⟩ := Option.isSome_iff_exists.mp hfile
  have hthere := fileAt_eq_some.mp hleaf
  rw [hnode] at hthere
  split at hthere
  · cases hthere
  next hnot =>
  have hpre' : q <+: dst.dropLast := by
    have hconcat := List.dropLast_concat_getLast hne
    rw [← hconcat] at hpre
    rcases List.prefix_concat_iff.mp hpre with heq | hle
    · rw [hconcat] at heq
      exact absurd (by rw [heq]) hnot
    · exact hle
  have hfile' : fileAt t q = some leaf := fileAt_eq_some.mpr hthere
  have heq := eq_of_isPrefix_of_file hpre' hfile' (by rw [isDir_iff.mp hparent]; nofun)
  rw [heq, isDir_iff.mp hparent] at hthere
  cases hthere

lemma copyable_of_plain (hdir : isDir v src = true)
    (hkept : ∀ q, v.node (src ++ q) = t.node (src ++ q))
    (hplain : ∀ q target, t.node (src ++ q) ≠ some (.file (.link target))) : Copyable v src := by
  refine ⟨hdir, ?_⟩
  rintro _ _ ⟨q, rfl⟩ hfile
  obtain ⟨leaf, hleaf⟩ := Option.isSome_iff_exists.mp hfile
  have hthere := fileAt_eq_some.mp hleaf
  cases leaf with
  | bytes b => exact ⟨b, by rw [resolve, hthere]⟩
  | link target => exact absurd ((hkept q).symm.trans hthere) (hplain q target)

/-- On another device, the place holds the source's tree afterwards exactly if it can be cleared
and no link is copied. -/
lemma promote_copied_iff (hdir : isDir t src = true) (hsrc : ¬ src <+: dst) (hdst : ¬ dst <+: src)
    (hne : dst ≠ []) :
    (∃ w, promoteToCanonical false t src dst = some w ∧
      ∀ q, w.node (dst ++ q) = t.node (src ++ q)) ↔ Copies t src dst := by
  constructor
  · rintro ⟨w, h, hbelow⟩
    obtain ⟨t₁, t₂, t₃, h₁, h₂, hcopied, hremove⟩ := promote_copies_iff.mp h
    obtain ⟨v, h₃, hcopy, hgraft, rfl⟩ := copyTree_eq_some.mp hcopied
    constructor
    · exact (createDirAll_eq_some.mp h₁).1
    · apply (replaceable_congr hne h₁).mp
      rcases place_of_created h₂ h₃ with hnone | hexists
      · exact Or.inl hnone
      · right
        unfold removeExisting at h₂
        rw [if_pos hexists] at h₂
        exact ((removeTree_succeeds_iff hne).mp ⟨t₂, h₂⟩).imp_right fun hlink => ⟨hexists, hlink⟩
    · apply (copied_same_iff (source_kept h₁ h₂ h₃ hsrc hdst) hcopy).mp
      intro q
      rw [← copied_below h₁ h₂ h₃ hgraft hremove hsrc hdst, hbelow]
  · intro h
    obtain ⟨t₁, h₁⟩ : ∃ t₁, createDirAll t dst.dropLast = some t₁ :=
      ⟨_, createDirAll_eq_some.mpr ⟨h.reachable, rfl⟩⟩
    obtain ⟨⟨t₂, h₂⟩, hplace⟩ :=
      removeExisting_succeeds hne ((replaceable_congr hne h₁).mpr h.replaceable)
    have hnode := removeExisting_node h₂ hplace
    obtain ⟨v, h₃⟩ : ∃ v, createDirAll t₂ dst = some v :=
      ⟨_, createDirAll_eq_some.mpr
        ⟨not_blocked_of_removed hne (createDirAll_isDir h₁) hnode, rfl⟩⟩
    have hkept := source_kept h₁ h₂ h₃ hsrc hdst
    have hdir' : isDir v src = true := by
      have hnil := hkept []
      rw [List.append_nil] at hnil
      rwa [isDir_congr hnil]
    have hcopy := copyable_of_plain hdir' hkept h.plain
    have hgraft : dst ≠ [] ∧ isDir v dst.dropLast = true :=
      ⟨hne, parent_isDir hne (by rw [isDir_iff.mp (createDirAll_isDir h₃)]; nofun)⟩
    have hthere : isDir (graft v src dst (followed v) hgraft) src = true := by
      rwa [isDir_congr (graft_other hgraft hdst)]
    have hsrcne : src ≠ [] := fun hnil => hsrc (hnil ▸ List.nil_prefix)
    obtain ⟨w, hw⟩ := exists_removeDirAll hthere hsrcne
    refine ⟨w, promote_copies_iff.mpr ⟨t₁, t₂, _, h₁, h₂,
      copyTree_eq_some.mpr ⟨v, h₃, hcopy, hgraft, rfl⟩, hw⟩, fun q => ?_⟩
    rw [copied_below h₁ h₂ h₃ hgraft hw hsrc hdst]
    exact (copied_same_iff hkept hcopy).mpr h.plain q

/-- A source inside the place is removed before it is copied. -/
lemma promote_inside_fails (hlt : dst.length < src.length)
    (hdst : dst <+: src) : promoteToCanonical false t src dst = none := by
  apply Option.eq_none_iff_forall_ne_some.mpr
  intro w h
  obtain ⟨t₁, t₂, t₃, h₁, h₂, hcopied, _⟩ := promote_copies_iff.mp h
  obtain ⟨v, h₃, hcopy, _⟩ := copyTree_eq_some.mp hcopied
  have hne : src ≠ dst := fun heq => absurd (congrArg List.length heq) (by omega)
  have hnot : ¬ src <+: dst := fun hpre => absurd hpre.length_le (by omega)
  have hgone : v.node src = none := by
    rw [createDirAll_other h₃ hnot, removeExisting_node h₂ (place_of_created h₂ h₃), if_pos hdst]
  have hthere := isDir_iff.mp hcopy.1
  rw [hgone] at hthere
  cases hthere

end OtherDevice

section Runs

variable {B : Type} {runDir phase : Path} {t u v w w' : Disk (Leaf B)} {symlinks sameDevice : Bool}
  {pointer : ℕ → String → B} {failed : List (Attempt B runDir phase)}
  {last : Attempt B runDir phase}

/-- The canonical directory holds what the last attempt left, and each failed attempt is still
where it was when it failed. -/
structure Promoted (symlinks : Bool) (pointer : ℕ → String → B) (t w w' : Disk (Leaf B))
    (failed : List (Attempt B runDir phase)) (last : Attempt B runDir phase) : Prop where
  canonical : ∀ q, w'.node (phaseDir runDir phase ++ q) =
    w.node (attemptDir runDir phase last.number ++ q)
  archived : ∀ before a after v, failed = before ++ a :: after →
    (failAll symlinks pointer t before).bind (attempted a) = some v →
    ∀ q, w'.node (attemptDir runDir phase a.number ++ q) =
      v.node (attemptDir runDir phase a.number ++ q)

/-- On one device the first attempt has to succeed, in a vacant place. -/
def Promotable (sameDevice : Bool) (t w : Disk (Leaf B)) (failed : List (Attempt B runDir phase))
    (last : Attempt B runDir phase) : Prop :=
  (∃ s ∈ phase, s ≠ "attempts") ∧
    if sameDevice then
      failed = [] ∧ ¬ blocked t (phaseDir runDir phase).dropLast ∧ Vacant t (phaseDir runDir phase)
    else Copies w (attemptDir runDir phase last.number) (phaseDir runDir phase)

/-- The attempts that failed are all there when the last one is over. -/
lemma archived_before (hnumbers : ((failed ++ [last]).map Attempt.number).Nodup)
    (h : (failAll symlinks pointer t failed).bind (attempted last) = some w)
    {before after : List (Attempt B runDir phase)} {a : Attempt B runDir phase}
    (hfailed : failed = before ++ a :: after)
    (hv : (failAll symlinks pointer t before).bind (attempted a) = some v) (q : Path) :
    w.node (attemptDir runDir phase a.number ++ q) =
      v.node (attemptDir runDir phase a.number ++ q) := by
  obtain ⟨x, hx, hlast⟩ := Option.bind_eq_some_iff.mp h
  obtain ⟨y, hy, ha⟩ := Option.bind_eq_some_iff.mp hv
  rw [hfailed, failAll_append, hy] at hx
  have hrest : failAll symlinks pointer (update symlinks pointer v runDir phase a.number) after =
      some x := by
    change (failOnce symlinks pointer a y).bind (failAll symlinks pointer · after) = some x at hx
    rwa [failOnce, ha] at hx
  rw [hfailed, List.append_assoc, List.cons_append, List.map_append, List.map_cons] at hnumbers
  have hapart := (List.nodup_cons.mp (List.nodup_append.mp hnumbers).2.1).1
  have hne : ∀ b ∈ after ++ [last], a.number ≠ b.number := by
    intro b hb heq
    exact hapart (heq ▸ List.mem_map_of_mem hb)
  rw [attempted_attempt hlast (hne last (List.mem_append_right _ List.mem_cons_self)),
    failAll_attempt hrest fun b hb => hne b (List.mem_append_left _ hb), update_attempt]

lemma number_ne_last (hnumbers : ((failed ++ [last]).map Attempt.number).Nodup)
    {a : Attempt B runDir phase} (ha : a ∈ failed) : a.number ≠ last.number := by
  rw [List.map_append, List.nodup_append] at hnumbers
  exact hnumbers.2.2 _ (List.mem_map_of_mem ha) _ (List.mem_map_of_mem List.mem_cons_self)

/-- Elsewhere nothing happens to the failed attempts. -/
lemma archived_after (hphase : ¬ ∀ s ∈ phase, s = "attempts")
    (h : promoteToCanonical sameDevice w (attemptDir runDir phase last.number)
      (phaseDir runDir phase) = some w') {n : ℕ} (hne : n ≠ last.number) (q : Path) :
    w'.node (attemptDir runDir phase n ++ q) = w.node (attemptDir runDir phase n ++ q) := by
  have hsrc : ¬ attemptDir runDir phase last.number <+: attemptDir runDir phase n ++ q :=
    attemptDir_apart hne q
  have hdst : ¬ phaseDir runDir phase <+: attemptDir runDir phase n ++ q :=
    fun hpre => hphase (phaseDir_above_below_iff.mp hpre)
  have habove : ¬ attemptDir runDir phase n ++ q <+: phaseDir runDir phase :=
    below_not_above q (Nat.le_succ _)
  cases sameDevice with
  | true =>
    exact promote_other h hsrc hdst fun hpre => habove (hpre.trans (List.dropLast_prefix _))
  | false => exact copied_other h hsrc hdst habove

lemma phaseDir_ne_nil (hphase : ¬ ∀ s ∈ phase, s = "attempts") : phaseDir runDir phase ≠ [] := by
  intro hnil
  apply hphase
  rw [(List.append_eq_nil_iff.mp hnil).2]
  intro s hs
  cases hs

/-- A phase called like the attempts has them in its directory. -/
lemma promote_attempts_fails (hphase : ∀ s ∈ phase, s = "attempts")
    (h : attempted last v = some w) : promoteToCanonical sameDevice w
      (attemptDir runDir phase last.number) (phaseDir runDir phase) = none := by
  have hdir := attempted_isDir h
  have habove : phaseDir runDir phase <+: attemptDir runDir phase last.number :=
    phaseDir_above_iff.mpr hphase
  cases sameDevice with
  | false =>
    apply promote_inside_fails _ habove
    rw [length_attemptDir]
    omega
  | true =>
    apply Option.eq_none_iff_forall_ne_some.mpr
    intro w' hw'
    unfold promoteToCanonical at hw'
    obtain ⟨x, hx, hrename⟩ := Option.bind_eq_some_iff.mp hw'
    rw [if_pos rfl] at hrename
    have hkept := isDir_iff.mp (createDirAll_isDir_of hx hdir)
    have hnot := attemptDir_not_above (n := last.number)
      (Nat.le_succ (phaseDir runDir phase).length)
    by_cases hroot : phaseDir runDir phase = []
    · unfold renameDir at hrename
      split at hrename
      · obtain ⟨hmovable, _⟩ := rename_eq_some.mp hrename
        exact hmovable.ne_root hroot
      · cases hrename
    · have hvacant := ((renameDir_succeeds_iff (isDir_iff.mpr hkept) hnot hroot).mp
        ⟨w', hrename⟩).1
      apply hvacant.not_above _ _ habove
      · rw [hkept]
        nofun
      · intro heq
        exact hnot (heq ▸ List.prefix_refl _)

/-- When the promotion after failed attempts succeeds. -/
theorem promotion_succeeds_iff (sameDevice symlinks : Bool) (pointer : ℕ → String → B)
    (t w : Disk (Leaf B)) (failed : List (Attempt B runDir phase)) (last : Attempt B runDir phase)
    (hnumbers : ((failed ++ [last]).map Attempt.number).Nodup)
    (h : (failAll symlinks pointer t failed).bind (attempted last) = some w) :
    (∃ w', promoteToCanonical sameDevice w (attemptDir runDir phase last.number)
      (phaseDir runDir phase) = some w' ∧ Promoted symlinks pointer t w w' failed last) ↔
    Promotable sameDevice t w failed last := by
  obtain ⟨v, hfailed, hlast⟩ := Option.bind_eq_some_iff.mp h
  have hdir := attempted_isDir hlast
  have hsrc : ¬ attemptDir runDir phase last.number <+: phaseDir runDir phase :=
    attemptDir_not_above (Nat.le_succ _)
  by_cases hphase : ∀ s ∈ phase, s = "attempts"
  · rw [promote_attempts_fails hphase hlast]
    constructor
    · rintro ⟨w', hw', _⟩
      cases hw'
    · rintro ⟨⟨s, hs, hne⟩, _⟩
      exact absurd (hphase s hs) hne
  have hne : phaseDir runDir phase ≠ [] := phaseDir_ne_nil hphase
  have hdst : ¬ phaseDir runDir phase <+: attemptDir runDir phase last.number :=
    fun hpre => hphase (phaseDir_above_iff.mp hpre)
  have harchived : ∀ w', promoteToCanonical sameDevice w (attemptDir runDir phase last.number)
      (phaseDir runDir phase) = some w' → ∀ before a after u, failed = before ++ a :: after →
      (failAll symlinks pointer t before).bind (attempted a) = some u →
      ∀ q, w'.node (attemptDir runDir phase a.number ++ q) =
        u.node (attemptDir runDir phase a.number ++ q) := by
    intro w' hw' before a after u hsplit hu q
    have ha : a ∈ failed := hsplit ▸ List.mem_append_right _ List.mem_cons_self
    rw [archived_after hphase hw' (number_ne_last hnumbers ha),
      archived_before hnumbers h hsplit hu]
  have hnamed : ∃ s ∈ phase, s ≠ "attempts" := by
    simpa only [not_forall, exists_prop] using hphase
  unfold Promotable
  rw [and_iff_right hnamed]
  cases sameDevice with
  | false =>
    rw [if_neg Bool.false_ne_true, ← promote_copied_iff hdir hsrc hdst hne]
    constructor
    · exact fun ⟨w', hw', hpromoted⟩ => ⟨w', hw', hpromoted.canonical⟩
    · exact fun ⟨w', hw', hcanonical⟩ => ⟨w', hw', hcanonical, harchived w' hw'⟩
  | true =>
    rw [if_pos rfl]
    have hsucceeds := promote_succeeds_iff hdir hsrc hne
    constructor
    · rintro ⟨w', hw', _⟩
      obtain ⟨hfree, hvacant⟩ := hsucceeds.mp ⟨w', hw'⟩
      have hnone : failed = [] := by
        by_contra hsome
        exact ((obstructed_of_failed hsome hfailed).attempted hlast).not_vacant hfree hvacant
      subst hnone
      obtain rfl := Option.some.inj hfailed
      obtain ⟨hplace, hparent⟩ := place_of_attempted hlast hphase
      exact ⟨rfl, fun hblocked => hfree (hparent.mpr hblocked), hplace.mp hvacant⟩
    · rintro ⟨rfl, hfree, hvacant⟩
      obtain rfl := Option.some.inj hfailed
      obtain ⟨hplace, hparent⟩ := place_of_attempted hlast hphase
      obtain ⟨w', hw'⟩ := hsucceeds.mpr
        ⟨fun hblocked => hfree (hparent.mp hblocked), hplace.mpr hvacant⟩
      have hlonger : (attemptDir runDir phase last.number).length >
          (phaseDir runDir phase).length := by
        rw [length_attemptDir]
        omega
      exact ⟨w', hw', promote_below hw' hlonger, harchived w' hw'⟩

end Runs

section Samples

/-- An attempt that writes one file. -/
def writing (runDir phase : Path) (n : ℕ) (name text : String) :
    Attempt String runDir phase where
  number := n
  work t := (writeFile t (attemptDir runDir phase n ++ [name]) (.bytes text)).getD t
  inside t q hq := by
    apply getD_writeFile_node
    rintro rfl
    apply hq
    refine ⟨List.prefix_append _ _, fun heq => ?_⟩
    have hlen := congrArg List.length heq
    rw [List.length_append, List.length_singleton] at hlen
    omega

def emptyRun : Disk (Leaf String) := (createDirAll Disk.empty ["run"]).getD Disk.empty

def draft : Attempt String ["run"] ["design"] := writing ["run"] ["design"] 0 "design.md" "draft"

def final : Attempt String ["run"] ["design"] := writing ["run"] ["design"] 1 "design.md" "final"

def pointerText (attempt : ℕ) (path : String) : String := attempt.repr ++ " " ++ path

/-- What the given attempts leave, the last of them not failed. -/
def leftBy (failed : List (Attempt String ["run"] ["design"]))
    (last : Attempt String ["run"] ["design"]) : Disk (Leaf String) :=
  ((failAll true pointerText emptyRun failed).bind (attempted last)).getD Disk.empty

lemma leftBy_eq {failed : List (Attempt String ["run"] ["design"])}
    {last : Attempt String ["run"] ["design"]}
    (h : ((failAll true pointerText emptyRun failed).bind (attempted last)).isSome = true) :
    (failAll true pointerText emptyRun failed).bind (attempted last) =
      some (leftBy failed last) := by
  obtain ⟨w, hw⟩ := Option.isSome_iff_exists.mp h
  rw [leftBy, hw]
  rfl

/-- A first attempt that succeeds is promoted, and on another device one after a failed attempt. -/
theorem attempts_promoted :
    (∃ w', promoteToCanonical true (leftBy [] final) (attemptDir ["run"] ["design"] 1)
      (phaseDir ["run"] ["design"]) = some w' ∧
      Promoted true pointerText emptyRun (leftBy [] final) w' [] final) ∧
    ∃ w', promoteToCanonical false (leftBy [draft] final) (attemptDir ["run"] ["design"] 1)
      (phaseDir ["run"] ["design"]) = some w' ∧
      Promoted true pointerText emptyRun (leftBy [draft] final) w' [draft] final := by
  have hnamed : ∃ s ∈ ["design"], s ≠ "attempts" := ⟨"design", by decide, by decide⟩
  constructor
  · refine (promotion_succeeds_iff true true pointerText emptyRun (leftBy [] final) [] final
      (by decide) (leftBy_eq (by decide))).mpr ⟨hnamed, ?_⟩
    exact ⟨rfl, by decide, Or.inl (by decide)⟩
  · refine (promotion_succeeds_iff false true pointerText emptyRun (leftBy [draft] final) [draft] final
      (by decide) (leftBy_eq (by decide))).mpr ⟨hnamed, by decide, Or.inr (Or.inl (by decide)), ?_⟩
    have hplain : ∀ p ∈ (leftBy [draft] final).support, attemptDir ["run"] ["design"] 1 <+: p →
        fileAt (leftBy [draft] final) p = none ∨
          fileAt (leftBy [draft] final) p = some (.bytes "final") := by decide
    intro q target hlink
    have hnode : (leftBy [draft] final).node (attemptDir ["run"] ["design"] 1 ++ q) =
        some (.file (.link target)) := hlink
    have hfile := fileAt_eq_some.mpr hnode
    have hthere : (leftBy [draft] final).node (attemptDir ["run"] ["design"] 1 ++ q) ≠ none := by
      simp [hnode]
    rcases hplain _ (Disk.mem_support _ hthere) (List.prefix_append _ _) with hnone | hbytes
    · simp [hnone] at hfile
    · simp [hbytes] at hfile

/-- After a failed attempt the pointer is in the way of the next one. -/
theorem second_attempt_not_promoted :
    fileAt (leftBy [draft] final) ["run", "design", "latest"] =
        some (.link "../attempts/design/0/") ∧
      fileAt (leftBy [draft] final) ["run", "attempts", "design", "1", "design.md"] =
        some (.bytes "final") ∧
      promoteToCanonical true (leftBy [draft] final) (attemptDir ["run"] ["design"] 1)
        (phaseDir ["run"] ["design"]) = none ∧
      ¬ ∃ w', promoteToCanonical true (leftBy [draft] final) (attemptDir ["run"] ["design"] 1)
        (phaseDir ["run"] ["design"]) = some w' ∧
        Promoted true pointerText emptyRun (leftBy [draft] final) w' [draft] final := by
  have hnone : promoteToCanonical true (leftBy [draft] final) (attemptDir ["run"] ["design"] 1)
      (phaseDir ["run"] ["design"]) = none := Option.isNone_iff_eq_none.mp (by decide)
  refine ⟨by decide, by decide, hnone, ?_⟩
  rintro ⟨w', hw', _⟩
  rw [hnone] at hw'
  cases hw'

end Samples

end Loker.Promotion
