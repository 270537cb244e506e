import Loker.FileTree

/-! Whole directories: removing one, copying one, and renaming one onto an empty one. -/

namespace Loker.TreeMoves

open FileTree

variable {β : Type} {t u : Disk β} {p q src dst : Path}

section Remove

def dropTree (t : Disk β) (p : Path) (h : p ≠ []) : Disk β where
  node q := if p <+: q then none else t.node q
  support := t.support
  node_root := by
    rw [if_neg (fun hpre => h (List.prefix_nil.mp hpre)), t.node_root]
  mem_support {q} hq := by
    by_cases hpre : p <+: q
    · rw [if_pos hpre] at hq
      exact absurd rfl hq
    · rw [if_neg hpre] at hq
      exact t.mem_support hq
  node_parent {q s} hq := by
    by_cases hpre : p <+: q ++ [s]
    · rw [if_pos hpre] at hq
      exact absurd rfl hq
    · rw [if_neg hpre] at hq
      have hpre' : ¬ p <+: q := fun h' => hpre (h'.trans (List.prefix_append q [s]))
      rw [if_neg hpre']
      exact t.node_parent hq

/-- Removes a directory with everything in it. -/
def removeDirAll (t : Disk β) (p : Path) : Option (Disk β) :=
  if h : isDir t p = true ∧ p ≠ [] then some (dropTree t p h.2) else none

lemma removeDirAll_node (h : removeDirAll t p = some u) (q : Path) :
    u.node q = if p <+: q then none else t.node q := by
  unfold removeDirAll at h
  split at h
  · obtain rfl := Option.some.inj h
    rfl
  · cases h

lemma exists_removeDirAll (h : isDir t p = true) (hne : p ≠ []) :
    ∃ u, removeDirAll t p = some u := ⟨_, dif_pos ⟨h, hne⟩⟩

end Remove

section Copy

def mapNode (f : β → β) : Node β → Node β
  | .file b => .file (f b)
  | .dir => .dir

/-- Puts a copy of the tree at `src` in the place of what is at `dst`, each file changed by `f`. -/
def graft (t : Disk β) (src dst : Path) (f : Path → β → β)
    (h : dst ≠ [] ∧ isDir t dst.dropLast = true) : Disk β where
  node q :=
    if dst <+: q then (t.node (unmove src dst q)).map (mapNode (f (unmove src dst q)))
    else t.node q
  support := t.support.map (fun q => dst ++ q.drop src.length) ++ t.support
  node_root := by
    rw [if_neg (fun hpre => h.1 (List.prefix_nil.mp hpre)), t.node_root]
  mem_support {q} hq := by
    by_cases hdst : dst <+: q
    · simp only [hdst, if_true, ne_eq, Option.map_eq_none_iff] at hq
      have hmem := t.mem_support hq
      refine List.mem_append_left _ (List.mem_map.mpr ⟨_, hmem, ?_⟩)
      obtain ⟨r, rfl⟩ := hdst
      simp [unmove]
    · simp only [hdst, if_false] at hq
      exact List.mem_append_right _ (t.mem_support hq)
  node_parent {q s} hq := by
    by_cases hdst : dst <+: q
    · obtain ⟨r, rfl⟩ := hdst
      have hnode : t.node (src ++ r ++ [s]) ≠ none := by
        simpa [unmove, List.append_assoc] using hq
      have hparent := t.node_parent hnode
      simp [unmove, hparent, mapNode]
    · by_cases hstep : dst <+: q ++ [s]
      · have heq : dst = q ++ [s] := (List.prefix_concat_iff.mp hstep).resolve_right hdst
        have hparent := h.2
        rw [heq, List.dropLast_concat, isDir_iff] at hparent
        rw [if_neg hdst, hparent]
      · rw [if_neg hstep] at hq
        rw [if_neg hdst]
        exact t.node_parent hq

lemma graft_below {f : Path → β → β} (h : dst ≠ [] ∧ isDir t dst.dropLast = true) (q : Path) :
    (graft t src dst f h).node (dst ++ q) =
      (t.node (src ++ q)).map (mapNode (f (src ++ q))) := by
  have hunmove : unmove src dst (dst ++ q) = src ++ q := by
    rw [unmove, List.drop_left]
  simp only [graft, List.prefix_append, if_true, hunmove]

lemma graft_other {f : Path → β → β} (h : dst ≠ [] ∧ isDir t dst.dropLast = true)
    (hq : ¬ dst <+: q) : (graft t src dst f h).node q = t.node q := if_neg hq

end Copy

section Rename

/-- An empty directory gives way to one that is renamed onto it. -/
def clearEmpty (t : Disk β) (p : Path) : Disk β :=
  if readDir t p = [] then (removeDirAll t p).getD t else t

/-- Renames a directory; at the target there may be nothing but an empty directory. -/
def renameDir (t : Disk β) (src dst : Path) : Option (Disk β) :=
  if isDir t src then rename (clearEmpty t dst) src dst else none

/-- Nothing, or an empty directory. -/
def Vacant (t : Disk β) (p : Path) : Prop :=
  t.node p = none ∨ p ≠ [] ∧ isDir t p = true ∧ readDir t p = []

lemma clearEmpty_node (hq : ¬ p <+: q) : (clearEmpty t p).node q = t.node q := by
  unfold clearEmpty
  split
  · cases hremove : removeDirAll t p with
    | none => rfl
    | some u =>
      rw [Option.getD_some, removeDirAll_node hremove, if_neg hq]
  · rfl

lemma clearEmpty_self_iff : (clearEmpty t p).node p = none ↔ Vacant t p := by
  unfold clearEmpty
  by_cases hlist : readDir t p = []
  · rw [if_pos hlist]
    by_cases hdir : isDir t p = true ∧ p ≠ []
    · obtain ⟨u, hu⟩ := exists_removeDirAll hdir.1 hdir.2
      rw [hu, Option.getD_some, removeDirAll_node hu, if_pos (List.prefix_refl p)]
      exact ⟨fun _ => Or.inr ⟨hdir.2, hdir.1, hlist⟩, fun _ => rfl⟩
    · have hnone : removeDirAll t p = none := dif_neg hdir
      rw [hnone, Option.getD_none]
      constructor
      · exact Or.inl
      · intro h
        exact h.resolve_right fun hempty => hdir ⟨hempty.2.1, hempty.1⟩
  · rw [if_neg hlist]
    exact ⟨Or.inl, fun h => h.resolve_right fun hempty => hlist hempty.2.2⟩

/-- A vacant path is above no other. -/
lemma Vacant.not_above (h : Vacant t p) (hq : t.node q ≠ none) (hne : p ≠ q) : ¬ p <+: q := by
  intro hpre
  rcases h with hnone | ⟨_, _, hempty⟩
  · exact hq (node_below_none hpre hnone)
  · obtain ⟨r, rfl⟩ := hpre
    cases r with
    | nil => exact hne (List.append_nil p).symm
    | cons s r =>
      have hchild : t.node (p ++ [s]) ≠ none := by
        intro hnone
        apply hq
        have hbelow : p ++ [s] <+: p ++ s :: r := ⟨r, by rw [List.append_assoc]; rfl⟩
        exact node_below_none hbelow hnone
      have hmem := mem_readDir.mpr hchild
      rw [hempty] at hmem
      cases hmem

lemma dropLast_not_below {p : Path} (hne : p ≠ []) : ¬ p <+: p.dropLast := by
  intro hpre
  have hlen := hpre.length_le
  rw [List.length_dropLast] at hlen
  have hpos := List.length_pos_iff.mpr hne
  omega

/-- When a directory can be renamed. -/
lemma renameDir_succeeds_iff (hsrc : isDir t src = true) (hapart : ¬ src <+: dst)
    (hne : dst ≠ []) :
    (∃ u, renameDir t src dst = some u) ↔ Vacant t dst ∧ isDir t dst.dropLast = true := by
  have hsource : t.node src ≠ none := by
    rw [isDir_iff.mp hsrc]
    nofun
  have hself : dst ≠ src := fun h => hapart (h ▸ List.prefix_refl _)
  have hparent : isDir (clearEmpty t dst) dst.dropLast = isDir t dst.dropLast := by
    unfold isDir
    rw [clearEmpty_node (dropLast_not_below hne)]
  rw [renameDir, if_pos hsrc]
  constructor
  · rintro ⟨u, hu⟩
    obtain ⟨hmovable, _⟩ := rename_eq_some.mp hu
    have hfree : (clearEmpty t dst).node dst = none := by
      simpa [occupied] using hmovable.target_free
    exact ⟨clearEmpty_self_iff.mp hfree, hparent ▸ hmovable.parent⟩
  · rintro ⟨hvacant, hdir⟩
    have hmovable : Movable (clearEmpty t dst) src dst := by
      constructor
      · rw [occupied, clearEmpty_node (hvacant.not_above hsource hself)]
        exact Option.isSome_iff_ne_none.mpr hsource
      · rw [occupied, clearEmpty_self_iff.mpr hvacant]
        rfl
      · exact hparent.trans hdir
      · exact hapart
    exact ⟨_, rename_eq_some.mpr ⟨hmovable, rfl⟩⟩

/-- The tree is at the target as it was at the source. -/
lemma renameDir_below (h : renameDir t src dst = some u) (q : Path) :
    u.node (dst ++ q) = t.node (src ++ q) := by
  unfold renameDir at h
  split at h
  swap
  · cases h
  next hsrc =>
  obtain ⟨hmovable, rfl⟩ := rename_eq_some.mp h
  have hsource : t.node src ≠ none := by
    rw [isDir_iff.mp hsrc]
    nofun
  have hfree : (clearEmpty t dst).node dst = none := by
    simpa [occupied] using hmovable.target_free
  have hvacant := clearEmpty_self_iff.mp hfree
  have hunmove : unmove src dst (dst ++ q) = src ++ q := by
    rw [unmove, List.drop_left]
  have hmoved : (moveTree (clearEmpty t dst) src dst hmovable).node (dst ++ q) =
      (clearEmpty t dst).node (src ++ q) := by
    simp only [moveTree, List.prefix_append, if_true, hunmove]
  rw [hmoved]
  by_cases hq : t.node (src ++ q) = none
  · rw [hq]
    by_cases hpre : dst <+: src ++ q
    · exact node_below_none hpre hfree
    · rw [clearEmpty_node hpre, hq]
  · apply clearEmpty_node
    have hapart : dst ≠ src ++ q := by
      intro heq
      exact hmovable.not_inside (heq ▸ List.prefix_append src q)
    exact hvacant.not_above hq hapart

lemma renameDir_other (h : renameDir t src dst = some u) (hsrc : ¬ src <+: q)
    (hdst : ¬ dst <+: q) : u.node q = t.node q := by
  unfold renameDir at h
  split at h
  · rw [rename_node h hsrc hdst, clearEmpty_node hdst]
  · cases h

end Rename

end Loker.TreeMoves
