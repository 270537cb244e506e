import Loker.FileTree

/-! Paths as they are written, their lexical normal form, and what lies inside a directory
whatever the links in it. -/

namespace Loker.LexicalPaths

open FileTree

section Paths

/-- The components of a path, without empty ones and single dots. -/
structure RawPath where
  rooted : Bool
  parts : List String
  deriving DecidableEq, Repr

def absolute (s : String) : Bool := s.toList.head? = some '/'

def RawPath.ofString (s : String) : RawPath := ⟨absolute s, normalComponents s⟩

/-- An absolute path takes the place of the one it is joined to. -/
def RawPath.join (p : RawPath) (s : String) : RawPath :=
  if absolute s then .ofString s else ⟨p.rooted, p.parts ++ normalComponents s⟩

def RawPath.parent (p : RawPath) : Option RawPath :=
  if p.parts = [] then none else some ⟨p.rooted, p.parts.dropLast⟩

/-- How often a path climbs out of where it starts, and the names that follow. -/
structure Normal where
  ups : ℕ
  names : List String
  deriving DecidableEq, Repr

/-- Nothing lies above the root. -/
def Normal.step (rooted : Bool) (n : Normal) (part : String) : Normal :=
  if part = ".." then
    if n.names ≠ [] then { n with names := n.names.dropLast }
    else if rooted then n
    else { n with ups := n.ups + 1 }
  else { n with names := n.names ++ [part] }

def RawPath.normal (p : RawPath) : Normal := p.parts.foldl (Normal.step p.rooted) ⟨0, []⟩

/-- In the directory, at any depth, or the directory itself. -/
def RawPath.Inside (base p : RawPath) : Prop :=
  p.rooted = base.rooted ∧ p.normal.ups = base.normal.ups ∧ base.normal.names <+: p.normal.names

instance (base p : RawPath) : Decidable (base.Inside p) := by
  unfold RawPath.Inside
  infer_instance

/-- The directories on the way to a path that are not on the way to the base. -/
def RawPath.Beyond (base p q : RawPath) : Prop :=
  q.rooted = p.rooted ∧ q.parts <+: p.parts ∧ ¬ (q.rooted = base.rooted ∧ q.parts <+: base.parts)

/-- The names below the base that the parts lead to, when they never leave it. -/
def walk : List String → List String → Option (List String)
  | [], names => some names
  | part :: parts, names =>
      if part = ".." then
        if names = [] then none else walk parts names.dropLast
      else walk parts (names ++ [part])

/-- The path is relative and never climbs out of what it is relative to. -/
def Contained (s : String) : Prop :=
  absolute s = false ∧ (walk (normalComponents s) []).isSome = true

instance : DecidablePred Contained := fun s => by
  unfold Contained
  infer_instance

end Paths

section Walks

variable {base p q : RawPath} {parts rest names names' : List String} {rooted : Bool} {ups : ℕ}
  {s : String}

lemma walk_append : walk (parts ++ rest) names = (walk parts names).bind (walk rest) := by
  induction parts generalizing names with
  | nil => rfl
  | cons part parts ih =>
    rw [List.cons_append, walk, walk]
    split
    · split
      · rfl
      · exact ih
    · exact ih

/-- What leads somewhere does so all along the way. -/
lemma walk_front (hpre : rest <+: parts) (h : (walk parts names).isSome = true) :
    (walk rest names).isSome = true := by
  obtain ⟨tail, rfl⟩ := hpre
  rw [walk_append] at h
  cases hrest : walk rest names with
  | none =>
    rw [hrest] at h
    cases h
  | some _ => rfl

/-- Below a base the normal form follows the walk. -/
lemma foldl_walk {above : List String} (h : walk parts names = some names') :
    parts.foldl (Normal.step rooted) ⟨ups, above ++ names⟩ = ⟨ups, above ++ names'⟩ := by
  induction parts generalizing names with
  | nil => rw [List.foldl_nil, Option.some.inj h]
  | cons part parts ih =>
    rw [walk] at h
    rw [List.foldl_cons, Normal.step]
    by_cases hup : part = ".."
    · rw [if_pos hup] at h ⊢
      by_cases hnames : names = []
      · rw [if_pos hnames] at h
        cases h
      · rw [if_neg hnames] at h
        have hne : above ++ names ≠ [] := fun hnil => hnames (List.append_eq_nil_iff.mp hnil).2
        rw [if_pos hne]
        dsimp only
        rw [List.dropLast_append_of_ne_nil hnames]
        exact ih h
    · rw [if_neg hup] at h ⊢
      dsimp only
      rw [List.append_assoc]
      exact ih h

lemma inside_of_walk (h : (walk parts []).isSome = true) :
    base.Inside ⟨base.rooted, base.parts ++ parts⟩ := by
  obtain ⟨names, hnames⟩ := Option.isSome_iff_exists.mp h
  have hnormal : RawPath.normal ⟨base.rooted, base.parts ++ parts⟩ =
      ⟨base.normal.ups, base.normal.names ++ names⟩ := by
    have hfold : parts.foldl (Normal.step base.rooted)
        ⟨base.normal.ups, base.normal.names ++ []⟩ = _ := foldl_walk hnames
    rw [List.append_nil] at hfold
    rw [RawPath.normal, List.foldl_append]
    exact hfold
  rw [RawPath.Inside, hnormal]
  exact ⟨rfl, rfl, List.prefix_append _ _⟩

lemma RawPath.Inside.trans {inner : RawPath} (h : base.Inside inner) (h' : inner.Inside p) :
    base.Inside p :=
  ⟨h'.1.trans h.1, h'.2.1.trans h.2.1, h.2.2.trans h'.2.2⟩

lemma join_relative (h : absolute s = false) :
    base.join s = ⟨base.rooted, base.parts ++ normalComponents s⟩ := by
  rw [RawPath.join, if_neg (by rw [h]; decide)]

example : Contained "src/../lib.rs" ∧ ¬ Contained "src/../../lib.rs" := by decide

lemma Contained.inside (h : Contained s) : base.Inside (base.join s) := by
  rw [join_relative h.1]
  exact inside_of_walk h.2

/-- What lies beyond a base on the way to a path below it is below it too. -/
lemma beyond_below (h : base.Beyond ⟨base.rooted, base.parts ++ parts⟩ q) :
    ∃ front, front <+: parts ∧ q = ⟨base.rooted, base.parts ++ front⟩ := by
  obtain ⟨hrooted, ⟨tail, htail⟩, hnot⟩ := h
  rcases List.append_eq_append_iff.mp htail with ⟨front, hbase, _⟩ | ⟨front, hq, hparts⟩
  · exact absurd ⟨hrooted, ⟨front, hbase.symm⟩⟩ hnot
  · refine ⟨front, ⟨tail, hparts.symm⟩, ?_⟩
    rw [← hq, ← hrooted]

lemma beyond_inside (h : (walk parts []).isSome = true)
    (hq : base.Beyond ⟨base.rooted, base.parts ++ parts⟩ q) : base.Inside q := by
  obtain ⟨front, hfront, rfl⟩ := beyond_below hq
  exact inside_of_walk (walk_front hfront h)

end Walks

end Loker.LexicalPaths
