import Loker.FileTree

/-! Symbolic links in a tree of files: the place that a path leads to when the links on its way are
followed, and what paths without links and paths of directories lead to. -/

namespace Loker.SymbolicLinks

open FileTree

/-- What a link says: a path from the root, or one from the directory that holds the link. -/
structure Target where
  rooted : Bool
  parts : List String
  deriving DecidableEq, Repr

/-- The links by their places. -/
abbrev Links := Path → Option Target

/-- The place that a path leads to, and whether the path asks for a directory there. -/
structure Route where
  place : Path
  asDir : Bool
  deriving DecidableEq, Repr

def Target.start (target : Target) (dir : Path) : Path := if target.rooted then [] else dir

section Walks

/-- The components are taken one by one from a place, and `..` leads to the place above; `onLink`
goes on with what a link and the components after it make up. The last component's link is itself
the result unless it is followed. -/
def walkWith (links : Links) (follow : Bool) (onLink : Path → List String → Option Route) :
    Bool → Path → List String → Option Route
  | asDir, cur, [] => some ⟨cur, asDir⟩
  | _, cur, s :: rest =>
      if s = "" ∨ s = "." then walkWith links follow onLink true cur rest
      else if s = ".." then walkWith links follow onLink true cur.dropLast rest
      else
        match links (cur ++ [s]) with
        | none => walkWith links follow onLink false (cur ++ [s]) rest
        | some target =>
            if rest = [] ∧ follow = false then some ⟨cur ++ [s], false⟩
            else onLink (target.start cur) (target.parts ++ rest)

/-- A walk that may still follow so many links. -/
def walk (links : Links) (follow : Bool) : ℕ → Bool → Path → List String → Option Route
  | 0 => walkWith links follow fun _ _ => none
  | left + 1 => walkWith links follow (walk links follow left true)

/-- As many links as the system follows. -/
def maxLinks : ℕ := 40

def route (links : Links) (follow : Bool) (path : String) : Option Route :=
  walk links follow maxLinks true [] (components path)

/-- The place of the file that a path names, with every link followed. -/
def filePlace (links : Links) (path : String) : Option Path :=
  match route links true path with
  | some ⟨place, false⟩ => some place
  | _ => none

end Walks

variable {links : Links} {follow asDir : Bool} {cur : Path} {parts : List String} {path : String}
  {p : Path} {r : Route}

lemma filePlace_eq_some :
    filePlace links path = some p ↔ route links true path = some ⟨p, false⟩ := by
  unfold filePlace
  split
  · next place hroute =>
    rw [hroute]
    simp
  · next hother =>
    constructor
    · intro h
      cases h
    · intro h
      exact absurd h (hother p)

/-- What the last component asks for. -/
def asksDirectory : List String → Bool → Bool
  | [], asDir => asDir
  | s :: rest, _ => asksDirectory rest (s = "" ∨ s = "." ∨ s = "..")

lemma asksDirectory_concat (s : String) (asDir : Bool) :
    asksDirectory (parts ++ [s]) asDir = decide (s = "" ∨ s = "." ∨ s = "..") := by
  induction parts generalizing asDir with
  | nil => rfl
  | cons q parts ih => exact ih _

/-- Without links a path leads where its components say. -/
lemma walkWith_noLinks (onLink : Path → List String → Option Route) :
    walkWith (fun _ => none) follow onLink asDir cur parts =
      some ⟨parts.foldl descend cur, asksDirectory parts asDir⟩ := by
  induction parts generalizing asDir cur with
  | nil => rfl
  | cons s parts ih =>
      rw [walkWith, List.foldl_cons, asksDirectory, descend]
      by_cases hstay : s = "" ∨ s = "."
      · rw [if_pos hstay, if_pos hstay, ih]
        have hasks : s = "" ∨ s = "." ∨ s = ".." := hstay.imp_right Or.inl
        rw [decide_eq_true hasks]
      · rw [if_neg hstay, if_neg hstay]
        by_cases hup : s = ".."
        · rw [if_pos hup, if_pos hup, ih, decide_eq_true (Or.inr (Or.inr hup))]
        · rw [if_neg hup, if_neg hup]
          have hasks : ¬ (s = "" ∨ s = "." ∨ s = "..") := by tauto
          rw [decide_eq_false hasks]
          exact ih

lemma walk_noLinks (left : ℕ) : walk (fun _ => none) follow left asDir cur parts =
    some ⟨parts.foldl descend cur, asksDirectory parts asDir⟩ := by
  cases left with
  | zero => exact walkWith_noLinks _
  | succ left => exact walkWith_noLinks _

lemma exists_last_component (path : String) : ∃ front last, components path = front ++ [last] :=
  (List.eq_nil_or_concat' (components path)).resolve_left (by simp [components])

lemma join_root (path : String) : join [] path = (components path).foldl descend [] := by
  rw [join, ite_self]

lemma eq_of_filePlace_noLinks (h : filePlace (fun _ => none) path = some p) : p = join [] path := by
  rw [filePlace_eq_some, route, walk_noLinks, Option.some.injEq, Route.mk.injEq] at h
  rw [join_root, h.1]

/-- Without links the place of a file is what the path says. -/
lemma filePlace_noLinks (hfile : namesDirectory path = false)
    (hup : ".." ∉ (components path).getLast?) :
    filePlace (fun _ => none) path = some (join [] path) := by
  have hasks : asksDirectory (components path) true = false := by
    obtain ⟨front, last, hlast⟩ := exists_last_component path
    rw [hlast] at hup ⊢
    rw [namesDirectory, hlast] at hfile
    rw [List.getLast?_concat] at hup hfile
    rw [asksDirectory_concat]
    simp only [Option.some.injEq, decide_eq_false_iff_not] at hfile
    have hne : last ≠ ".." := fun heq => hup (heq ▸ rfl)
    exact decide_eq_false (by tauto)
  rw [filePlace_eq_some, route, walk_noLinks, hasks, join_root]

lemma asDir_walkWith {onLink : Path → List String → Option Route}
    (honLink : ∀ cur parts, asksDirectory parts false = true → onLink cur parts = some r →
      r.asDir = true)
    (hasks : asksDirectory parts asDir = true)
    (hr : walkWith links follow onLink asDir cur parts = some r) : r.asDir = true := by
  induction parts generalizing asDir cur with
  | nil =>
      obtain rfl := Option.some.inj hr
      exact hasks
  | cons s parts ih =>
      rw [walkWith] at hr
      by_cases hstay : s = "" ∨ s = "."
      · rw [if_pos hstay] at hr
        have hall : s = "" ∨ s = "." ∨ s = ".." := hstay.imp_right Or.inl
        rw [asksDirectory, decide_eq_true hall] at hasks
        exact ih hasks hr
      · rw [if_neg hstay] at hr
        by_cases hup : s = ".."
        · rw [if_pos hup] at hr
          rw [asksDirectory, decide_eq_true (Or.inr (Or.inr hup))] at hasks
          exact ih hasks hr
        · rw [if_neg hup] at hr
          have hname : ¬ (s = "" ∨ s = "." ∨ s = "..") := by tauto
          rw [asksDirectory, decide_eq_false hname] at hasks
          split at hr
          · exact ih hasks hr
          · next target _ =>
            have hrest : parts ≠ [] := by
              rintro rfl
              cases hasks
            rw [if_neg fun h => hrest h.1] at hr
            refine honLink _ _ ?_ hr
            obtain ⟨front, last, rfl⟩ := (List.eq_nil_or_concat' parts).resolve_left hrest
            rw [← List.append_assoc, asksDirectory_concat]
            rwa [asksDirectory_concat] at hasks

/-- A path that asks for a directory is followed as one, whatever links it meets. -/
lemma asDir_walk {left : ℕ} (hasks : asksDirectory parts asDir = true)
    (hr : walk links follow left asDir cur parts = some r) : r.asDir = true := by
  induction left generalizing cur parts asDir with
  | zero => exact asDir_walkWith (fun _ _ _ h => by cases h) hasks hr
  | succ left ih =>
      refine asDir_walkWith (fun cur parts hmore h => ih ?_ h) hasks hr
      cases parts with
      | nil => cases hmore
      | cons s parts => exact hmore

lemma filePlace_directory (hdir : namesDirectory path = true) : filePlace links path = none := by
  have hasks : asksDirectory (components path) true = true := by
    obtain ⟨front, last, hlast⟩ := exists_last_component path
    rw [namesDirectory, hlast, List.getLast?_concat] at hdir
    rw [hlast, asksDirectory_concat]
    simp only [Option.some.injEq, decide_eq_true_eq] at hdir
    exact decide_eq_true (by tauto)
  by_contra hne
  obtain ⟨p, hp⟩ := Option.ne_none_iff_exists'.mp hne
  have hfalse := asDir_walk hasks (filePlace_eq_some.mp hp)
  cases hfalse

lemma link_walkWith {onLink : Path → List String → Option Route}
    (honLink : ∀ cur parts, onLink cur parts = some r → r.asDir = false → links r.place = none)
    (hcur : asDir = false → links cur = none)
    (hr : walkWith links true onLink asDir cur parts = some r) (hasDir : r.asDir = false) :
    links r.place = none := by
  induction parts generalizing asDir cur with
  | nil =>
      obtain rfl := Option.some.inj hr
      exact hcur hasDir
  | cons s parts ih =>
      rw [walkWith] at hr
      split at hr
      · exact ih (fun h => by cases h) hr
      · split at hr
        · exact ih (fun h => by cases h) hr
        · split at hr
          · next hnone => exact ih (fun _ => hnone) hr
          · rw [if_neg fun h => by cases h.2] at hr
            exact honLink _ _ hr hasDir

lemma link_walk {left : ℕ} (hr : walk links true left true cur parts = some r)
    (hasDir : r.asDir = false) : links r.place = none := by
  induction left generalizing cur parts with
  | zero => exact link_walkWith (fun _ _ h => by cases h) (fun h => by cases h) hr hasDir
  | succ left ih => exact link_walkWith (fun _ _ h _ => ih h) (fun h => by cases h) hr hasDir

/-- No link is at the place of a file. -/
lemma link_filePlace (hp : filePlace links path = some p) : links p = none :=
  link_walk (filePlace_eq_some.mp hp) rfl

lemma walkWith_onlyDots {onLink : Path → List String → Option Route} {dots : List String}
    (hdots : ∀ s ∈ dots, s = "" ∨ s = ".") :
    (walkWith links follow onLink asDir cur dots).map Route.place = some cur := by
  induction dots generalizing asDir with
  | nil => rfl
  | cons s dots ih =>
      rw [walkWith, if_pos (hdots s List.mem_cons_self)]
      exact ih fun s hs => hdots s (List.mem_cons_of_mem _ hs)

lemma walkWith_dots {onLink : Path → List String → Option Route} {dots : List String}
    (hdots : ∀ s ∈ dots, s = "" ∨ s = ".")
    (honLink : ∀ cur parts, (onLink cur (parts ++ dots)).map Route.place =
      (onLink cur parts).map Route.place) :
    (walkWith links true onLink asDir cur (parts ++ dots)).map Route.place =
      (walkWith links true onLink asDir cur parts).map Route.place := by
  induction parts generalizing asDir cur with
  | nil => exact walkWith_onlyDots hdots
  | cons s parts ih =>
      rw [List.cons_append, walkWith, walkWith]
      split
      · exact ih
      · split
        · exact ih
        · split
          · exact ih
          · rw [if_neg fun h => (by cases h.2), if_neg fun h => (by cases h.2), ← List.append_assoc]
            exact honLink _ _

/-- Dots at the end of a path change no place. -/
lemma walk_dots {left : ℕ} {dots : List String} (hdots : ∀ s ∈ dots, s = "" ∨ s = ".") :
    (walk links true left asDir cur (parts ++ dots)).map Route.place =
      (walk links true left asDir cur parts).map Route.place := by
  induction left generalizing asDir cur parts with
  | zero => exact walkWith_dots hdots fun _ _ => rfl
  | succ left ih => exact walkWith_dots hdots fun _ _ => ih

end Loker.SymbolicLinks
