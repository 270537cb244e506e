import Loker.ByteLines

/-! File trees with symbolic links: how a path is followed through them, the place that it leads
to, and the paths that no link takes part in. -/

namespace Loker.LinkedTrees

open ByteLines

abbrev Name := Bytes

/-- The names from the root down. -/
abbrev RealPath := List Name

def slash : UInt8 := 47

def dot : Name := [46]

def dotDot : Name := [46, 46]

section Trees

/-- What an entry of a directory may be called. -/
def IsName (n : Name) : Prop := n ≠ [] ∧ n ≠ dot ∧ n ≠ dotDot ∧ slash ∉ n ∧ 0 ∉ n

instance : DecidablePred IsName := fun n => by
  unfold IsName
  infer_instance

inductive Entry where
  | file (contents : Bytes)
  | special
  | dir
  | link (target : Bytes)
  deriving DecidableEq, Repr

def Entry.isLink : Entry → Bool
  | .link _ => true
  | _ => false

structure Tree where
  entry : RealPath → Option Entry
  root : entry [] = some .dir
  parent : ∀ p n, (entry (p ++ [n])).isSome = true → entry p = some .dir
  named : ∀ p n, (entry (p ++ [n])).isSome = true → IsName n

/-- Every entry has a name and lies in a directory. -/
def checked (entries : List (RealPath × Entry)) : Bool :=
  entries.all fun e =>
    match e.1.getLast? with
    | none => false
    | some n => decide (IsName n) && (e.1.dropLast = [] || entries.lookup e.1.dropLast = some .dir)

def entryOf (entries : List (RealPath × Entry)) (p : RealPath) : Option Entry :=
  if p = [] then some .dir else entries.lookup p

lemma entryOf_checked {entries : List (RealPath × Entry)} (h : checked entries = true)
    (p : RealPath) (n : Name) (hsome : (entryOf entries (p ++ [n])).isSome = true) :
    entryOf entries p = some .dir ∧ IsName n := by
  obtain ⟨e, he⟩ := Option.isSome_iff_exists.mp hsome
  unfold entryOf at he
  rw [if_neg (List.append_ne_nil_of_right_ne_nil p (List.cons_ne_nil n []))] at he
  have hmem : (p ++ [n], e) ∈ entries := by
    clear hsome h
    induction entries with
    | nil => cases he
    | cons x xs ih =>
      obtain ⟨q, f⟩ := x
      rw [List.lookup_cons] at he
      by_cases hq : p ++ [n] = q
      · rw [beq_iff_eq.mpr hq] at he
        cases he
        rw [← hq]
        exact List.mem_cons_self
      · rw [beq_eq_false_iff_ne.mpr hq] at he
        exact List.mem_cons_of_mem _ (ih he)
  have hcheck := List.all_eq_true.mp h (p ++ [n], e) hmem
  rw [List.getLast?_concat, List.dropLast_concat, Bool.and_eq_true, decide_eq_true_eq,
    Bool.or_eq_true, decide_eq_true_eq, decide_eq_true_eq] at hcheck
  obtain ⟨hname, hparent⟩ := hcheck
  constructor
  · unfold entryOf
    by_cases hp : p = []
    · exact if_pos hp
    · rw [if_neg hp]
      rcases hparent with hnil | hdir
      · exact absurd hnil hp
      · exact hdir
  · exact hname

def Tree.ofEntries (entries : List (RealPath × Entry)) (h : checked entries = true) : Tree where
  entry := entryOf entries
  root := rfl
  parent p n hsome := (entryOf_checked h p n hsome).1
  named p n hsome := (entryOf_checked h p n hsome).2

variable {t : Tree} {p q : RealPath} {n : Name} {e : Entry}

/-- What lies above an entry is a directory. -/
lemma Tree.dir_above (h : t.entry (p ++ q) = some e) (hq : q ≠ []) : t.entry p = some .dir := by
  induction q using List.reverseRecOn generalizing e with
  | nil => exact absurd rfl hq
  | append_singleton q n ih =>
    rw [← List.append_assoc] at h
    have hdir := t.parent (p ++ q) n (by rw [h]; rfl)
    by_cases hnil : q = []
    · rwa [hnil, List.append_nil] at hdir
    · exact ih hdir hnil

lemma Tree.isName_of_mem (h : t.entry p = some e) (hn : n ∈ p) : IsName n := by
  obtain ⟨above, below, rfl⟩ := List.append_of_mem hn
  by_cases hbelow : below = []
  · rw [hbelow] at h
    exact t.named above n (by rw [h]; rfl)
  · rw [List.append_cons] at h
    have hdir := t.dir_above h hbelow
    exact t.named above n (by rw [hdir]; rfl)

end Trees

section Walks

inductive Errno where
  | notFound
  | notDirectory
  | tooManyLinks
  | other
  deriving DecidableEq, Repr

/-- A rooted target is followed from the root. -/
def targetStart (dir : RealPath) (target : Bytes) : RealPath :=
  if target.head? = some slash then [] else dir

/-- The components are taken one by one from a directory; `onLink` goes on with what a link and the
components after it make up. The last component's link is itself the result unless it is
followed. The links that may still be followed come with the result. -/
def walkWith (t : Tree) (follow : Bool) (links : ℕ)
    (onLink : RealPath → List Name → Except Errno (ℕ × RealPath)) :
    RealPath → List Name → Except Errno (ℕ × RealPath)
  | cur, [] => .ok (links, cur)
  | cur, part :: parts =>
      if t.entry cur ≠ some .dir then .error .notDirectory
      else if part = [] ∨ part = dot then walkWith t follow links onLink cur parts
      else if part = dotDot then walkWith t follow links onLink cur.dropLast parts
      else
        match t.entry (cur ++ [part]) with
        | none => .error .notFound
        | some (.link target) =>
            if parts = [] ∧ follow = false then .ok (links, cur ++ [part])
            else onLink (targetStart cur target) (target.splitOn slash ++ parts)
        | some _ => walkWith t follow links onLink (cur ++ [part]) parts

def walk (t : Tree) (follow : Bool) : ℕ → RealPath → List Name → Except Errno (ℕ × RealPath)
  | 0 => walkWith t follow 0 fun _ _ => .error .tooManyLinks
  | links + 1 => walkWith t follow (links + 1) (walk t follow links)

/-- What is left to do when a link is met. -/
def onLink (t : Tree) (follow : Bool) : ℕ → RealPath → List Name → Except Errno (ℕ × RealPath)
  | 0 => fun _ _ => .error .tooManyLinks
  | links + 1 => walk t follow links

lemma walk_eq (t : Tree) (follow : Bool) (links : ℕ) :
    walk t follow links = walkWith t follow links (onLink t follow links) := by
  cases links <;> rfl

variable {t : Tree} {follow : Bool} {links links' : ℕ} {cur path : RealPath} {part : Name}
  {parts rest : List Name} {e : Entry}

lemma walkWith_cons (next : RealPath → List Name → Except Errno (ℕ × RealPath)) :
    walkWith t follow links next cur (part :: parts) =
      if t.entry cur ≠ some .dir then .error .notDirectory
      else if part = [] ∨ part = dot then walkWith t follow links next cur parts
      else if part = dotDot then walkWith t follow links next cur.dropLast parts
      else
        match t.entry (cur ++ [part]) with
        | none => .error .notFound
        | some (.link target) =>
            if parts = [] ∧ follow = false then .ok (links, cur ++ [part])
            else next (targetStart cur target) (target.splitOn slash ++ parts)
        | some _ => walkWith t follow links next (cur ++ [part]) parts := rfl

lemma walk_nil : walk t follow links cur [] = .ok (links, cur) := by
  rw [walk_eq]
  rfl

lemma walk_cons (hdir : t.entry cur = some .dir) (hname : IsName part) :
    walk t follow links cur (part :: parts) =
      match t.entry (cur ++ [part]) with
      | none => .error .notFound
      | some (.link target) =>
          if parts = [] ∧ follow = false then .ok (links, cur ++ [part])
          else onLink t follow links (targetStart cur target) (target.splitOn slash ++ parts)
      | some _ => walk t follow links (cur ++ [part]) parts := by
  obtain ⟨hempty, hdot, hdots, -⟩ := hname
  rw [walk_eq, walkWith_cons, if_neg (not_not_intro hdir), if_neg (not_or.mpr ⟨hempty, hdot⟩),
    if_neg hdots]

lemma walk_not_dir (h : t.entry cur ≠ some .dir) :
    walk t follow links cur (part :: parts) = .error .notDirectory := by
  rw [walk_eq, walkWith_cons, if_pos h]

lemma walk_dot (hdir : t.entry cur = some .dir) :
    walk t follow links cur (dot :: parts) = walk t follow links cur parts := by
  rw [walk_eq, walkWith_cons, if_neg (not_not_intro hdir), if_pos (.inr rfl)]

lemma walk_entry (hdir : t.entry cur = some .dir) (hname : IsName part)
    (he : t.entry (cur ++ [part]) = some e) (hlink : e.isLink = false) :
    walk t follow links cur (part :: parts) = walk t follow links (cur ++ [part]) parts := by
  rw [walk_cons hdir hname, he]
  cases e with
  | link target => cases hlink
  | _ => rfl

/-- A path is followed piece by piece; only its last component may be a link that is not. -/
lemma walk_append (hrest : rest ≠ []) :
    walk t follow links cur (parts ++ rest) =
      (walk t true links cur parts).bind fun r => walk t follow r.1 r.2 rest := by
  induction links using Nat.strong_induction_on generalizing cur parts with
  | _ links ihlinks =>
    induction parts generalizing cur with
    | nil =>
      rw [walk_nil]
      rfl
    | cons part parts ih =>
      rw [List.cons_append, walk_eq t follow, walk_eq t true, walkWith_cons, walkWith_cons]
      rw [← walk_eq t follow, ← walk_eq t true]
      by_cases hdir : t.entry cur = some .dir
      · rw [if_neg (not_not_intro hdir), if_neg (not_not_intro hdir)]
        by_cases hstay : part = [] ∨ part = dot
        · rw [if_pos hstay, if_pos hstay]
          exact ih
        rw [if_neg hstay, if_neg hstay]
        by_cases hup : part = dotDot
        · rw [if_pos hup, if_pos hup]
          exact ih
        rw [if_neg hup, if_neg hup]
        cases he : t.entry (cur ++ [part]) with
        | none => rfl
        | some e =>
          cases e with
          | link target =>
            -- what follows the link is one path with its target, followed with fewer links
            have hmore : ¬ (parts ++ rest = [] ∧ follow = false) := fun h =>
              hrest (List.append_eq_nil_iff.mp h.1).2
            have hfollowed : ¬ (parts = [] ∧ true = false) := fun h => by cases h.2
            simp only [if_neg hmore, if_neg hfollowed]
            rw [← List.append_assoc]
            cases links with
            | zero => rfl
            | succ links => exact ihlinks links (Nat.lt_succ_self links)
          | _ => exact ih
      · rw [if_pos hdir, if_pos hdir]
        rfl

/-- The place that a followed path leads to is there, and it is no link. -/
def Real (t : Tree) (path : RealPath) : Prop := ∃ e, t.entry path = some e ∧ e.isLink = false

lemma Real.of_dir (h : t.entry path = some .dir) : Real t path := ⟨.dir, h, rfl⟩

lemma dir_dropLast (h : t.entry cur = some .dir) : t.entry cur.dropLast = some .dir := by
  rcases List.eq_nil_or_concat' cur with rfl | ⟨p, n, rfl⟩
  · exact t.root
  · rw [List.dropLast_concat]
    exact t.parent p n (by rw [h]; rfl)

lemma walk_real (hcur : Real t cur) (h : walk t true links cur parts = .ok (links', path)) :
    Real t path := by
  induction links using Nat.strong_induction_on generalizing cur parts with
  | _ links ihlinks =>
    induction parts generalizing cur with
    | nil =>
      rw [walk_nil] at h
      cases h
      exact hcur
    | cons part parts ih =>
      by_cases hdir : t.entry cur = some .dir
      · rw [walk_eq, walkWith_cons, if_neg (not_not_intro hdir), ← walk_eq] at h
        by_cases hstay : part = [] ∨ part = dot
        · rw [if_pos hstay] at h
          exact ih hcur h
        rw [if_neg hstay] at h
        by_cases hup : part = dotDot
        · rw [if_pos hup] at h
          exact ih (.of_dir (dir_dropLast hdir)) h
        rw [if_neg hup] at h
        cases he : t.entry (cur ++ [part]) with
        | none =>
          rw [he] at h
          cases h
        | some e =>
          rw [he] at h
          cases e with
          | link target =>
            have hfollowed : ¬ (parts = [] ∧ true = false) := fun h => by cases h.2
            simp only [if_neg hfollowed] at h
            cases links with
            | zero => cases h
            | succ links =>
              have hstart : Real t (targetStart cur target) := by
                unfold targetStart
                split
                · exact .of_dir t.root
                · exact hcur
              exact ihlinks links (Nat.lt_succ_self links) hstart h
          | file contents => exact ih ⟨_, he, rfl⟩ h
          | special => exact ih ⟨_, he, rfl⟩ h
          | dir => exact ih ⟨_, he, rfl⟩ h
      · rw [walk_not_dir hdir] at h
        cases h

/-- The names down to an entry lead to it. -/
lemma walk_plain (h : t.entry (cur ++ parts) = some e) (hlink : e.isLink = false) :
    walk t follow links cur parts = .ok (links, cur ++ parts) := by
  induction parts generalizing cur with
  | nil => rw [walk_nil, List.append_nil]
  | cons part parts ih =>
    have hname : IsName part := t.isName_of_mem h (by simp)
    have hdir := t.dir_above h (List.cons_ne_nil part parts)
    rw [List.append_cons] at h ⊢
    by_cases hnil : parts = []
    · rw [hnil, List.append_nil] at h
      rw [walk_entry hdir hname h hlink]
      exact ih (by rwa [hnil, List.append_nil])
    · rw [walk_entry hdir hname (t.dir_above h hnil) rfl]
      exact ih h

/-- A path of names on which no link is met leads where it says. -/
lemma walk_names (hnames : ∀ n ∈ parts, IsName n)
    (hlinks : ∀ first ≠ [], first <+: parts → ∀ r, walk t false links cur first = .ok r →
      ∀ e, t.entry r.2 = some e → e.isLink = false)
    (h : walk t true links cur parts = .ok (links', path)) :
    path = cur ++ parts ∧ links' = links := by
  induction parts generalizing cur with
  | nil =>
    rw [walk_nil] at h
    cases h
    exact ⟨(List.append_nil path).symm, rfl⟩
  | cons part parts ih =>
    have hname := hnames part List.mem_cons_self
    by_cases hdir : t.entry cur = some .dir
    · cases he : t.entry (cur ++ [part]) with
      | none =>
        rw [walk_cons hdir hname, he] at h
        cases h
      | some e =>
        have hlink : e.isLink = false := by
          cases e with
          | link target =>
            have hself : walk t false links cur [part] = .ok (links, cur ++ [part]) := by
              rw [walk_cons hdir hname, he]
              exact if_pos ⟨rfl, rfl⟩
            exact hlinks [part] (List.cons_ne_nil _ _) ⟨parts, rfl⟩ _ hself _ he
          | _ => rfl
        rw [walk_entry hdir hname he hlink] at h
        rw [List.append_cons]
        apply ih (fun n hn => hnames n (List.mem_cons_of_mem _ hn)) _ h
        intro first hfirst hprefix r hr
        apply hlinks (part :: first) (List.cons_ne_nil _ _)
          ((List.prefix_cons_inj part).mpr hprefix)
        rw [walk_entry hdir hname he hlink]
        exact hr
    · rw [walk_not_dir hdir] at h
      cases h

end Walks

section Hosts

structure FilePath where
  rooted : Bool
  parts : List Name
  deriving DecidableEq, Repr

def FilePath.ofBytes (text : Bytes) : FilePath :=
  ⟨text.head? = some slash, text.splitOn slash⟩

/-- A rooted path takes the place of the one it is joined to. -/
def FilePath.join (path : FilePath) (text : Bytes) : FilePath :=
  if text.head? = some slash then .ofBytes text
  else ⟨path.rooted, path.parts ++ text.splitOn slash⟩

/-- A tree as a process sees it. -/
structure Host where
  tree : Tree
  cwd : RealPath
  linkLimit : ℕ

variable (host : Host) (path : FilePath)

def Host.start : RealPath := if path.rooted then [] else host.cwd

def Host.lookAt (follow : Bool) : Except Errno Entry :=
  (walk host.tree follow host.linkLimit (host.start path) path.parts).bind fun r =>
    match host.tree.entry r.2 with
    | none => .error .notFound
    | some e => .ok e

/-- The last component's link is not followed. -/
def Host.symlinkMetadata : Except Errno Entry := host.lookAt path false

def Host.metadata : Except Errno Entry := host.lookAt path true

def Host.canonicalize : Except Errno RealPath :=
  (walk host.tree true host.linkLimit (host.start path) path.parts).map Prod.snd

def Host.read : Except Errno Bytes :=
  (host.metadata path).bind fun e =>
    match e with
    | .file contents => .ok contents
    | _ => .error .other

variable {host : Host} {path : FilePath}

lemma FilePath.join_of_not_mem {n : Bytes} (h : slash ∉ n) :
    path.join n = ⟨path.rooted, path.parts ++ [n]⟩ := by
  have hhead : n.head? ≠ some slash := fun heq => h (List.mem_of_mem_head? heq)
  rw [FilePath.join, if_neg hhead, List.splitOn_eq_singleton h]

end Hosts

end Loker.LinkedTrees
