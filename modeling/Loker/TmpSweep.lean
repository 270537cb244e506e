import Loker.FileTree

/-! The sweep of stale temporary files at the start of a resume, and the temporary files an
interrupted `atomic_write` leaves. -/

namespace Loker.TmpSweep

open FileTree

variable {B : Type}

section Names

/-- `Path::extension` of a file name: what follows the last dot, unless that dot comes first. -/
def extension (name : String) : Option String :=
  if name = ".." then none
  else
    match name.toList.reverse.span (· ≠ '.') with
    | (after, _ :: _ :: _) => some (String.ofList after.reverse)
    | _ => none

def isAlphanumeric (c : Char) : Bool :=
  ('0' ≤ c && c ≤ '9') || ('a' ≤ c && c ≤ 'z') || ('A' ≤ c && c ≤ 'Z')

/-- The names `NamedTempFile::new_in` gives: `.tmp` and six random characters. -/
structure IsTempName (name : String) : Prop where
  startsTmp : ".tmp".toList <+: name.toList
  length : name.toList.length = 10
  random : ∀ c ∈ name.toList.drop 4, isAlphanumeric c = true

instance (name : String) : Decidable (IsTempName name) :=
  decidable_of_iff (".tmp".toList <+: name.toList ∧ name.toList.length = 10 ∧
      (name.toList.drop 4).all isAlphanumeric = true)
    ⟨fun ⟨h₁, h₂, h₃⟩ => ⟨h₁, h₂, List.all_eq_true.mp h₃⟩,
      fun ⟨h₁, h₂, h₃⟩ => ⟨h₁, h₂, List.all_eq_true.mpr h₃⟩⟩

/-- A temporary file's only dot comes first. -/
lemma IsTempName.extension {name : String} (h : IsTempName name) :
    TmpSweep.extension name = none := by
  obtain ⟨chars, hchars⟩ := h.startsTmp
  have hplain : ∀ c ∈ chars, c ≠ '.' := by
    intro c hc
    have hrandom := h.random c (by rw [← hchars]; simpa using hc)
    rintro rfl
    exact absurd hrandom (by decide)
  have hname : name ≠ ".." := by
    rintro rfl
    exact absurd h.length (by decide)
  have hreverse : name.toList.reverse = chars.reverse ++ ['p', 'm', 't', '.'] := by
    rw [← hchars]
    simp
  have hspan : (chars.reverse ++ ['p', 'm', 't', '.']).span (· ≠ '.') =
      (chars.reverse ++ ['p', 'm', 't'], ['.']) := by
    have hfree : ∀ c ∈ chars.reverse, (decide (c ≠ '.')) = true := by
      intro c hc
      simpa using hplain c (List.mem_reverse.mp hc)
    rw [List.span_eq_takeWhile_dropWhile, List.takeWhile_append_of_pos hfree,
      List.dropWhile_append_of_pos hfree]
    rfl
  rw [TmpSweep.extension, if_neg hname, hreverse, hspan]

end Names

section AtomicWrite

/-- What an `atomic_write` can leave when it stops: nothing new, the temporary file with some
bytes in it, or the renamed file. -/
inductive Interrupted (t : Disk B) (path : Path) (contents : B) : Disk B → Prop
  | before : Interrupted t path contents t
  | unfinished {name part u} (named : IsTempName name)
      (fresh : t.node (path.dropLast ++ [name]) = none)
      (written : writeFile t (path.dropLast ++ [name]) part = some u) :
      Interrupted t path contents u
  | renamed {u} (written : writeFile t path contents = some u) : Interrupted t path contents u

/-- A file with the name of a temporary file. -/
def Leftover (p : Path) : Prop := ∃ dir name, p = dir ++ [name] ∧ IsTempName name

/-- Besides its target, an interrupted write changes only a temporary file beside it. -/
lemma Interrupted.leaves {t u : Disk B} {path q : Path} {contents : B}
    (h : Interrupted t path contents u) (hq : q ≠ path) (hchanged : u.node q ≠ t.node q) :
    Leftover q ∧ q.dropLast = path.dropLast := by
  cases h with
  | before => exact absurd rfl hchanged
  | renamed written =>
      rw [writeFile_node written, if_neg hq] at hchanged
      exact absurd rfl hchanged
  | @unfinished name part _ named fresh written =>
      have heq : q = path.dropLast ++ [name] := by
        by_contra hne
        rw [writeFile_node written, if_neg hne] at hchanged
        exact hchanged rfl
      subst heq
      exact ⟨⟨_, name, rfl, named⟩, List.dropLast_concat⟩

end AtomicWrite

section Clock

/-- Nanoseconds from the epoch: the clock and what each file's last change is stamped with. -/
structure Times where
  now : ℤ
  modified : Path → ℤ

/-- `duration_since(UNIX_EPOCH)` in whole seconds. -/
def secondsSinceEpoch (x : ℤ) : Option ℕ :=
  if 0 ≤ x then some (x / 10 ^ 9).toNat else none

def cutoff (times : Times) (ttl : ℕ) : Option ℕ := (secondsSinceEpoch times.now).map (· - ttl)

/-- The test on a file's time stamp, against a cutoff in seconds. -/
def stampedBefore (times : Times) (cut : ℕ) (p : Path) : Bool :=
  match secondsSinceEpoch (times.modified p) with
  | some secs => secs < cut
  | none => false

/-- The file's last change is longer ago than the given seconds. -/
def OlderThan (times : Times) (ttl : ℕ) (p : Path) : Prop :=
  times.modified p + ttl * 10 ^ 9 < times.now

end Clock

section Sweep

/-- The length of the longest path. -/
def height (t : Disk B) : ℕ := (t.support.map List.length).foldr max 0

/-- The `*.tmp` files below a directory, as many levels down as there is fuel for. -/
def collectFrom (t : Disk B) : ℕ → Path → List Path
  | 0, _ => []
  | fuel + 1, dir => (readDir t dir).flatMap fun name =>
      if isDir t (dir ++ [name]) then
        if name = "attempts" then [] else collectFrom t fuel (dir ++ [name])
      else if extension name = some "tmp" then [dir ++ [name]] else []

/-- Nothing stands for an I/O error: the directory is a file. -/
def collectTmpFiles (t : Disk B) (dir : Path) : Option (List Path) :=
  if (fileAt t dir).isSome then none else some (collectFrom t (height t + 1) dir)

/-- `fs::rename` of a file, which replaces a file at the target. -/
def moveFile (t : Disk B) (src dst : Path) : Option (Disk B) :=
  match fileAt t src with
  | none => none
  | some b => if src = dst then some t else (removeFile t src).bind fun u => writeFile u dst b

def orphanDest (runDir orphanDir p : Path) : Path := orphanDir ++ p.drop runDir.length

/-- One stale file moved, with the directories above its new place. -/
def sweepOne (runDir orphanDir : Path) (t : Disk B) (p : Path) : Option Path × Disk B :=
  let dest := orphanDest runDir orphanDir p
  match createDirAll t dest.dropLast with
  | none => (none, t)
  | some u =>
      match moveFile u p dest with
      | none => (none, u)
      | some v => (some dest, v)

/-- The loop stops at the first failure. -/
def sweepEach (runDir orphanDir : Path) : List Path → Disk B → Option (List Path) × Disk B
  | [], t => (some [], t)
  | p :: ps, t =>
      match sweepOne runDir orphanDir t p with
      | (none, u) => (none, u)
      | (some dest, u) =>
          let rest := sweepEach runDir orphanDir ps u
          (rest.1.map (dest :: ·), rest.2)

def orphanDir (runDir : Path) (stamp : String) : Path :=
  runDir ++ ["attempts", "_orphan_tmp", stamp]

/-- The destinations of the swept files; nothing stands for an I/O error. -/
def sweepStaleTmp (times : Times) (ttl : ℕ) (stamp : String) (t : Disk B) (runDir : Path) :
    Option (List Path) × Disk B :=
  match cutoff times ttl with
  | none => (some [], t)
  | some cut =>
      match collectTmpFiles t runDir with
      | none => (none, t)
      | some tmpFiles =>
          let stale := tmpFiles.filter (stampedBefore times cut)
          if stale = [] then (some [], t)
          else
            match createDirAll t (orphanDir runDir stamp) with
            | none => (none, t)
            | some u => sweepEach runDir (orphanDir runDir stamp) stale u

end Sweep

section Collected

/-- The walk below a directory comes to the file and takes it for a temporary one. -/
def Taken (t : Disk B) (dir p : Path) : Prop :=
  (fileAt t p).isSome ∧ ∃ mid name, p = dir ++ mid ++ [name] ∧ "attempts" ∉ mid ∧
    extension name = some "tmp"

lemma length_le_height {t : Disk B} {p : Path} (h : t.node p ≠ none) :
    p.length ≤ height t := by
  have hmem := List.mem_map_of_mem (f := List.length) (t.mem_support h)
  have hle : ∀ {n : ℕ} {ns : List ℕ}, n ∈ ns → n ≤ ns.foldr max 0 := by
    intro n ns hn
    induction ns with
    | nil => cases hn
    | cons m ns ih =>
        rcases List.mem_cons.mp hn with rfl | hn
        · exact le_max_left _ _
        · exact (ih hn).trans (le_max_right _ _)
  exact hle hmem

lemma node_ne_none_of_file {t : Disk B} {p : Path} (h : (fileAt t p).isSome) :
    t.node p ≠ none := by
  obtain ⟨b, hb⟩ := Option.isSome_iff_exists.mp h
  simp [fileAt_eq_some.mp hb]

/-- Where the walk goes from one directory. -/
lemma mem_collectFrom_succ {t : Disk B} {fuel : ℕ} {dir p : Path} :
    p ∈ collectFrom t (fuel + 1) dir ↔ ∃ name, t.node (dir ++ [name]) ≠ none ∧
      if isDir t (dir ++ [name]) then
        name ≠ "attempts" ∧ p ∈ collectFrom t fuel (dir ++ [name])
      else extension name = some "tmp" ∧ p = dir ++ [name] := by
  simp only [collectFrom, List.mem_flatMap, mem_readDir]
  refine exists_congr fun name => and_congr_right fun _ => ?_
  split <;> split <;> simp_all

lemma taken_of_mem {t : Disk B} {fuel : ℕ} {dir p : Path} (h : p ∈ collectFrom t fuel dir) :
    Taken t dir p := by
  induction fuel generalizing dir with
  | zero => cases h
  | succ fuel ih =>
      obtain ⟨name, hnode, hstep⟩ := mem_collectFrom_succ.mp h
      split at hstep
      · obtain ⟨hname, hmem⟩ := hstep
        obtain ⟨hfile, mid, last, hp, hmid, hext⟩ := ih hmem
        refine ⟨hfile, name :: mid, last, ?_, ?_, hext⟩
        · rw [hp]
          simp
        · simp [hmid, hname.symm]
      · next hdir =>
        obtain ⟨hext, rfl⟩ := hstep
        have hfile : (fileAt t (dir ++ [name])).isSome := by
          cases hn : t.node (dir ++ [name]) with
          | none => exact absurd hn hnode
          | some node =>
              cases node with
              | dir => exact absurd (isDir_iff.mpr hn) hdir
              | file b => simp [fileAt, hn]
        exact ⟨hfile, [], name, by simp, by simp, hext⟩

lemma mem_of_taken {t : Disk B} {mid : Path} {name : String} {fuel : ℕ} {dir : Path}
    (hfuel : mid.length < fuel) (hfile : (fileAt t (dir ++ mid ++ [name])).isSome)
    (hmid : "attempts" ∉ mid) (hext : extension name = some "tmp") :
    dir ++ mid ++ [name] ∈ collectFrom t fuel dir := by
  induction mid generalizing dir fuel with
  | nil =>
      obtain ⟨fuel, rfl⟩ : ∃ k, fuel = k + 1 := ⟨fuel - 1, by simp at hfuel; omega⟩
      rw [List.append_nil] at hfile ⊢
      have hdir : ¬ isDir t (dir ++ [name]) = true := by
        obtain ⟨b, hb⟩ := Option.isSome_iff_exists.mp hfile
        simp [isDir, fileAt_eq_some.mp hb]
      refine mem_collectFrom_succ.mpr ⟨name, node_ne_none_of_file hfile, ?_⟩
      rw [if_neg hdir]
      exact ⟨hext, rfl⟩
  | cons s mid ih =>
      obtain ⟨fuel, rfl⟩ : ∃ k, fuel = k + 1 := ⟨fuel - 1, by simp at hfuel; omega⟩
      have hpath : dir ++ s :: mid ++ [name] = dir ++ [s] ++ mid ++ [name] := by simp
      rw [hpath] at hfile ⊢
      have hdir : t.node (dir ++ [s]) = some .dir := by
        refine node_of_append (q := mid ++ [name]) (by simp) ?_
        rw [← List.append_assoc]
        exact node_ne_none_of_file hfile
      have hne : s ≠ "attempts" := by
        rintro rfl
        simp at hmid
      refine mem_collectFrom_succ.mpr ⟨s, by simp [hdir], ?_⟩
      rw [if_pos (isDir_iff.mpr hdir)]
      refine ⟨hne, ih ?_ hfile ?_⟩
      · simp at hfuel
        omega
      · exact fun h => hmid (List.mem_cons_of_mem _ h)

/-- The walk takes every such file and no other. -/
theorem mem_collectTmpFiles {t : Disk B} {dir p : Path} {tmpFiles : List Path}
    (h : collectTmpFiles t dir = some tmpFiles) : p ∈ tmpFiles ↔ Taken t dir p := by
  unfold collectTmpFiles at h
  split at h
  · cases h
  · cases h
    constructor
    · exact taken_of_mem
    · rintro ⟨hfile, mid, name, rfl, hmid, hext⟩
      refine mem_of_taken ?_ hfile hmid hext
      have hle := length_le_height (node_ne_none_of_file hfile)
      simp only [List.length_append, List.length_singleton] at hle
      omega

lemma prefix_of_mem {t : Disk B} {fuel : ℕ} {dir p : Path} (h : p ∈ collectFrom t fuel dir) :
    dir <+: p := by
  obtain ⟨_, mid, name, rfl, _⟩ := taken_of_mem h
  rw [List.append_assoc]
  exact List.prefix_append _ _

lemma collectFrom_nodup {t : Disk B} {fuel : ℕ} {dir : Path} :
    (collectFrom t fuel dir).Nodup := by
  induction fuel generalizing dir with
  | zero => exact List.nodup_nil
  | succ fuel ih =>
      -- what a name contributes lies below that name
      have hbelow : ∀ name p, p ∈ (if isDir t (dir ++ [name]) then
          if name = "attempts" then [] else collectFrom t fuel (dir ++ [name])
          else if extension name = some "tmp" then [dir ++ [name]] else []) →
          dir ++ [name] <+: p := by
        intro name p hp
        split at hp
        · split at hp
          · cases hp
          · exact prefix_of_mem hp
        · split at hp
          · rw [List.mem_singleton.mp hp]
          · cases hp
      refine List.nodup_flatMap.mpr ⟨fun name _ => ?_, ?_⟩
      · split
        · split
          · exact List.nodup_nil
          · exact ih
        · split
          · exact List.nodup_singleton _
          · exact List.nodup_nil
      · have hnames : (readDir t dir).Nodup := (List.nodup_dedup _).filter _
        refine hnames.imp fun {s s'} hne => ?_
        intro p hs hs'
        have hpre := List.prefix_of_prefix_length_le (hbelow s p hs) (hbelow s' p hs') (by simp)
        have heq := hpre.eq_of_length (by simp)
        exact hne (by simpa using heq)

lemma collectTmpFiles_nodup {t : Disk B} {dir : Path} {tmpFiles : List Path}
    (h : collectTmpFiles t dir = some tmpFiles) : tmpFiles.Nodup := by
  unfold collectTmpFiles at h
  split at h
  · cases h
  · cases h
    exact collectFrom_nodup

end Collected

section Moves

variable {runDir orphanDir : Path}

lemma moveFile_fileAt {t u : Disk B} {src dst q : Path} (h : moveFile t src dst = some u)
    (hne : src ≠ dst) :
    fileAt u q = if q = dst then fileAt t src else if q = src then none else fileAt t q := by
  unfold moveFile at h
  split at h
  · cases h
  · next b hb =>
    rw [if_neg hne] at h
    obtain ⟨v, hremove, hwrite⟩ := Option.bind_eq_some_iff.mp h
    rw [writeFile_fileAt hwrite, removeFile_fileAt hremove, hb]
    simp only [Function.update_apply]

/-- One step that succeeds puts the file at its destination. -/
lemma sweepOne_ok {t u : Disk B} {p dest : Path}
    (h : sweepOne runDir orphanDir t p = (some dest, u)) (hp : ¬ orphanDir <+: p) (q : Path) :
    dest = orphanDest runDir orphanDir p ∧
      fileAt u q = if q = dest then fileAt t p else if q = p then none else fileAt t q := by
  unfold sweepOne at h
  cases hdirs : createDirAll t (orphanDest runDir orphanDir p).dropLast with
  | none => simp [hdirs] at h
  | some v =>
      cases hmove : moveFile v p (orphanDest runDir orphanDir p) with
      | none => simp [hdirs, hmove] at h
      | some w =>
          simp only [hdirs, hmove, Prod.mk.injEq, Option.some.injEq] at h
          obtain ⟨rfl, rfl⟩ := h
          have hne : p ≠ orphanDest runDir orphanDir p := by
            intro heq
            exact hp (heq ▸ List.prefix_append _ _)
          rw [moveFile_fileAt hmove hne, createDirAll_fileAt hdirs]
          exact ⟨rfl, rfl⟩

/-- A step that fails leaves every file where it is. -/
lemma sweepOne_failed {t u : Disk B} {p : Path}
    (h : sweepOne runDir orphanDir t p = (none, u)) : fileAt u = fileAt t := by
  unfold sweepOne at h
  cases hdirs : createDirAll t (orphanDest runDir orphanDir p).dropLast with
  | none =>
      simp only [hdirs, Prod.mk.injEq, true_and] at h
      rw [h]
  | some v =>
      cases hmove : moveFile v p (orphanDest runDir orphanDir p) with
      | none =>
          simp only [hdirs, hmove, Prod.mk.injEq, true_and] at h
          rw [← h, createDirAll_fileAt hdirs]
      | some w => simp [hdirs, hmove] at h

/-- Whether the loop succeeds or not, it touches only what it is given and the orphans. -/
lemma sweepEach_frame {ps : List Path} {t : Disk B} {q : Path}
    (hps : ∀ p ∈ ps, ¬ orphanDir <+: p) (hq : q ∉ ps) (horphan : ¬ orphanDir <+: q) :
    fileAt (sweepEach runDir orphanDir ps t).2 q = fileAt t q := by
  induction ps generalizing t with
  | nil => rfl
  | cons p ps ih =>
      obtain ⟨hqp, hqps⟩ := not_or.mp (mt List.mem_cons.mpr hq)
      rw [sweepEach]
      cases hstep : sweepOne runDir orphanDir t p with
      | mk moved u =>
          cases moved with
          | none => exact congrFun (sweepOne_failed hstep) q
          | some dest =>
              obtain ⟨hdest, hfile⟩ := sweepOne_ok hstep (hps p (by simp)) q
              have hqd : q ≠ dest := by
                rintro rfl
                exact horphan (hdest ▸ List.prefix_append _ _)
              rw [if_neg hqd, if_neg hqp] at hfile
              exact (ih (fun p hp => hps p (List.mem_cons_of_mem _ hp)) hqps).trans hfile

/-- What a loop that succeeds does to every path. -/
structure Moved (runDir orphanDir : Path) (ps swept : List Path) (t u : Disk B) : Prop where
  dests : swept = ps.map (orphanDest runDir orphanDir)
  gone : ∀ p ∈ ps, fileAt u p = none
  arrived : ∀ p ∈ ps, fileAt u (orphanDest runDir orphanDir p) = fileAt t p
  others : ∀ q, q ∉ ps → q ∉ swept → fileAt u q = fileAt t q

lemma Moved.of_fileAt {ps swept : List Path} {t t' u : Disk B}
    (h : Moved runDir orphanDir ps swept t' u) (heq : fileAt t' = fileAt t) :
    Moved runDir orphanDir ps swept t u := by
  obtain ⟨hdests, hgone, harrived, hothers⟩ := h
  rw [heq] at harrived hothers
  exact ⟨hdests, hgone, harrived, hothers⟩

lemma orphanDest_injOn {p q : Path} (hp : runDir <+: p) (hq : runDir <+: q)
    (h : orphanDest runDir orphanDir p = orphanDest runDir orphanDir q) : p = q := by
  obtain ⟨r, rfl⟩ := hp
  obtain ⟨s, rfl⟩ := hq
  simpa [orphanDest] using h

lemma sweepEach_moved {ps swept : List Path} {t u : Disk B}
    (hps : ∀ p ∈ ps, runDir <+: p ∧ ¬ orphanDir <+: p) (hnodup : ps.Nodup)
    (h : sweepEach runDir orphanDir ps t = (some swept, u)) :
    Moved runDir orphanDir ps swept t u := by
  induction ps generalizing t swept with
  | nil =>
      simp only [sweepEach, Prod.mk.injEq, Option.some.injEq] at h
      obtain ⟨rfl, rfl⟩ := h
      exact ⟨rfl, by simp, by simp, fun _ _ _ => rfl⟩
  | cons p ps ih =>
      obtain ⟨hp, hrest⟩ := List.forall_mem_cons.mp hps
      obtain ⟨hnew, hnodup⟩ := List.nodup_cons.mp hnodup
      rw [sweepEach] at h
      cases hstep : sweepOne runDir orphanDir t p with
      | mk moved v =>
          cases moved with
          | none => simp [hstep] at h
          | some dest =>
              have hone := sweepOne_ok hstep hp.2
              obtain rfl := (hone []).1
              simp only [hstep, Prod.mk.injEq, Option.map_eq_some_iff] at h
              obtain ⟨⟨later, hlater, rfl⟩, rfl⟩ := h
              have hmoved := ih hrest hnodup (Prod.ext hlater rfl)
              have hfirst : orphanDest runDir orphanDir p ∉ later := by
                rw [hmoved.dests, List.mem_map]
                rintro ⟨q, hq, heq⟩
                exact hnew (orphanDest_injOn (hrest q hq).1 hp.1 heq ▸ hq)
              have hunder : ∀ q, orphanDest runDir orphanDir q ∉ ps := fun q hq =>
                (hrest _ hq).2 (List.prefix_append _ _)
              have hout : ∀ q, ¬ orphanDir <+: q → ∀ r, q ≠ orphanDest runDir orphanDir r := by
                rintro q hq r rfl
                exact hq (List.prefix_append _ _)
              have hlate : ∀ q, ¬ orphanDir <+: q → q ∉ later := by
                intro q hq hmem
                rw [hmoved.dests, List.mem_map] at hmem
                obtain ⟨r, _, hr⟩ := hmem
                exact hout q hq r hr.symm
              refine ⟨by rw [hmoved.dests, List.map_cons], ?_, ?_, ?_⟩
              · intro q hq
                rcases List.mem_cons.mp hq with rfl | hq
                · rw [hmoved.others q hnew (hlate q hp.2), (hone q).2,
                    if_neg (hout q hp.2 q), if_pos rfl]
                · exact hmoved.gone q hq
              · intro q hq
                rcases List.mem_cons.mp hq with rfl | hq
                · rw [hmoved.others _ (hunder q) hfirst, (hone _).2, if_pos rfl]
                · have hqp : q ≠ p := fun heq => hnew (heq ▸ hq)
                  rw [hmoved.arrived q hq, (hone q).2, if_neg (hout q (hrest q hq).2 p),
                    if_neg hqp]
              · intro q hq hswept
                rw [List.mem_cons, not_or] at hq hswept
                rw [hmoved.others q hq.2 hswept.2, (hone q).2, if_neg hswept.1, if_neg hq.1]

end Moves

section Contract

variable {times : Times} {ttl : ℕ} {stamp : String} {t : Disk B} {runDir : Path}

/-- The sweep takes the file's time stamp for an old one. -/
def Stale (times : Times) (ttl : ℕ) (p : Path) : Prop :=
  ∃ cut, cutoff times ttl = some cut ∧ stampedBefore times cut p = true

/-- Left by an interrupted write outside the attempts tree, longer ago than the limit. -/
structure Due (times : Times) (ttl : ℕ) (t : Disk B) (runDir p : Path) : Prop where
  file : (fileAt t p).isSome
  inRun : runDir <+: p
  outside : ¬ runDir ++ ["attempts"] <+: p
  leftover : Leftover p
  old : OlderThan times ttl p

/-- The sweep moves away what is due and nothing else, each file to a place of its own. -/
def SweepsDue (times : Times) (ttl : ℕ) (stamp : String) (t : Disk B) (runDir : Path) : Prop :=
  ∃ swept u, sweepStaleTmp times ttl stamp t runDir = (some swept, u) ∧
    (∀ p, Due times ttl t runDir p →
      fileAt u p = none ∧ ∃ dest ∈ swept, fileAt u dest = fileAt t p) ∧
    (∀ p, (fileAt t p).isSome → ¬ Due times ttl t runDir p → fileAt u p = fileAt t p) ∧
    swept.Nodup

lemma Taken.inRun {p : Path} (h : Taken t runDir p) : runDir <+: p := by
  obtain ⟨_, mid, name, rfl, _⟩ := h
  rw [List.append_assoc]
  exact List.prefix_append _ _

lemma Taken.outside {p : Path} (h : Taken t runDir p) : ¬ runDir ++ ["attempts"] <+: p := by
  obtain ⟨_, mid, name, rfl, hmid, hext⟩ := h
  rw [List.append_assoc, List.prefix_append_right_inj]
  cases mid with
  | nil =>
      rintro ⟨r, hr⟩
      simp only [List.nil_append, List.cons_append, List.cons.injEq] at hr
      rw [← hr.1] at hext
      exact absurd hext (by decide)
  | cons s mid =>
      rintro ⟨r, hr⟩
      simp only [List.cons_append, List.cons.injEq, List.nil_append] at hr
      exact hmid (hr.1 ▸ List.mem_cons_self)

lemma not_orphan {p : Path} (h : ¬ runDir ++ ["attempts"] <+: p) :
    ¬ orphanDir runDir stamp <+: p := by
  intro horphan
  refine h (List.IsPrefix.trans ⟨["_orphan_tmp", stamp], ?_⟩ horphan)
  simp [orphanDir]

/-- A file the walk takes does not have the name of a temporary file. -/
lemma Taken.not_leftover {p : Path} (h : Taken t runDir p) : ¬ Leftover p := by
  rintro ⟨dir, name, rfl, hname⟩
  obtain ⟨_, mid, last, heq, _, hext⟩ := h
  have hlast := (List.append_inj' heq (by simp)).2
  rw [List.cons.injEq] at hlast
  rw [← hlast.1, hname.extension] at hext
  cases hext

/-- A sweep that succeeds moves exactly the stale files the walk takes. -/
theorem sweepStaleTmp_moved {swept : List Path} {u : Disk B}
    (h : sweepStaleTmp times ttl stamp t runDir = (some swept, u)) :
    ∃ stale : List Path, stale.Nodup ∧ (∀ p, p ∈ stale ↔ Taken t runDir p ∧ Stale times ttl p) ∧
      Moved runDir (orphanDir runDir stamp) stale swept t u := by
  unfold sweepStaleTmp at h
  cases hcut : cutoff times ttl with
  | none =>
      simp only [hcut, Prod.mk.injEq, Option.some.injEq] at h
      obtain ⟨rfl, rfl⟩ := h
      refine ⟨[], List.nodup_nil, fun p => ?_, rfl, by simp, by simp, fun _ _ _ => rfl⟩
      simp [Stale, hcut]
  | some cut =>
      cases hcollect : collectTmpFiles t runDir with
      | none => simp [hcut, hcollect] at h
      | some tmpFiles =>
          have hstale : ∀ p, p ∈ tmpFiles.filter (stampedBefore times cut) ↔
              Taken t runDir p ∧ Stale times ttl p := by
            intro p
            rw [List.mem_filter, mem_collectTmpFiles hcollect]
            simp [Stale, hcut]
          have hnodup := (collectTmpFiles_nodup hcollect).filter (stampedBefore times cut)
          refine ⟨_, hnodup, hstale, ?_⟩
          simp only [hcut, hcollect] at h
          split at h
          · next hempty =>
            simp only [Prod.mk.injEq, Option.some.injEq] at h
            obtain ⟨rfl, rfl⟩ := h
            rw [hempty]
            exact ⟨rfl, by simp, by simp, fun _ _ _ => rfl⟩
          · cases hdirs : createDirAll t (orphanDir runDir stamp) with
            | none => simp [hdirs] at h
            | some v =>
                simp only [hdirs] at h
                have hmoved := sweepEach_moved (fun p hp =>
                  ⟨((hstale p).mp hp).1.inRun, not_orphan ((hstale p).mp hp).1.outside⟩) hnodup h
                exact hmoved.of_fileAt (createDirAll_fileAt hdirs)

/-- Whatever comes of it, a file outside the attempts tree that the walk does not take stays. -/
lemma sweepStaleTmp_frame {p : Path} (hp : ¬ runDir ++ ["attempts"] <+: p)
    (htaken : ¬ Taken t runDir p) :
    fileAt (sweepStaleTmp times ttl stamp t runDir).2 p = fileAt t p := by
  unfold sweepStaleTmp
  cases cutoff times ttl with
  | none => rfl
  | some cut =>
      cases hcollect : collectTmpFiles t runDir with
      | none => rfl
      | some tmpFiles =>
          simp only
          split
          · rfl
          · cases hdirs : createDirAll t (orphanDir runDir stamp) with
            | none => rfl
            | some v =>
                have htakes : ∀ q ∈ tmpFiles.filter (stampedBefore times cut), Taken t runDir q :=
                  fun q hq => (mem_collectTmpFiles hcollect).mp (List.mem_of_mem_filter hq)
                rw [← createDirAll_fileAt hdirs]
                refine sweepEach_frame (fun q hq => ?_) (fun hmem => ?_) (not_orphan hp)
                · exact not_orphan (htakes q hq).outside
                · exact htaken (htakes p hmem)

lemma Due.stays {p : Path} (h : Due times ttl t runDir p) :
    fileAt (sweepStaleTmp times ttl stamp t runDir).2 p = fileAt t p :=
  sweepStaleTmp_frame h.outside fun htaken => htaken.not_leftover h.leftover

/-- With nothing stale to take the sweep ends at once. -/
lemma sweepStaleTmp_quiet (hdir : isDir t runDir = true)
    (h : ∀ p, Taken t runDir p → ¬ Stale times ttl p) :
    sweepStaleTmp times ttl stamp t runDir = (some [], t) := by
  unfold sweepStaleTmp
  cases hcut : cutoff times ttl with
  | none => rfl
  | some cut =>
      have hcollect : collectTmpFiles t runDir = some (collectFrom t (height t + 1) runDir) := by
        refine if_neg ?_
        rw [fileAt_eq_none.mpr (Or.inr (isDir_iff.mp hdir))]
        simp
      have hempty : (collectFrom t (height t + 1) runDir).filter (stampedBefore times cut) = [] := by
        rw [List.filter_eq_nil_iff]
        intro p hp hstamped
        exact h p ((mem_collectTmpFiles hcollect).mp hp) ⟨cut, hcut, hstamped⟩
      simp only [hcollect, hempty, if_pos]

/-- A sweep that is due does not happen. -/
lemma Due.not_sweepsDue {p : Path} (h : Due times ttl t runDir p) :
    ¬ SweepsDue times ttl stamp t runDir := by
  rintro ⟨swept, u, hsweep, hdue, _⟩
  have hstays : fileAt (sweepStaleTmp times ttl stamp t runDir).2 p = fileAt t p := h.stays
  rw [hsweep, (hdue p h).1] at hstays
  have hfile := h.file
  rw [← hstays] at hfile
  cases hfile

/-- The sweep does its work exactly where there is none to do: no interrupted write has left a
file, and no old file of a run has the extension the sweep looks for. -/
theorem sweepsDue_iff (hdir : isDir t runDir = true) :
    SweepsDue times ttl stamp t runDir ↔
      (∀ p, ¬ Due times ttl t runDir p) ∧ ∀ p, Taken t runDir p → ¬ Stale times ttl p := by
  constructor
  · rintro ⟨swept, u, hsweep, hdue, hother, hnodup⟩
    obtain ⟨stale, _, hstale, hmoved⟩ := sweepStaleTmp_moved hsweep
    refine ⟨fun p hp => hp.not_sweepsDue ⟨swept, u, hsweep, hdue, hother, hnodup⟩, ?_⟩
    intro p hp hold
    have hgone := hmoved.gone p ((hstale p).mpr ⟨hp, hold⟩)
    rw [hother p hp.1 fun h => hp.not_leftover h.leftover] at hgone
    have hfile := hp.1
    rw [hgone] at hfile
    cases hfile
  · rintro ⟨hdue, hquiet⟩
    exact ⟨[], t, sweepStaleTmp_quiet hdir hquiet, fun p hp => absurd hp (hdue p),
      fun _ _ _ => rfl, List.nodup_nil⟩

/-- A run directory with nothing in it. -/
def newRun : Disk String := addDirs Disk.empty ["run"]

/-- A thousand seconds after everything was written. -/
def later : Times := ⟨1000 * 10 ^ 9, fun _ => 0⟩

/-- A write of the manifest that goes on, and what an attempt left behind. -/
def busyRun : Disk String :=
  (createDirAll newRun ["run", "attempts", "design", "0"]).bind (fun t =>
    (writeFile t ["run", ".tmpAb12Cd"] "").bind
      (writeFile · ["run", "attempts", "design", "0", ".tmpZz99Zz"] "")) |>.getD newRun

/-- The write of the manifest has begun just now. -/
def lately : Times :=
  ⟨1000 * 10 ^ 9, fun p => if p = ["run", ".tmpAb12Cd"] then 999 * 10 ^ 9 else 0⟩

lemma busyRun_file {p : Path} (h : (fileAt busyRun p).isSome) :
    p = ["run", ".tmpAb12Cd"] ∨ p = ["run", "attempts", "design", "0", ".tmpZz99Zz"] := by
  have hfiles : ∀ p ∈ busyRun.support, (fileAt busyRun p).isSome →
      p = ["run", ".tmpAb12Cd"] ∨ p = ["run", "attempts", "design", "0", ".tmpZz99Zz"] := by decide
  obtain ⟨b, hb⟩ := Option.isSome_iff_exists.mp h
  refine hfiles p (busyRun.mem_support ?_) h
  simp [fileAt_eq_some.mp hb]

theorem sweepsDue_busyRun :
    (fileAt busyRun ["run", ".tmpAb12Cd"]).isSome ∧
      (fileAt busyRun ["run", "attempts", "design", "0", ".tmpZz99Zz"]).isSome ∧
      SweepsDue lately 300 "20260101-001640-000" busyRun ["run"] := by
  refine ⟨by decide, by decide,
    (sweepsDue_iff (by decide)).mpr ⟨fun p hdue => ?_, fun p htaken _ => ?_⟩⟩
  · rcases busyRun_file hdue.file with rfl | rfl
    · have hold := hdue.old
      simp [OlderThan, lately] at hold
    · exact hdue.outside (by decide)
  · obtain ⟨hfile, mid, name, heq, -, htmp⟩ := htaken
    rcases busyRun_file hfile with rfl | rfl
    · have hends : ["run"] ++ [".tmpAb12Cd"] = ["run"] ++ mid ++ [name] := heq
      rw [← List.singleton_inj.mp (List.append_inj' hends rfl).2] at htmp
      exact absurd htmp (by decide)
    · have hends : ["run", "attempts", "design", "0"] ++ [".tmpZz99Zz"] = ["run"] ++ mid ++ [name] :=
        heq
      rw [← List.singleton_inj.mp (List.append_inj' hends rfl).2] at htmp
      exact absurd htmp (by decide)

/-- The temporary file of an interrupted manifest write is never swept. -/
theorem interrupted_write_stays : ∃ u, Interrupted newRun ["run", "manifest.json"] "\x7b\x7d" u ∧
    ¬ SweepsDue later 300 "20260101-001640-000" u ["run"] := by
  have hwritable : Writable newRun ["run", ".tmpAb12Cd"] := by decide
  have hwritten : writeFile newRun ["run", ".tmpAb12Cd"] "" = some (setFile _ _ "" hwritable) :=
    dif_pos hwritable
  have hdue : Due later 300 (setFile _ _ "" hwritable) ["run"] ["run", ".tmpAb12Cd"] := by
    refine ⟨?_, by decide, by decide, ⟨["run"], ".tmpAb12Cd", rfl, by decide⟩,
      by simp [OlderThan, later]⟩
    rw [writeFile_self hwritten]
    rfl
  have hnamed : IsTempName ".tmpAb12Cd" := by decide
  exact ⟨_, .unfinished hnamed (by decide) hwritten, hdue.not_sweepsDue⟩

end Contract

end Loker.TmpSweep
