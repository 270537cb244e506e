import Loker.RegisteredSummary

/-! Updates of the manifest on disk and in memory, when a step of the write fails. -/

namespace Loker.ManifestUpdates

open FileTree RunFiles RunLoad LoadSpec LoaderAgreement
open RegisteredSummary (replaceEntry replaceEntry_cons summaryEntry summarized registeredManifest
  designManifest)
open ResumeDecision (afterDesign)

variable {B : Type} [RunFormat B]

section Model

/-- The steps of `atomic_write`, in their order. -/
inductive WriteStep where
  | createTemp
  | writeAll
  | syncFile
  | persist
  | openParent
  | syncParent
  deriving DecidableEq, Repr

/-- The new file is in its place already. -/
def WriteStep.afterRename : WriteStep → Bool
  | .openParent | .syncParent => true
  | _ => false

/-- The temporary file is dropped when a step up to the renaming fails. -/
def atomicWrite (fault : Option WriteStep) (t : Disk B) (p : Path) (b : B) :
    Except Unit Unit × Disk B :=
  if fault.any fun step => !step.afterRename then (.error (), t)
  else
    match writeFile t p b with
    | none => (.error (), t)
    | some u => (if fault.isSome then .error () else .ok (), u)

/-- The outcome of an update, with the manifest in memory and the disk. -/
structure Updated (B : Type) where
  result : Except ManifestError Unit
  manifest : Manifest
  disk : Disk B

def append (fault : Option WriteStep) (t : Disk B) (runDir : Path) (manifest : Manifest)
    (entry : ManifestEntry) : Updated B :=
  let pushed := { manifest with entries := manifest.entries ++ [entry] }
  match atomicWrite fault t (manifestPath runDir) (RunFormat.ofManifest pushed) with
  | (.ok (), u) => ⟨.ok (), pushed, u⟩
  | (.error (), u) => ⟨.error .io, { pushed with entries := pushed.entries.dropLast }, u⟩

/-- Reading the files may fail too. -/
def reload (readable : Bool) (t : Disk B) (runDir : Path) : Except ManifestError Manifest :=
  if readable then manifestLoad t runDir else .error .io

def replaceByName (fault : Option WriteStep) (readable : Bool) (t : Disk B) (runDir : Path)
    (manifest : Manifest) (entry : ManifestEntry) : Updated B :=
  let replaced := { manifest with entries := replaceEntry manifest.entries entry }
  match atomicWrite fault t (manifestPath runDir) (RunFormat.ofManifest replaced) with
  | (.ok (), u) => ⟨.ok (), replaced, u⟩
  | (.error (), u) =>
      match reload readable u runDir with
      | .ok disk => ⟨.error .io, { replaced with entries := disk.entries }, u⟩
      | .error _ => ⟨.error .io, replaced, u⟩

end Model

open scoped Classical

section Spec

/-- An update either fails and leaves both manifests as they were, or succeeds, and both have
the entries as they are to become. -/
structure Atomic (t : Disk B) (runDir : Path) (manifest : Manifest)
    (becomes : List ManifestEntry → Prop) (after : Updated B) : Prop where
  failed : after.result ≠ .ok () →
    fileAt after.disk (manifestPath runDir) = fileAt t (manifestPath runDir) ∧
      after.manifest = manifest
  done : after.result = .ok () →
    becomes after.manifest.entries ∧
      after.manifest = { manifest with entries := after.manifest.entries } ∧
      manifestAt after.disk runDir = some after.manifest

/-- The entry stands in the place of the first one of its name, or at the end; every other
entry is where it was. -/
inductive Replaced (entry : ManifestEntry) : List ManifestEntry → List ManifestEntry → Prop where
  | appended : Replaced entry [] [entry]
  | here {old : ManifestEntry} {entries : List ManifestEntry} :
      old.name = entry.name → Replaced entry (old :: entries) (entry :: entries)
  | later {other : ManifestEntry} {entries entries' : List ManifestEntry} :
      other.name ≠ entry.name → Replaced entry entries entries' →
        Replaced entry (other :: entries) (other :: entries')

/-- The write comes as far as the renaming and fails then. -/
def FailsLate (fault : Option WriteStep) (t : Disk B) (runDir : Path) : Prop :=
  (∃ step, fault = some step ∧ step.afterRename = true) ∧ Writable t (manifestPath runDir)

/-- The write fails: one of its steps does, or the place of the file is not free. -/
def Fails (fault : Option WriteStep) (t : Disk B) (runDir : Path) : Prop :=
  fault ≠ none ∨ ¬ Writable t (manifestPath runDir)

/-- The file is read as a manifest with these entries, once those that no completed marker
mentions are left out; none of them has another version. -/
def ReadsAs (readable : Bool) (t : Disk B) (runDir : Path) (entries : List ManifestEntry) : Prop :=
  readable = true ∧ ∃ m, manifestAt t runDir = some m ∧ m.schemaVersion = 1 ∧
    (m.entries.filter fun e => ManifestKeeps t runDir e) = entries ∧
    ∀ e ∈ entries, e.schemaVersion = 1

/-- Reading the file back gives the entries in memory; or it cannot be read, and the entry was
in its place already. -/
def Restores (readable : Bool) (t : Disk B) (runDir : Path) (manifest : Manifest)
    (entry : ManifestEntry) : Prop :=
  ReadsAs readable t runDir manifest.entries ∨
    (∀ entries, ¬ ReadsAs readable t runDir entries) ∧
      manifest.entries.find? (fun e => e.name = entry.name) = some entry

end Spec

section Writes

variable {fault : Option WriteStep} {t u : Disk B} {runDir : Path} {b : B}

omit [RunFormat B] in
lemma atomicWrite_done (h : ¬ Fails fault t runDir) : ∃ u,
    atomicWrite fault t (manifestPath runDir) b = (.ok (), u) ∧
      writeFile t (manifestPath runDir) b = some u := by
  obtain ⟨hfault, hwritable⟩ := not_or.mp h
  have hnone : fault = none := not_not.mp hfault
  subst hnone
  refine ⟨setFile t _ b (not_not.mp hwritable), ?_, ?_⟩
  · simp [atomicWrite, writeFile, not_not.mp hwritable]
  · simp [writeFile, not_not.mp hwritable]

omit [RunFormat B] in
/-- A write that fails has put the new file in its place or changed nothing. -/
lemma atomicWrite_failed (h : Fails fault t runDir) : ∃ u,
    atomicWrite fault t (manifestPath runDir) b = (.error (), u) ∧
      (FailsLate fault t runDir → writeFile t (manifestPath runDir) b = some u) ∧
      (¬ FailsLate fault t runDir → u = t) := by
  by_cases hlate : FailsLate fault t runDir
  · obtain ⟨⟨step, rfl, hafter⟩, hwritable⟩ := hlate
    refine ⟨setFile t _ b hwritable, ?_, fun _ => ?_, fun h => ?_⟩
    · simp [atomicWrite, writeFile, hwritable, hafter]
    · simp [writeFile, hwritable]
    · exact absurd ⟨⟨step, rfl, hafter⟩, hwritable⟩ h
  · refine ⟨t, ?_, fun h => absurd h hlate, fun _ => rfl⟩
    unfold atomicWrite
    by_cases hearly : (fault.any fun step => !step.afterRename) = true
    · rw [if_pos hearly]
    · rw [if_neg hearly]
      have hblocked : ¬ Writable t (manifestPath runDir) := by
        intro hwritable
        cases fault with
        | none => exact h.elim (fun h => h rfl) fun h => h hwritable
        | some step => exact hlate ⟨⟨step, rfl, by simpa using hearly⟩, hwritable⟩
      simp [writeFile, hblocked]

lemma manifestAt_write {m : Manifest}
    (h : writeFile t (manifestPath runDir) (RunFormat.ofManifest m) = some u) :
    manifestAt u runDir = some m := by
  rw [manifestAt, writeFile_self h, Option.bind_some, RunFormat.readManifest_ofManifest]

omit [RunFormat B] in
/-- A file that is written again with its content leaves the disk as it was. -/
lemma node_of_same {p : Path} (h : writeFile t p b = some u) (hsame : fileAt t p = some b) :
    u.node = t.node := by
  funext q
  rw [writeFile_node h q]
  split
  · next heq => rw [heq, fileAt_eq_some.mp hsame]
  · rfl

lemma readsAs_congr {readable : Bool} (h : u.node = t.node) (entries : List ManifestEntry) :
    ReadsAs readable u runDir entries ↔ ReadsAs readable t runDir entries := by
  have hfile : ∀ p, fileAt u p = fileAt t p := fun p => fileAt_congr (by rw [h])
  have hdir : ∀ p, isDir u p = isDir t p := fun p => by rw [isDir, isDir, h]
  have hkeeps : ∀ e, ManifestKeeps u runDir e ↔ ManifestKeeps t runDir e := by
    intro e
    simp only [ManifestKeeps, Referenced, hfile, hdir]
  have hfilter : ∀ entries : List ManifestEntry,
      (entries.filter fun e => ManifestKeeps u runDir e) =
        entries.filter fun e => ManifestKeeps t runDir e :=
    fun entries => List.filter_congr fun e _ => decide_eq_decide.mpr (hkeeps e)
  rw [ReadsAs, ReadsAs, manifestAt, manifestAt, hfile]
  simp only [hfilter]

lemma readsAs_iff {readable : Bool} {entries : List ManifestEntry} :
    ReadsAs readable t runDir entries ↔
      ∃ m', reload readable t runDir = .ok m' ∧ m'.entries = entries := by
  unfold reload
  cases readable with
  | false =>
    constructor
    · intro h
      cases h.1
    · rintro ⟨_, h, _⟩
      cases h
  | true =>
    simp only [if_true, manifestLoad_ok_iff]
    constructor
    · rintro ⟨_, m, hm, hversion, rfl, hentries⟩
      refine ⟨_, ⟨m, hm, hversion, fun e he hkeeps => hentries e ?_, rfl⟩, rfl⟩
      exact List.mem_filter.mpr ⟨he, decide_eq_true hkeeps⟩
    · rintro ⟨_, ⟨m, hm, hversion, hentries, rfl⟩, rfl⟩
      refine ⟨rfl, m, hm, hversion, rfl, fun e he => ?_⟩
      obtain ⟨hmem, hkeeps⟩ := List.mem_filter.mp he
      exact hentries e hmem (of_decide_eq_true hkeeps)

end Writes

section Entries

variable {entry : ManifestEntry} {entries : List ManifestEntry}

lemma replaced_replaceEntry (entries : List ManifestEntry) (entry : ManifestEntry) :
    Replaced entry entries (replaceEntry entries entry) := by
  induction entries with
  | nil => exact .appended
  | cons e entries ih =>
    rw [replaceEntry_cons]
    split
    · next hname => exact .here hname
    · next hname => exact .later hname ih

/-- The entries stay as they are exactly if the entry was the first one of its name. -/
lemma replaceEntry_eq_self :
    replaceEntry entries entry = entries ↔
      entries.find? (fun e => e.name = entry.name) = some entry := by
  induction entries with
  | nil => simp [replaceEntry]
  | cons e entries ih =>
    rw [replaceEntry_cons, List.find?_cons]
    by_cases hname : e.name = entry.name
    · rw [if_pos hname, decide_eq_true hname, List.cons.injEq, Option.some.injEq]
      exact ⟨fun h => h.1.symm, fun h => ⟨h.symm, rfl⟩⟩
    · rw [if_neg hname, decide_eq_false hname, List.cons.injEq]
      exact ⟨fun h => ih.mp h.2, fun h => ⟨rfl, ih.mpr h⟩⟩

end Entries

section Updates

variable (fault : Option WriteStep) (t : Disk B) (runDir : Path) (manifest : Manifest)
  (entry : ManifestEntry)

lemma append_atomic_iff :
    Atomic t runDir manifest (· = manifest.entries ++ [entry])
      (append fault t runDir manifest entry) ↔
    (FailsLate fault t runDir → fileAt t (manifestPath runDir) =
      some (RunFormat.ofManifest { manifest with entries := manifest.entries ++ [entry] })) := by
  by_cases hfails : Fails fault t runDir
  · obtain ⟨u, hwrite, hnew, hold⟩ := atomicWrite_failed
      (b := RunFormat.ofManifest { manifest with entries := manifest.entries ++ [entry] }) hfails
    have hpopped : ({ manifest with entries := manifest.entries } : Manifest) = manifest := rfl
    have hrun : append fault t runDir manifest entry = ⟨.error .io, manifest, u⟩ := by
      simp only [append, hwrite, List.dropLast_concat]
    rw [hrun]
    constructor
    · intro h hlate
      rw [← (h.failed nofun).1]
      exact writeFile_self (hnew hlate)
    · intro hsame
      refine ⟨fun _ => ⟨?_, rfl⟩, nofun⟩
      by_cases hlate : FailsLate fault t runDir
      · rw [hsame hlate]
        exact writeFile_self (hnew hlate)
      · rw [hold hlate]
  · obtain ⟨u, hwrite, hnew⟩ := atomicWrite_done
      (b := RunFormat.ofManifest { manifest with entries := manifest.entries ++ [entry] }) hfails
    have hrun : append fault t runDir manifest entry =
        ⟨.ok (), { manifest with entries := manifest.entries ++ [entry] }, u⟩ := by
      simp only [append, hwrite]
    rw [hrun]
    constructor
    · rintro _ ⟨⟨step, hstep, _⟩, _⟩
      exact absurd (Or.inl (by rw [hstep]; nofun)) hfails
    · intro _
      exact ⟨fun h => absurd rfl h, fun _ => ⟨rfl, rfl, manifestAt_write hnew⟩⟩

variable (readable : Bool)

/-- After a write that failed, memory holds what is read back. -/
lemma replaceByName_failed {u : Disk B}
    (hwrite : atomicWrite fault t (manifestPath runDir) (RunFormat.ofManifest
      { manifest with entries := replaceEntry manifest.entries entry }) = (.error (), u)) :
    ∃ after, replaceByName fault readable t runDir manifest entry = ⟨.error .io, after, u⟩ ∧
      (after = manifest ↔ Restores readable u runDir manifest entry) := by
  cases hload : reload readable u runDir with
  | ok disk =>
    refine ⟨{ manifest with entries := disk.entries }, ?_, ?_⟩
    · simp only [replaceByName, hwrite, hload]
    · have hreads : ReadsAs readable u runDir disk.entries := readsAs_iff.mpr ⟨disk, hload, rfl⟩
      constructor
      · intro heq
        have hentries : disk.entries = manifest.entries := by rw [← heq]
        rw [hentries] at hreads
        exact Or.inl hreads
      · rintro (hsame | ⟨hnone, _⟩)
        · obtain ⟨disk', hload', hentries⟩ := readsAs_iff.mp hsame
          have heq : disk = disk' := Except.ok.inj (hload.symm.trans hload')
          rw [heq, hentries]
        · exact absurd hreads (hnone _)
  | error e =>
    refine ⟨{ manifest with entries := replaceEntry manifest.entries entry }, ?_, ?_⟩
    · simp only [replaceByName, hwrite, hload]
    · have hnone : ∀ entries, ¬ ReadsAs readable u runDir entries := by
        intro entries hreads
        obtain ⟨disk, hload', _⟩ := readsAs_iff.mp hreads
        rw [hload] at hload'
        cases hload'
      constructor
      · intro heq
        have hentries : replaceEntry manifest.entries entry = manifest.entries :=
          congrArg Manifest.entries heq
        exact Or.inr ⟨hnone, replaceEntry_eq_self.mp hentries⟩
      · rintro (hsame | ⟨_, hthere⟩)
        · exact absurd hsame (hnone _)
        · rw [replaceEntry_eq_self.mpr hthere]

lemma replaceByName_atomic_iff :
    Atomic t runDir manifest (Replaced entry manifest.entries)
      (replaceByName fault readable t runDir manifest entry) ↔
    (FailsLate fault t runDir → fileAt t (manifestPath runDir) = some (RunFormat.ofManifest
      { manifest with entries := replaceEntry manifest.entries entry })) ∧
    (Fails fault t runDir → Restores readable t runDir manifest entry) := by
  by_cases hfails : Fails fault t runDir
  · obtain ⟨u, hwrite, hnew, hold⟩ := atomicWrite_failed (b := RunFormat.ofManifest
      { manifest with entries := replaceEntry manifest.entries entry }) hfails
    obtain ⟨after, hrun, hafter⟩ :=
      replaceByName_failed fault t runDir manifest entry readable hwrite
    have hnode : (FailsLate fault t runDir → fileAt t (manifestPath runDir) =
        some (RunFormat.ofManifest
          { manifest with entries := replaceEntry manifest.entries entry })) →
        u.node = t.node := by
      intro hsame
      by_cases hlate : FailsLate fault t runDir
      · exact node_of_same (hnew hlate) (hsame hlate)
      · rw [hold hlate]
    have hrestores : u.node = t.node →
        (Restores readable u runDir manifest entry ↔
          Restores readable t runDir manifest entry) := by
      intro hsame
      simp only [Restores, readsAs_congr hsame]
    rw [hrun]
    constructor
    · intro h
      obtain ⟨hfile, hmemory⟩ := h.failed nofun
      have hsame : FailsLate fault t runDir → fileAt t (manifestPath runDir) =
          some (RunFormat.ofManifest
            { manifest with entries := replaceEntry manifest.entries entry }) := by
        intro hlate
        rw [← hfile]
        exact writeFile_self (hnew hlate)
      exact ⟨hsame, fun _ => (hrestores (hnode hsame)).mp (hafter.mp hmemory)⟩
    · rintro ⟨hsame, hback⟩
      refine ⟨fun _ => ⟨?_, ?_⟩, nofun⟩
      · exact fileAt_congr (by rw [hnode hsame])
      · exact hafter.mpr ((hrestores (hnode hsame)).mpr (hback hfails))
  · obtain ⟨u, hwrite, hnew⟩ := atomicWrite_done (b := RunFormat.ofManifest
      { manifest with entries := replaceEntry manifest.entries entry }) hfails
    have hrun : replaceByName fault readable t runDir manifest entry =
        ⟨.ok (), { manifest with entries := replaceEntry manifest.entries entry }, u⟩ := by
      simp only [replaceByName, hwrite]
    rw [hrun]
    constructor
    · intro _
      refine ⟨?_, fun h => absurd h hfails⟩
      rintro ⟨⟨step, hstep, _⟩, _⟩
      exact absurd (Or.inl (by rw [hstep]; nofun)) hfails
    · intro _
      exact ⟨fun h => absurd rfl h,
        fun _ => ⟨replaced_replaceEntry _ _, rfl, manifestAt_write hnew⟩⟩

/-- Both updates are atomic as long as no step after the renaming fails, unless the file has its
new content already, and reading it back after a failure restores the entries in memory. -/
theorem updates_atomic_iff :
    (Atomic t runDir manifest (· = manifest.entries ++ [entry])
      (append fault t runDir manifest entry) ↔
      (FailsLate fault t runDir → fileAt t (manifestPath runDir) =
        some (RunFormat.ofManifest
          { manifest with entries := manifest.entries ++ [entry] }))) ∧
    (Atomic t runDir manifest (Replaced entry manifest.entries)
      (replaceByName fault readable t runDir manifest entry) ↔
      (FailsLate fault t runDir → fileAt t (manifestPath runDir) = some (RunFormat.ofManifest
        { manifest with entries := replaceEntry manifest.entries entry })) ∧
      (Fails fault t runDir → Restores readable t runDir manifest entry)) :=
  ⟨append_atomic_iff fault t runDir manifest entry,
    replaceByName_atomic_iff fault t runDir manifest entry readable⟩

/-- An append whose last step fails is on disk and not in memory; a replacement that could not
even begin takes the summary's entry, which no marker mentions, out of memory. -/
theorem updates_half_undone :
    ((append (some .syncParent) afterDesign.disk ["run"] designManifest
        (summaryEntry (Doc.text "summary"))).manifest = designManifest ∧
      (manifestAt (append (some .syncParent) afterDesign.disk ["run"] designManifest
        (summaryEntry (Doc.text "summary"))).disk ["run"]).map Manifest.entries =
          some (designManifest.entries ++ [summaryEntry (Doc.text "summary")]) ∧
      ¬ Atomic afterDesign.disk ["run"] designManifest
        (· = designManifest.entries ++ [summaryEntry (Doc.text "summary")])
        (append (some .syncParent) afterDesign.disk ["run"] designManifest
          (summaryEntry (Doc.text "summary")))) ∧
    (replaceByName (some .createTemp) true (summarized afterDesign designManifest).disk ["run"]
        (registeredManifest designManifest) (summaryEntry (Doc.text "later"))).manifest =
      designManifest ∧
    ¬ Atomic (summarized afterDesign designManifest).disk ["run"]
      (registeredManifest designManifest)
      (Replaced (summaryEntry (Doc.text "later")) (registeredManifest designManifest).entries)
      (replaceByName (some .createTemp) true (summarized afterDesign designManifest).disk ["run"]
        (registeredManifest designManifest) (summaryEntry (Doc.text "later"))) := by
  have hlost : (replaceByName (some .createTemp) true
      (summarized afterDesign designManifest).disk ["run"] (registeredManifest designManifest)
      (summaryEntry (Doc.text "later"))).manifest = designManifest := by decide
  refine ⟨⟨by decide, by decide, fun h => ?_⟩, hlost, fun h => ?_⟩
  · have hfile := (h.failed (by decide)).1
    exact absurd hfile (by decide)
  · have hmemory := (h.failed (by decide)).2
    rw [hlost] at hmemory
    exact absurd hmemory (by decide)

end Updates

end Loker.ManifestUpdates
