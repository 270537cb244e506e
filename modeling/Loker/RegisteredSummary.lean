import Loker.LoaderAgreement
import Loker.ResumeDecision

/-! The summary's entry in the manifest, from its registration through later loads, commits and
summaries. -/

namespace Loker.RegisteredSummary

open FileTree TextOps Programs RunFiles RunLoad LoadSpec RunOps Dispatch PhaseRunner CommitProtocol
open LoaderAgreement
open scoped Classical

inductive SummaryError where
  | io
  | json
  | traceParse (detail : String)
  | manifest (e : ManifestError)
  deriving DecidableEq, Repr

variable {B : Type} [RunFormat B]

section Register

def summaryPath (runDir : Path) : Path := runDir ++ ["summary.json"]

def summaryEntry (bytes : B) : ManifestEntry where
  name := "summary.json"
  kind := .summaryJson
  schemaVersion := 1
  sha256 := RunFormat.sha256Hex bytes
  producer := .single
  phase := none
  attempt := none

/-- The entry in the place of the first one of its name, or at the end. -/
def replaceEntry (entries : List ManifestEntry) (entry : ManifestEntry) : List ManifestEntry :=
  match entries.findIdx? fun e => e.name = entry.name with
  | some pos => entries.set pos entry
  | none => entries ++ [entry]

/-- The outcome with the manifest in memory, which is read back when it cannot be written. -/
def replaceByName (runDir : Path) (manifest : Manifest) (entry : ManifestEntry) :
    Prog (RunSig B) (Except ManifestError Unit × Manifest) := do
  let replaced := { manifest with entries := replaceEntry manifest.entries entry }
  match ← call (S := RunSig B) (.writeManifest runDir replaced) with
  | .ok () => pure (.ok (), replaced)
  | .error _ =>
      match ← call (S := RunSig B) (.loadManifest runDir) with
      | .ok disk => pure (.error .io, { replaced with entries := disk.entries })
      | .error _ => pure (.error .io, replaced)

def finalize (runDir : Path) (bytes : B) : Prog (RunSig B) (Except String Unit) :=
  call (S := RunSig B) (.writeFile (summaryPath runDir) bytes)

/-- `summary` is the text of the collected summary, or the error of collecting it. -/
def writeSummary (runDir : Path) (manifest : Manifest) (summary : Except SummaryError B) :
    Prog (RunSig B) (Except SummaryError Unit × Manifest) :=
  match summary with
  | .error e => pure (.error e, manifest)
  | .ok bytes => do
      match ← finalize runDir bytes with
      | .error _ => pure (.error .io, manifest)
      | .ok () =>
          let (result, manifest) ← replaceByName runDir manifest (summaryEntry bytes)
          pure (result.mapError .manifest, manifest)

end Register

section Once

/-- The entries that are called like the summary. -/
def summaryEntries (entries : List ManifestEntry) : List ManifestEntry :=
  entries.filter fun e => e.name = "summary.json"

lemma replaceEntry_cons {e entry : ManifestEntry} {entries : List ManifestEntry} :
    replaceEntry (e :: entries) entry =
      if e.name = entry.name then entry :: entries else e :: replaceEntry entries entry := by
  unfold replaceEntry
  rw [List.findIdx?_cons]
  by_cases h : e.name = entry.name
  · simp [h]
  · cases entries.findIdx? fun e => e.name = entry.name <;> simp [h]

/-- Where at most one entry has the summary's name, the new one becomes the only one. -/
lemma summaryEntries_replace {entries : List ManifestEntry} {entry : ManifestEntry}
    (hname : entry.name = "summary.json") (h : (summaryEntries entries).length ≤ 1) :
    summaryEntries (replaceEntry entries entry) = [entry] := by
  induction entries with
  | nil => simp [replaceEntry, summaryEntries, hname]
  | cons e entries ih =>
      rw [replaceEntry_cons, hname]
      by_cases he : e.name = "summary.json"
      · have hcons : summaryEntries (e :: entries) = e :: summaryEntries entries := by
          simp [summaryEntries, he]
        have hrest : summaryEntries entries = [] := by
          rw [hcons, List.length_cons] at h
          exact List.eq_nil_of_length_eq_zero (by omega)
        rw [if_pos he]
        rw [summaryEntries] at hrest ⊢
        simp [hname, hrest]
      · have hcons : ∀ es, summaryEntries (e :: es) = summaryEntries es := by
          intro es
          simp [summaryEntries, he]
        rw [hcons] at h
        rw [if_neg he, hcons]
        exact ih h

/-- The manifest on disk has exactly one entry for the summary, with the digest of the file. -/
def Registered (t : Disk B) (runDir : Path) : Prop :=
  ∃ m e bytes, manifestAt t runDir = some m ∧ summaryEntries m.entries = [e] ∧
    fileAt t (summaryPath runDir) = some bytes ∧ RunFormat.sha256Hex bytes = e.sha256

/-- The manifest in memory has exactly one entry for the summary. -/
def Once (m : Manifest) : Prop := (summaryEntries m.entries).length = 1

end Once

section Histories

/-- The run directory with the manifests that callers have in memory. -/
structure Session (B : Type) where
  world : World B
  held : List Manifest

inductive Request (B : Type) where
  | load
  | commit (cfg : PhaseConfig) (bytes : B) (attempt : ℕ) (runId : String)
  | summarize (manifest : Manifest) (summary : Except SummaryError B)
  | elsewhere

/-- What a request does; anything may happen to the other files. -/
def Serves (runDir : Path) : Request B → Session B → List (Event (RunSig B)) → Session B → Prop
  | .load, s, _, s' =>
      ∃ m, manifestLoad s.world.disk runDir = .ok m ∧ s' = { s with held := m :: s.held }
  | .commit cfg bytes attempt runId, s, tr, s' =>
      ∃ r, Runs (ρ := Except PhaseError ManifestEntry) perform
          (commitSuccess runDir cfg bytes attempt runId) s.world tr r s'.world ∧
        s'.held = s.held
  | .summarize manifest summary, s, tr, s' =>
      manifest ∈ s.held ∧ ∃ r m, Runs perform (writeSummary runDir manifest summary) s.world tr
          (r, m) s'.world ∧ s'.held = m :: s.held.erase manifest
  | .elsewhere, s, _, s' =>
      fileAt s'.world.disk (manifestPath runDir) = fileAt s.world.disk (manifestPath runDir) ∧
        fileAt s'.world.disk (summaryPath runDir) = fileAt s.world.disk (summaryPath runDir) ∧
        s'.held = s.held

/-- The sessions after a summary is registered, by requests that meet the condition. -/
inductive Reached (runDir : Path)
    (meets : Request B → Session B → List (Event (RunSig B)) → Prop) : Session B → Prop
  | registered {w : World B} {m m' : Manifest} {bytes : B} {tr w'}
      (hfew : (summaryEntries m.entries).length ≤ 1)
      (run : Runs perform (writeSummary runDir m (.ok bytes)) w tr (.ok (), m') w') :
      Reached runDir meets ⟨w', [m']⟩
  | step {s s' : Session B} {q : Request B} {tr : List (Event (RunSig B))}
      (reached : Reached runDir meets s) (hmeets : meets q s tr) (serves : Serves runDir q s tr s') :
      Reached runDir meets s'

/-- The manifest's own sweep keeps the summary's entries. -/
def SweepSpares (t : Disk B) (runDir : Path) : Prop :=
  ∀ m, manifestAt t runDir = some m → ∀ e ∈ summaryEntries m.entries, ManifestKeeps t runDir e

/-- Some write of the manifest failed. -/
def WriteFailed (runDir : Path) (tr : List (Event (RunSig B))) : Prop :=
  ∃ m message, Event.mk (S := RunSig B) (.writeManifest runDir m)
    (.error message : Except String Unit) ∈ tr

/-- The artefact is neither the manifest nor the summary nor in the directory of the markers. -/
structure ArtefactApart (runDir : Path) (cfg : PhaseConfig) : Prop where
  not_manifest : join runDir cfg.artefactName ≠ manifestPath runDir
  not_summary : join runDir cfg.artefactName ≠ summaryPath runDir
  not_marker : ¬ markersDir runDir <+: join runDir cfg.artefactName
  parent : ¬ markersDir runDir <+: parentOf runDir cfg.artefactName

/-- The sweep of a load or a commit spares the summary's entry, the phase's artefact is another
file, and no registration fails to write the manifest. -/
def KeepsEntry (runDir : Path) : Request B → Session B → List (Event (RunSig B)) → Prop
  | .load, s, _ => SweepSpares s.world.disk runDir
  | .commit cfg _ _ _, s, _ => SweepSpares s.world.disk runDir ∧ ArtefactApart runDir cfg
  | .summarize _ _, _, tr => ¬ WriteFailed runDir tr
  | .elsewhere, _, _ => True

end Histories

section Survival

variable {runDir : Path} {t t' : Disk B} {w w' : World B} {s s' : Session B}

lemma summaryPath_ne_manifestPath : summaryPath runDir ≠ manifestPath runDir := by
  simp [summaryPath, manifestPath]

lemma Registered.congr (h : Registered t runDir)
    (hmanifest : fileAt t' (manifestPath runDir) = fileAt t (manifestPath runDir))
    (hsummary : fileAt t' (summaryPath runDir) = fileAt t (summaryPath runDir)) :
    Registered t' runDir := by
  obtain ⟨m, e, bytes, hm, he, hfile, hsha⟩ := h
  exact ⟨m, e, bytes, by rw [manifestAt_congr hmanifest, hm], he, by rw [hsummary, hfile], hsha⟩

/-- What `Manifest::load` returns are the entries on disk that its sweep keeps. -/
lemma manifestLoad_ok {m' : Manifest} (h : manifestLoad t runDir = .ok m') :
    ∃ m, manifestAt t runDir = some m ∧
      m'.entries = m.entries.filter fun e => ManifestKeeps t runDir e := by
  obtain ⟨m, hm, _, _, rfl⟩ := manifestLoad_ok_iff.mp h
  exact ⟨m, hm, rfl⟩

lemma summaryEntries_of_load {m' : Manifest} (hspares : SweepSpares t runDir)
    (h : manifestLoad t runDir = .ok m') :
    ∃ m, manifestAt t runDir = some m ∧ summaryEntries m'.entries = summaryEntries m.entries := by
  obtain ⟨m, hm, hentries⟩ := manifestLoad_ok h
  refine ⟨m, hm, ?_⟩
  have hkeeps := hspares m hm
  unfold summaryEntries at hkeeps ⊢
  rw [hentries, List.filter_filter]
  refine List.filter_congr fun e he => ?_
  by_cases hname : e.name = "summary.json"
  · have hkept := hkeeps e (List.mem_filter.mpr ⟨he, by simpa using hname⟩)
    simp [hname, hkept]
  · simp [hname]

/-- A registered summary whose entry the sweep would keep. -/
def Spared (runDir : Path) (w : World B) : Prop :=
  Registered w.disk runDir ∧ SweepSpares w.disk runDir

lemma SweepSpares.congr (h : SweepSpares t runDir)
    (hmanifest : fileAt t' (manifestPath runDir) = fileAt t (manifestPath runDir))
    (hdir : isDir t' (markersDir runDir) = true → isDir t (markersDir runDir) = true)
    (hmarkers : ∀ name, fileAt t' (markersDir runDir ++ [name]) =
      fileAt t (markersDir runDir ++ [name])) : SweepSpares t' runDir := by
  intro m hm e he hisDir
  rw [manifestAt_congr hmanifest] at hm
  obtain ⟨name, bytes, hc, hfile, hread⟩ := h m hm e he (hdir hisDir)
  exact ⟨name, bytes, hc, by rw [hmarkers, hfile], hread⟩

lemma spared_createDirAll {p : Path} {a : Except String Unit} (hp : ¬ markersDir runDir <+: p)
    (h : Spared runDir w) (hact : perform (.createDirAll p) w a w') : Spared runDir w' := by
  rcases hact with ⟨t', hnext, rfl, _⟩ | ⟨rfl, _⟩
  · have hfiles := createDirAll_fileAt hnext
    refine ⟨h.1.congr (by rw [hfiles]) (by rw [hfiles]), h.2.congr (by rw [hfiles]) ?_ ?_⟩
    · intro hdir
      rw [isDir_iff, createDirAll_node hnext, if_neg hp] at hdir
      exact isDir_iff.mpr hdir
    · intro name
      rw [hfiles]
  · exact h

lemma spared_writeFile {p : Path} {b : B} {a : Except String Unit}
    (hmanifest : p ≠ manifestPath runDir) (hsummary : p ≠ summaryPath runDir)
    (hmarkers : ¬ markersDir runDir <+: p) (h : Spared runDir w)
    (hact : perform (.writeFile p b) w a w') : Spared runDir w' := by
  rcases hact with ⟨t', hnext, rfl, _⟩ | ⟨rfl, _⟩
  · have hother : ∀ q, q ≠ p → fileAt t' q = fileAt w.disk q := fun q hq => writeFile_other hnext hq
    have hbelow : ∀ name, markersDir runDir ++ [name] ≠ p := by
      rintro name rfl
      exact hmarkers (List.prefix_append _ _)
    have hself : markersDir runDir ≠ p := by
      rintro rfl
      exact hmarkers (List.prefix_rfl)
    refine ⟨h.1.congr (hother _ hmanifest.symm) (hother _ hsummary.symm),
      h.2.congr (hother _ hmanifest.symm) ?_ fun name => hother _ (hbelow name)⟩
    intro hdir
    rw [isDir_iff, writeFile_node hnext, if_neg hself] at hdir
    exact isDir_iff.mpr hdir
  · exact h

lemma createDirOr_spared {ε : Type} {wrap : String → ε} {p : Path}
    (hp : ¬ markersDir runDir <+: p) (h : Spared runDir w) :
    Secures perform (Spared runDir) (fun _ => Spared runDir) (createDirOr wrap p) w := by
  refine Secures.bind (Secures.op fun answer w₁ hact => ?_)
  have hw₁ := spared_createDirAll hp h hact
  exact ⟨hw₁, orThrow_secures hw₁ fun _ => hw₁⟩

lemma atomicWrite_spared {cfg : PhaseConfig} {bytes : B} (hcfg : ArtefactApart runDir cfg)
    (h : Spared runDir w) :
    Secures perform (Spared runDir) (fun _ => Spared runDir)
      (atomicWrite runDir cfg.artefactName bytes) w := by
  unfold atomicWrite
  split
  · exact Secures.throw h
  · refine Secures.bind (Secures.op fun answer w₁ hact => ?_)
    have hw₁ := spared_writeFile hcfg.not_manifest hcfg.not_summary hcfg.not_marker h hact
    exact ⟨hw₁, orThrow_secures hw₁ fun _ => hw₁⟩

/-- A commit starts from the manifest as it is read back, with the summary's entry. -/
lemma loadOrNew_spared {runId : String} (h : Spared runDir w) :
    Secures perform (Spared runDir)
      (fun carried w' => Spared runDir w' ∧ ∃ m, manifestAt w'.disk runDir = some m ∧
        summaryEntries carried.entries = summaryEntries m.entries)
      (loadOrNew runDir runId) w := by
  obtain ⟨m, e, bytes, hm, -⟩ := h.1
  have hthere : occupied w.disk (manifestPath runDir) = true := by
    obtain ⟨b, hfile, -⟩ := Option.bind_eq_some_iff.mp hm
    simp [occupied, fileAt_eq_some.mp hfile]
  refine Secures.bind (Secures.op fun there w₁ hact => ?_)
  obtain ⟨rfl, rfl⟩ := hact
  refine ⟨h, ?_⟩
  rw [hthere, if_pos rfl]
  refine Secures.bind (Secures.op fun answer w₂ hact => ?_)
  obtain ⟨rfl, hload⟩ := hact
  refine ⟨h, ?_⟩
  cases answer with
  | error e => exact Secures.throw h
  | ok carried => exact Secures.pure h ⟨h, summaryEntries_of_load h.2 (hload carried rfl)⟩

lemma append_spared {carried : Manifest} {entry : ManifestEntry}
    (hname : entry.name ≠ "summary.json") (h : Spared runDir w)
    (hcarried : ∃ m, manifestAt w.disk runDir = some m ∧
      summaryEntries carried.entries = summaryEntries m.entries) :
    Secures perform (Spared runDir) (fun _ => Spared runDir) (append runDir carried entry) w := by
  refine Secures.bind (Secures.op fun answer w₁ hact => ?_)
  have hw₁ : Spared runDir w₁ := by
    rcases hact with ⟨t', hwrite, rfl, _⟩ | ⟨rfl, _⟩
    swap
    · exact h
    obtain ⟨⟨m, e, bytes, hm, he, hfile, hsha⟩, hspares⟩ := h
    obtain ⟨m', hm', hsame⟩ := hcarried
    obtain rfl : m' = m := Option.some.inj (hm'.symm.trans hm)
    have hwritten := manifestAt_written hwrite
    have hsummary : summaryEntries (carried.entries ++ [entry]) = [e] := by
      have happend : summaryEntries (carried.entries ++ [entry]) =
          summaryEntries carried.entries := by simp [summaryEntries, hname]
      rw [happend, hsame, he]
    have hother : ∀ q, q ≠ manifestPath runDir → fileAt t' q = fileAt w.disk q :=
      fun _ hq => writeFile_other hwrite hq
    refine ⟨⟨_, e, bytes, hwritten, hsummary, ?_, hsha⟩, ?_⟩
    · rw [hother _ summaryPath_ne_manifestPath, hfile]
    · intro m'' hm'' e' he' hdir
      obtain rfl := Option.some.inj (hwritten.symm.trans hm'')
      rw [hsummary, ← he] at he'
      have hisDir : isDir w.disk (markersDir runDir) = true := by
        rw [isDir_iff, writeFile_node hwrite,
          if_neg (by simp [markersDir, manifestPath])] at hdir
        exact isDir_iff.mpr hdir
      obtain ⟨name, b, hc, hmarker, hread⟩ := hspares m' hm e' he' hisDir
      refine ⟨name, b, hc, ?_, hread⟩
      rw [hother _ (by simp [markersDir, manifestPath]), hmarker]
  exact ⟨hw₁, orThrow_secures hw₁ fun _ => hw₁⟩

lemma ArtefactApart.name {cfg : PhaseConfig} (h : ArtefactApart runDir cfg) :
    cfg.artefactName ≠ "summary.json" := by
  intro heq
  apply h.not_summary
  rw [heq, join_of_isName (by decide)]
  rfl

lemma not_markers_runDir : ¬ markersDir runDir <+: runDir := by
  intro h
  have hlength := h.length_le
  rw [markersDir, List.length_append, List.length_singleton] at hlength
  omega

/-- A commit whose load spares the summary's entry writes it back. -/
lemma commitSuccess_spared {cfg : PhaseConfig} {bytes : B} {attempt : ℕ} {runId : String}
    (hcfg : ArtefactApart runDir cfg) (h : Spared runDir w) :
    Secures perform (Spared runDir) (fun _ => Spared runDir)
      (commitSuccess runDir cfg bytes attempt runId) w := by
  refine Secures.bind ((createDirOr_spared not_markers_runDir h).mono fun _ w₁ hw₁ _ => ?_)
  refine Secures.bind ((createDirOr_spared hcfg.parent hw₁).mono fun _ w₂ hw₂ _ => ?_)
  refine Secures.bind ((atomicWrite_spared hcfg hw₂).mono fun _ w₃ hw₃ _ => ?_)
  refine Secures.bind ((loadOrNew_spared hw₃).mono fun carried w₄ hw₄ hcarried => ?_)
  refine Secures.bind ((append_spared hcfg.name hw₄ hcarried.2).mono fun _ w₅ hw₅ _ => ?_)
  exact Secures.pure hw₅ hw₅

/-- The new summary becomes the only entry, or the manifest could not be written. -/
lemma replaceByName_registers {m m' : Manifest} {bytes : B} {tr : List (Event (RunSig B))}
    {r : Except ManifestError Unit} (hfew : (summaryEntries m.entries).length ≤ 1)
    (hfile : fileAt w.disk (summaryPath runDir) = some bytes)
    (run : Runs perform (replaceByName runDir m (summaryEntry bytes)) w tr (r, m') w') :
    (Registered w'.disk runDir ∧ Once m') ∨ r ≠ .ok () ∧ WriteFailed runDir tr := by
  have honly : summaryEntries (replaceEntry m.entries (summaryEntry bytes)) = [summaryEntry bytes] :=
    summaryEntries_replace rfl hfew
  cases run with
  | @act _ _ _ a w₁ tr' _ _ first rest =>
      rcases first with ⟨t', hwrite, rfl, rfl⟩ | ⟨rfl, message, rfl⟩
      · left
        obtain ⟨-, heq, rfl⟩ := runs_ret.mp rest
        obtain ⟨-, rfl⟩ := Prod.mk.inj heq
        refine ⟨⟨_, _, bytes, manifestAt_written hwrite, honly, ?_, rfl⟩, ?_⟩
        · rw [writeFile_other hwrite summaryPath_ne_manifestPath, hfile]
        · rw [Once, honly]
          rfl
      · right
        refine ⟨?_, _, message, List.mem_cons_self⟩
        cases rest with
        | @act _ _ _ answer _ _ _ _ _ rest =>
            cases answer <;>
            · obtain ⟨-, heq, -⟩ := runs_ret.mp rest
              obtain ⟨rfl, -⟩ := Prod.mk.inj heq
              nofun

/-- A summary that is written comes to its registration. -/
lemma writeSummary_cases {m m' : Manifest} {summary : Except SummaryError B}
    {tr : List (Event (RunSig B))} {r : Except SummaryError Unit}
    (run : Runs perform (writeSummary runDir m summary) w tr (r, m') w') :
    (w' = w ∧ m' = m ∧ r ≠ .ok ()) ∨ ∃ bytes t' tr' r',
      writeFile w.disk (summaryPath runDir) bytes = some t' ∧
        Runs perform (replaceByName runDir m (summaryEntry bytes)) ⟨t', w.log⟩ tr' (r', m') w' ∧
        (∀ e ∈ tr', e ∈ tr) ∧ (r = .ok () → r' = .ok ()) := by
  cases summary with
  | error e =>
      obtain ⟨-, heq, rfl⟩ := runs_ret.mp run
      obtain ⟨rfl, rfl⟩ := Prod.mk.inj heq
      exact Or.inl ⟨rfl, rfl, nofun⟩
  | ok bytes =>
      cases run with
      | @act _ _ _ a w₁ tr' _ _ first rest =>
          rcases first with ⟨t', hwrite, rfl, rfl⟩ | ⟨rfl, message, rfl⟩
          · right
            obtain ⟨⟨r', m₁⟩, tr₁, tr₂, w₂, hreplace, hret, rfl⟩ := runs_bind
              (p := replaceByName runDir m (summaryEntry bytes)) rest
            obtain ⟨-, heq, rfl⟩ := runs_ret.mp hret
            obtain ⟨rfl, rfl⟩ := Prod.mk.inj heq
            refine ⟨bytes, t', tr₁, r', hwrite, hreplace, fun e he => ?_, fun hok => ?_⟩
            · exact List.mem_cons_of_mem _ (List.mem_append_left _ he)
            · cases r' with
              | ok u => rfl
              | error e => cases hok
          · left
            obtain ⟨-, heq, rfl⟩ := runs_ret.mp rest
            obtain ⟨rfl, rfl⟩ := Prod.mk.inj heq
            exact ⟨rfl, rfl, nofun⟩

/-- What one request that meets the condition preserves. -/
lemma serves_kept {q : Request B} {tr : List (Event (RunSig B))}
    (hkeeps : KeepsEntry runDir q s tr) (serves : Serves runDir q s tr s')
    (h : Registered s.world.disk runDir ∧ ∀ m ∈ s.held, Once m) :
    Registered s'.world.disk runDir ∧ ∀ m ∈ s'.held, Once m := by
  obtain ⟨hregistered, honce⟩ := h
  cases q with
  | load =>
      obtain ⟨m, hload, rfl⟩ := serves
      refine ⟨hregistered, List.forall_mem_cons.mpr ⟨?_, honce⟩⟩
      obtain ⟨m₀, e, bytes, hm₀, he, -⟩ := hregistered
      obtain ⟨m₁, hm₁, hsame⟩ := summaryEntries_of_load hkeeps hload
      obtain rfl : m₁ = m₀ := Option.some.inj (hm₁.symm.trans hm₀)
      rw [Once, hsame, he]
      rfl
  | commit cfg bytes attempt runId =>
      obtain ⟨r, run, hheld⟩ := serves
      have hspared : Spared runDir s.world := ⟨hregistered, hkeeps.1⟩
      have hsecures : Secures perform (Spared runDir) (fun _ => Spared runDir)
          (commitSuccess runDir cfg bytes attempt runId) s.world := commitSuccess_spared hkeeps.2 hspared
      exact ⟨(hsecures.invariant run hspared).1, hheld ▸ honce⟩
  | summarize manifest summary =>
      obtain ⟨hmem, r, m, run, hheld⟩ := serves
      have hothers : ∀ m' ∈ s.held.erase manifest, Once m' :=
        fun m' hm' => honce m' (List.mem_of_mem_erase hm')
      rw [hheld]
      rcases writeSummary_cases run with ⟨hw, rfl, -⟩ | ⟨bytes, t', tr', r', hwrite, hreplace, htr, -⟩
      · rw [hw]
        exact ⟨hregistered, List.forall_mem_cons.mpr ⟨honce m hmem, hothers⟩⟩
      · rcases replaceByName_registers (le_of_eq (honce manifest hmem)) (writeFile_self hwrite)
          hreplace with ⟨hregistered', honce'⟩ | ⟨-, m', message, hfailed⟩
        · exact ⟨hregistered', List.forall_mem_cons.mpr ⟨honce', hothers⟩⟩
        · exact absurd ⟨m', message, htr _ hfailed⟩ hkeeps
  | elsewhere =>
      obtain ⟨hmanifest, hsummary, hheld⟩ := serves
      exact ⟨hregistered.congr hmanifest hsummary, hheld ▸ honce⟩

end Survival

section Swept

open CrashHistories
open ResumeDecision (afterDesign reviewPhase)

def silent : Script := ⟨fun _ => .ok "", fun _ => .ok .pass⟩

/-- The run directory after the summary is written with the manifest that is on disk. -/
def summarized (w : World Doc) (m : Manifest) : World Doc :=
  (eval (handle silent) (writeSummary ["run"] m (.ok (Doc.text "summary"))) w).2.2

def registeredManifest (m : Manifest) : Manifest :=
  { m with entries := replaceEntry m.entries (summaryEntry (Doc.text "summary")) }

/-- The same run directory after one more phase has committed. -/
def committed (w : World Doc) : World Doc :=
  (eval (ρ := Except PhaseError ManifestEntry) (handle silent)
    (commitSuccess ["run"] reviewPhase (Doc.text "fine") 0 "r1") w).2.2

def emptyManifest : Manifest := ⟨"r1", 1, some "design", []⟩

lemma registered_reached {w : World Doc} {m : Manifest}
    {meets : Request Doc → Session Doc → List (Event (RunSig Doc)) → Prop}
    (hfew : (summaryEntries m.entries).length ≤ 1)
    (hresult : (eval (handle silent) (writeSummary ["run"] m (.ok (Doc.text "summary"))) w).2.1 =
      (.ok (), registeredManifest m)) :
    Reached ["run"] meets ⟨summarized w m, [registeredManifest m]⟩ := by
  have run := eval_runs (handle_performs silent)
    (writeSummary ["run"] m (.ok (Doc.text "summary"))) w
  rw [hresult] at run
  exact .registered hfew run

def designManifest : Manifest :=
  ⟨"r1", 1, some "design", [⟨"design.md", .designMd, 1, "tone", .single, some "design", some 0⟩]⟩

end Swept

end Loker.RegisteredSummary
