import Loker.LoaderAgreement
import Loker.CompletedRuns

/-! Two phases of one run directory committed at the same time: when the manifest ends up with the
entries of both. -/

namespace Loker.ConcurrentCommits

open FileTree TextOps Programs RunFiles RunLoad LoadSpec RunOps Dispatch Strategies PhaseRunner
  CommitProtocol RunLayout CompletedRuns LoaderAgreement

variable {B : Type} [RunFormat B]

section Commits

/-- What a phase run hands to its commit. -/
structure Commit (B : Type) where
  cfg : PhaseConfig
  inp : PhaseInputs
  output : StrategyOutput
  verify : Option HookResult
  bytes : B
  attempt : ℕ

def Commit.program (c : Commit B) : Run B PhaseError PhaseOutcome :=
  PhaseRunner.commit c.cfg c.inp c.output c.verify c.bytes c.attempt

def Commit.entry (c : Commit B) : ManifestEntry := fromPayload c.cfg c.attempt c.bytes

def Commit.marker (cm : Commit B) : CompletedMarker :=
  ⟨cm.cfg.phase, cm.attempt, cm.entry.sha256, [cm.cfg.artefactName]⟩

def Commit.path (runDir : Path) (c : Commit B) : Path := join runDir c.cfg.artefactName

/-- How far a commit is: it has not loaded the manifest yet, or it has, or it has written its
completed marker. -/
inductive Stage where
  | before
  | inside
  | done
  deriving DecidableEq, Repr

def advance : (o : Op B) → Answer B o → Stage → Stage
  | .loadManifest _, a, stage =>
      match (show Except ManifestError Manifest from a) with
      | .ok _ => .inside
      | .error _ => stage
  | .writeMarker _ (.completed _), a, stage =>
      match (show Except String Unit from a) with
      | .ok () => .done
      | .error _ => stage
  | _, _, stage => stage

/-- The world with the stages of the two commits. -/
abbrev Shared (B : Type) := World B × (Bool → Stage)

/-- An operation of one of the commits. -/
def taking (i : Bool) : Semantics (RunSig B) (Shared B) := fun o s a s' =>
  perform o s.1 a s'.1 ∧ s'.2 = Function.update s.2 i (advance o a (s.2 i))

/-- A commit loads the manifest only when the other one is not between its own load and its
completed marker. -/
def Alone (i : Bool) : Op B → Shared B → Prop
  | .loadManifest _, s => s.2 (!i) ≠ .inside
  | _, _ => True

lemma both {P : Bool → Prop} {i : Bool} (hi : P i) (hother : P !i) (j : Bool) : P j := by
  cases i <;> cases j <;> assumption

lemma stage_other {i : Bool} {stage : Bool → Stage} {x : Stage} :
    Function.update stage i x (!i) = stage !i := Function.update_of_ne (by simp) _ _

end Commits

section Layout

variable {runDir : Path} {names : String → Prop} {c : Bool → Commit B}

/-- The two phases have names of their own, and their artefacts are neither files of the protocol
nor artefacts that the manifest lists already, nor the same. -/
structure Apart (runDir : Path) (names : String → Prop) (c : Bool → Commit B) : Prop where
  dir : ∀ i, (c i).inp.runDir = runDir
  name : ∀ i, '/' ∉ (c i).cfg.phase.toList
  phases : ∀ i, (c i).cfg.phase ≠ (c !i).cfg.phase
  kind : ∀ i, (c i).cfg.artefactKind ≠ .changesDir
  output : ∀ i, ProtocolClear runDir ((c i).path runDir)
  parent : ∀ i, ¬ heartbeatPath runDir <+: parentOf runDir (c i).cfg.artefactName
  outputs : ∀ i, (c i).path runDir ≠ (c !i).path runDir
  listed : ∀ name, names name → ProtocolClear runDir (join runDir name)
  free : ∀ name i, names name → join runDir name ≠ (c i).path runDir

/-- The names that the manifest may list: a commit past its load adds its own. -/
def Listed (names : String → Prop) (c : Bool → Commit B) (stage : Bool → Stage) (name : String) :
    Prop :=
  names name ∨ ∃ i, stage i ≠ .before ∧ name = (c i).cfg.artefactName

/-- The files that an operation of the first commit must not change. -/
def Guarded (runDir : Path) (names : String → Prop) (c : Bool → Commit B) (stage : Bool → Stage)
    (i : Bool) (q : Path) : Prop :=
  (∃ name, Listed names c stage name ∧ q = join runDir name) ∨ q = (c !i).path runDir

omit [RunFormat B] in
lemma Apart.clear (h : Apart runDir names c) {stage : Bool → Stage} {name : String}
    (hname : Listed names c stage name) : ProtocolClear runDir (join runDir name) := by
  rcases hname with hname | ⟨i, _, rfl⟩
  · exact h.listed name hname
  · exact h.output i

omit [RunFormat B] in
lemma Apart.guarded_clear (h : Apart runDir names c) {stage : Bool → Stage} {i : Bool} {q : Path}
    (hq : Guarded runDir names c stage i q) : ProtocolClear runDir q := by
  rcases hq with ⟨name, hname, rfl⟩ | rfl
  · exact h.clear hname
  · exact h.output !i

omit [RunFormat B] in
lemma Listed.mono {stage stage' : Bool → Stage} {name : String}
    (h : Listed names c stage name) (hstage : ∀ i, stage i ≠ .before → stage' i ≠ .before) :
    Listed names c stage' name := by
  rcases h with h | ⟨i, hi, hname⟩
  · exact Or.inl h
  · exact Or.inr ⟨i, hstage i hi, hname⟩

omit [RunFormat B] in
lemma Listed.step {stage stage' : Bool → Stage} {i : Bool} {name : String}
    (h : Listed names c stage name) (hself : stage' i ≠ .before)
    (hother : stage' (!i) = stage !i) : Listed names c stage' name := by
  refine h.mono (both (i := i) (fun _ => hself) fun hj => ?_)
  rwa [hother]

omit [RunFormat B] in
/-- Before its load, the artefact of a commit is not guarded from it. -/
lemma Apart.artefact_free (h : Apart runDir names c) {stage : Bool → Stage} {i : Bool}
    (hi : stage i = .before) : ¬ Guarded runDir names c stage i ((c i).path runDir) := by
  intro hq
  rcases hq with ⟨name, hname | ⟨j, hj, rfl⟩, heq⟩ | heq
  · exact h.free name i hname heq.symm
  · have hji : j = !i := by
      cases i <;> cases j <;> simp_all
    subst hji
    exact h.outputs i heq
  · exact h.outputs i heq

end Layout

section Contracts

variable (runDir : Path) (names : String → Prop) (c : Bool → Commit B)

/-- The commit has its entry in the manifest and its completed marker. -/
structure Finished (runDir : Path) (c : Commit B) (w : World B) : Prop where
  entry : ∀ m, manifestAt w.disk runDir = some m → c.entry ∈ m.entries
  marker : hashOf w.disk (markersDir runDir) (c.cfg.phase ++ ".completed") = some c.entry.sha256
  logged : ∃ marker, .completed marker ∈ w.log ∧ marker.phase = c.cfg.phase

structure Inv (s : Shared B) : Prop where
  safe : Safe runDir (Listed names c s.2) s.1
  alone : ∀ i, s.2 i = .inside → s.2 (!i) ≠ .inside
  finished : ∀ i, s.2 i = .done → Finished runDir (c i) s.1

/-- What the other commit leaves as it is between the commit's load of the manifest and its
completed marker. -/
structure Frozen (i : Bool) (s s' : Shared B) : Prop where
  stage : s'.2 (!i) = s.2 !i
  manifest : manifestAt s'.1.disk runDir = manifestAt s.1.disk runDir
  mentioned : ∀ hash, Mentioned s'.1.disk (markersDir runDir) hash ↔
    Mentioned s.1.disk (markersDir runDir) hash
  files : ∀ name b, Listed names c s.2 name → fileAt s.1.disk (join runDir name) = some b →
    fileAt s'.1.disk (join runDir name) = some b

/-- What a commit may expect of the other one. -/
structure Undisturbed (i : Bool) (s s' : Shared B) : Prop where
  stage : s'.2 i = s.2 i
  inv : Inv runDir names c s → Inv runDir names c s'
  artefact : Inv runDir names c s → ∀ b, fileAt s.1.disk ((c i).path runDir) = some b →
    fileAt s'.1.disk ((c i).path runDir) = some b
  frozen : Inv runDir names c s → s.2 i = .inside → Frozen runDir names c i s s'

def contract (i : Bool) : Contract (RunSig B) (Shared B) where
  rely := Undisturbed runDir names c i
  guarantee _ := Undisturbed runDir names c !i
  rely_refl s := ⟨rfl, id, fun _ _ h => h, fun _ _ => ⟨rfl, rfl, fun _ => Iff.rfl, fun _ _ _ h => h⟩⟩
  rely_trans {s₁ s₂ s₃} h₁ h₂ := by
    refine ⟨h₂.stage.trans h₁.stage, h₂.inv ∘ h₁.inv, fun hs b hb => ?_, fun hs hi => ?_⟩
    · exact h₂.artefact (h₁.inv hs) b (h₁.artefact hs b hb)
    · have hf₁ := h₁.frozen hs hi
      have hf₂ := h₂.frozen (h₁.inv hs) (h₁.stage.trans hi)
      refine ⟨hf₂.stage.trans hf₁.stage, hf₂.manifest.trans hf₁.manifest,
        fun hash => (hf₂.mentioned hash).trans (hf₁.mentioned hash), fun name b hname hb => ?_⟩
      refine hf₂.files name b (hname.mono fun j hj => ?_) (hf₁.files name b hname hb)
      have hsame : s₂.2 j = s₁.2 j := by
        cases i <;> cases j <;> first | exact h₁.stage | exact hf₁.stage
      rwa [hsame]

variable {runDir names c} {i : Bool} {s s' : Shared B} {o : Op B} {a : Answer B o}

/-- An operation that commits nothing and is clear of the guarded files. -/
lemma quiet_step (hapart : Apart runDir names c) (ho : ¬ Committing o)
    (hstage : advance o a (s.2 i) = s.2 i)
    (hclear : Clears runDir (Guarded runDir names c s.2 i) o) (h : taking i o s a s') :
    Undisturbed runDir names c (!i) s s' := by
  obtain ⟨w, stage⟩ := s
  obtain ⟨w', stage'⟩ := s'
  obtain ⟨hact, hsame⟩ := h
  rw [hstage, Function.update_eq_self] at hsame
  obtain rfl : stage' = stage := hsame
  have hlisted : ∀ name, Listed names c stage' name →
      Guarded runDir names c stage' i (join runDir name) := fun name h => Or.inl ⟨name, h, rfl⟩
  have hmarkers : ∀ m, ¬ Guarded runDir names c stage' i (markersDir runDir ++ [m ++ ".completed"]) :=
    fun m h => (hapart.guarded_clear h).not_completed _ (endsWith_append m ".completed") rfl
  have hfile : ∀ q b, Guarded runDir names c stage' i q → fileAt w.disk q = some b →
      fileAt w'.disk q = some b :=
    fun q b hq hb => (taken_file_step hclear hmarkers hq hb hact).1
  have hframe : Inv runDir names c (w, stage') → Frame runDir w.disk w'.disk := by
    intro hs
    obtain ⟨m, hm⟩ := hs.safe.consistent
    exact (frame_step ho (hclear.harmless hs.safe hlisted) hm hact).1
  refine ⟨rfl, fun hs => ⟨?_, hs.alone, fun j hj => ?_⟩, fun _ b hb => hfile _ b (Or.inr rfl) hb,
    fun hs _ => ⟨rfl, ?_, (hframe hs).mentioned, fun name b hname hb => ?_⟩⟩
  · exact safe_step ho (hclear.harmless hs.safe hlisted) hs.safe hact
  · obtain ⟨hentry, hmarker, marker, hlog, hphase⟩ := hs.finished j hj
    refine ⟨fun m hm => hentry m ?_, ?_, marker, ?_, hphase⟩
    · rw [← hm]
      exact (manifestAt_congr (hframe hs).manifest).symm
    · rw [← hmarker]
      exact hashOf_congr fun hends => (hframe hs).completed _ hends
    · rcases log_step hact with hsame | ⟨_, m, _, hcons⟩
      · exact hsame ▸ hlog
      · exact hcons ▸ List.mem_cons_of_mem _ hlog
  · exact manifestAt_congr (hframe hs).manifest
  · exact hfile _ b (Or.inl ⟨name, hname, rfl⟩) hb

/-- While the other commit is not inside, it only needs its own artefact. -/
lemma undisturbed_of_alone (h : taking i o s a s') (halone : s.2 (!i) ≠ .inside)
    (hinv : Inv runDir names c s → Inv runDir names c s')
    (hartefact : Inv runDir names c s → ∀ b, fileAt s.1.disk ((c !i).path runDir) = some b →
      fileAt s'.1.disk ((c !i).path runDir) = some b) :
    Undisturbed runDir names c (!i) s s' := by
  refine ⟨?_, hinv, hartefact, fun _ hinside => absurd hinside halone⟩
  rw [h.2, stage_other]

end Contracts

section Assertions

variable (runDir : Path) (names : String → Prop) (c : Bool → Commit B)

/-- Before the load of the manifest. -/
structure Waiting (i : Bool) (s : Shared B) : Prop where
  inv : Inv runDir names c s
  stage : s.2 i = .before

/-- Before the load, with the artefact written. -/
structure Placed (i : Bool) (s : Shared B) : Prop where
  waiting : Waiting runDir names c i s
  artefact : fileAt s.1.disk ((c i).path runDir) = some (c i).bytes

/-- The manifest is loaded, with the other commit's entry if that one is done. -/
structure Loaded (i : Bool) (m : Manifest) (s : Shared B) : Prop where
  inv : Inv runDir names c s
  stage : s.2 i = .inside
  artefact : fileAt s.1.disk ((c i).path runDir) = some (c i).bytes
  carried : Carried runDir s.1 m
  other : s.2 (!i) = .done → (c !i).entry ∈ m.entries

/-- The commit's entry is in the manifest. -/
structure Appended (i : Bool) (s : Shared B) : Prop where
  inv : Inv runDir names c s
  stage : s.2 i = .inside
  recorded : AllRecorded runDir (Listed names c s.2) s.1
  entry : ∀ m, manifestAt s.1.disk runDir = some m → (c i).entry ∈ m.entries

structure Committed (i : Bool) (s : Shared B) : Prop where
  inv : Inv runDir names c s
  stage : s.2 i = .done

variable {runDir names c} {i : Bool} {s s' : Shared B} {m : Manifest}

lemma Waiting.rest (h : Waiting runDir names c i s) (hs : Undisturbed runDir names c i s s') :
    Waiting runDir names c i s' :=
  ⟨hs.inv h.inv, hs.stage.trans h.stage⟩

lemma Placed.rest (h : Placed runDir names c i s) (hs : Undisturbed runDir names c i s s') :
    Placed runDir names c i s' :=
  ⟨h.waiting.rest hs, hs.artefact h.waiting.inv _ h.artefact⟩

lemma Frozen.carried (hs : Frozen runDir names c i s s') (h : Carried runDir s.1 m) :
    Carried runDir s'.1 m := by
  refine ⟨h.version, h.entry_version, h.file_kind, fun e he => ?_⟩
  obtain ⟨m', hm, hmem, hkeeps⟩ := h.kept e he
  refine ⟨m', hs.manifest.trans hm, hmem, ?_⟩
  simpa only [SweepKeeps, hs.mentioned] using hkeeps

lemma Loaded.rest (h : Loaded runDir names c i m s) (hs : Undisturbed runDir names c i s s') :
    Loaded runDir names c i m s' := by
  have hfrozen := hs.frozen h.inv h.stage
  refine ⟨hs.inv h.inv, hs.stage.trans h.stage, hs.artefact h.inv _ h.artefact,
    hfrozen.carried h.carried, fun hdone => h.other ?_⟩
  rw [← hfrozen.stage, hdone]

lemma Appended.rest (h : Appended runDir names c i s) (hs : Undisturbed runDir names c i s s') :
    Appended runDir names c i s' := by
  have hfrozen := hs.frozen h.inv h.stage
  have hinv := hs.inv h.inv
  refine ⟨hinv, hs.stage.trans h.stage, ⟨hinv.safe, fun m hm e he => ?_⟩, fun m hm => ?_⟩
  · rw [hfrozen.manifest] at hm
    obtain ⟨bytes, hfile, hsha⟩ := h.recorded.recorded m hm e he
    exact ⟨bytes, hfrozen.files _ _ (h.inv.safe.listed m hm e he) hfile, hsha⟩
  · exact h.entry m (by rw [← hfrozen.manifest, hm])

lemma Committed.rest (h : Committed runDir names c i s) (hs : Undisturbed runDir names c i s s') :
    Committed runDir names c i s' :=
  ⟨hs.inv h.inv, hs.stage.trans h.stage⟩

end Assertions

section Steps

variable {runDir : Path} {names : String → Prop} {c : Bool → Commit B} {i : Bool}
  {s s' : Shared B} {m : Manifest}

/-- A commit that is done stays so while its entry, its marker and the log do. -/
lemma Finished.congr {cm : Commit B} {w w' : World B} (h : Finished runDir cm w)
    (hentry : ∀ m, manifestAt w'.disk runDir = some m → cm.entry ∈ m.entries)
    (hmarker : fileAt w'.disk (markersDir runDir ++ [cm.cfg.phase ++ ".completed"]) =
      fileAt w.disk (markersDir runDir ++ [cm.cfg.phase ++ ".completed"]))
    (hlog : ∀ marker ∈ w.log, marker ∈ w'.log) : Finished runDir cm w' := by
  obtain ⟨marker, hmem, hphase⟩ := h.logged
  refine ⟨hentry, ?_, marker, hlog _ hmem, hphase⟩
  rw [← h.marker]
  exact hashOf_congr fun _ => hmarker

/-- The loaded manifest has the entry of a commit that is done. -/
lemma Finished.loaded {cm : Commit B} {w : World B} (h : Finished runDir cm w)
    (hw : Safe runDir names w) (hload : manifestLoad w.disk runDir = .ok m) :
    cm.entry ∈ m.entries := by
  classical
  obtain ⟨m₀, hm₀⟩ := hw.consistent
  obtain ⟨m', hload', hentries⟩ :=
    manifestLoad_entries hm₀.manifest hm₀.version hm₀.entry_version
  obtain rfl : m' = m := by
    rw [hload] at hload'
    cases hload'
    rfl
  have hreferenced : Referenced w.disk (markersDir runDir) cm.entry.sha256 :=
    referenced_of_mentioned ⟨_, h.marker⟩
  rw [hentries, List.mem_filter]
  exact ⟨h.entry m₀ hm₀.manifest, decide_eq_true fun _ => hreferenced⟩

lemma load_step {a : Except ManifestError Manifest} (hs : Placed runDir names c i s)
    (halone : s.2 (!i) ≠ .inside) (h : taking i (.loadManifest runDir) s a s') :
    Undisturbed runDir names c (!i) s s' ∧
      ∀ m, a = .ok m → Loaded runDir names c i m s' := by
  obtain ⟨⟨hsame, hload⟩, hstage⟩ := id h
  have hinv := hs.waiting.inv
  have hartefact : ∀ q b, fileAt s.1.disk q = some b → fileAt s'.1.disk q = some b := by
    rw [hsame]
    exact fun _ _ hb => hb
  cases a with
  | error e =>
      have hstay : s'.2 = s.2 := hstage.trans (Function.update_eq_self i s.2)
      have heq : s' = s := Prod.ext hsame hstay
      exact ⟨undisturbed_of_alone h halone (fun h => heq ▸ h) fun _ => hartefact _, nofun⟩
  | ok m =>
      have hinside : s'.2 = Function.update s.2 i .inside := hstage
      have hself : s'.2 i = .inside := by rw [hinside, Function.update_self]
      have hother : s'.2 (!i) = s.2 !i := by rw [hinside, stage_other]
      have hinv' : Inv runDir names c s' := by
        refine ⟨?_, both (i := i) (fun _ => ?_) (fun hj => ?_), both (i := i) (fun hj => ?_)
          fun hj => ?_⟩
        · rw [hsame]
          exact hinv.safe.mono fun name hname => hname.step (by simp [hself]) hother
        · rwa [hother]
        · exact absurd (hother ▸ hj) halone
        · rw [hself] at hj
          cases hj
        · rw [hsame]
          exact hinv.finished (!i) (hother ▸ hj)
      refine ⟨undisturbed_of_alone h halone (fun _ => hinv') fun _ => hartefact _,
        fun m₁ hm₁ => ?_⟩
      obtain rfl : m = m₁ := by
        cases hm₁
        rfl
      refine ⟨hinv', hself, hartefact _ _ hs.artefact, ?_, fun hdone => ?_⟩
      · rw [hsame]
        exact carried_of_load hinv.safe (hload m rfl)
      · exact (hinv.finished (!i) (hother ▸ hdone)).loaded hinv.safe (hload m rfl)

lemma append_taken {a : Except String Unit} (hapart : Apart runDir names c)
    (hs : Loaded runDir names c i m s)
    (h : taking i (.writeManifest runDir { m with entries := m.entries ++ [(c i).entry] }) s a s') :
    Undisturbed runDir names c (!i) s s' ∧ (a = .ok () → Appended runDir names c i s') := by
  obtain ⟨hact, hstage⟩ := id h
  have hstay : s'.2 = s.2 := hstage.trans (Function.update_eq_self i s.2)
  have hinv := hs.inv
  have halone := hinv.alone i hs.stage
  have hlisted : Listed names c s.2 (c i).entry.name := Or.inr ⟨i, by simp [hs.stage], rfl⟩
  have hrecorded : Recorded s.1.disk runDir (c i).entry := ⟨_, hs.artefact, rfl⟩
  have hguard : ∀ m, manifestAt s.1.disk runDir = some m → ∀ e ∈ m.entries,
      SweepKeeps s.1.disk runDir e → join runDir e.name ≠ manifestPath runDir :=
    fun m hm e he _ => (hapart.clear (hinv.safe.listed m hm e he)).not_manifest
  rcases CommitProtocol.append_step hinv.safe (fun _ h => h) hlisted hs.carried hrecorded rfl
    (hapart.kind i) (hapart.output i).not_manifest hguard hact with
    ⟨hok, hlog, hall⟩ | ⟨hsame, hfailed⟩
  · have hwrite : ∃ t', writeFile s.1.disk (manifestPath runDir) (RunFormat.ofManifest
        { m with entries := m.entries ++ [(c i).entry] }) = some t' ∧ s'.1 = ⟨t', s.1.log⟩ := by
      rcases hact with ⟨t', hwrite, hdisk, _⟩ | ⟨_, message, herror⟩
      · exact ⟨t', hwrite, hdisk⟩
      · rw [hok] at herror
        cases herror
    obtain ⟨t', hwrite, hdisk⟩ := hwrite
    have hother : ∀ q, q ≠ manifestPath runDir → fileAt s'.1.disk q = fileAt s.1.disk q := by
      rw [hdisk]
      exact fun q => writeFile_other hwrite
    have hmanifest : ∀ m', manifestAt s'.1.disk runDir = some m' →
        m'.entries = m.entries ++ [(c i).entry] := by
      intro m' hm'
      rw [hdisk, manifestAt_written hwrite] at hm'
      cases hm'
      rfl
    rw [← hstay] at hall
    have hinv' : Inv runDir names c s' := by
      refine ⟨hall.safe, fun j hj => ?_, both (i := i) (fun hj => ?_) fun hj => ?_⟩
      · rw [hstay] at hj ⊢
        exact hinv.alone j hj
      · rw [hstay, hs.stage] at hj
        cases hj
      · rw [hstay] at hj
        refine (hinv.finished (!i) hj).congr (fun m' hm' => ?_) ?_ ?_
        · rw [hmanifest m' hm']
          exact List.mem_append_left _ (hs.other hj)
        · exact hother _ (by simp [markersDir, manifestPath])
        · rw [hlog]
          exact fun _ hm => hm
    refine ⟨undisturbed_of_alone h halone (fun _ => hinv') fun _ b hb => ?_, fun _ => ?_⟩
    · rwa [hother _ (hapart.output !i).not_manifest]
    · refine ⟨hinv', hstay ▸ hs.stage, hall, fun m' hm' => ?_⟩
      rw [hmanifest m' hm']
      simp
  · have heq : s' = s := Prod.ext hsame hstay
    exact ⟨undisturbed_of_alone h halone (fun h => heq ▸ h) fun _ b hb => heq ▸ hb,
      fun hok => absurd hok hfailed⟩

lemma completed_taken {a : Except String Unit} (hapart : Apart runDir names c)
    (hs : Appended runDir names c i s)
    (h : taking i (.writeMarker runDir (.completed (c i).marker)) s a s') :
    Undisturbed runDir names c (!i) s s' ∧ (a = .ok () → Committed runDir names c i s') := by
  obtain ⟨hact, hstage⟩ := id h
  have hinv := hs.inv
  have halone := hinv.alone i hs.stage
  have hguard : CompletedSafe runDir s.1.disk (c i).marker := by
    refine ⟨hapart.name i, fun m hm e he _ => ?_⟩
    exact (hapart.clear (hinv.safe.listed m hm e he)).not_completed _ (endsWith_completed _)
  have hsafe := completed_step hs.recorded hguard hact
  have hpath : markerPath runDir (.completed (c i).marker) =
      markersDir runDir ++ [(c i).cfg.phase ++ ".completed"] :=
    markerPath_eq (isName_completed (hapart.name i))
  rcases hact with ⟨t', hwrite, hdisk, rfl⟩ | ⟨hsame, message, rfl⟩
  · rw [hpath] at hwrite
    have hother : ∀ q, q ≠ markersDir runDir ++ [(c i).cfg.phase ++ ".completed"] →
        fileAt s'.1.disk q = fileAt s.1.disk q := by
      rw [hdisk]
      exact fun q => writeFile_other hwrite
    have hdone : s'.2 = Function.update s.2 i .done := hstage
    have hself : s'.2 i = .done := by rw [hdone, Function.update_self]
    have hstays : s'.2 (!i) = s.2 !i := by rw [hdone, stage_other]
    have hmanifest : manifestAt s'.1.disk runDir = manifestAt s.1.disk runDir :=
      manifestAt_congr (hother _ (by simp [manifestPath, markersDir]))
    have hlog : s'.1.log = .completed (c i).marker :: s.1.log := by rw [hdisk]
    have hinv' : Inv runDir names c s' := by
      refine ⟨hsafe.mono fun name hname => hname.step (by simp [hself]) hstays,
        both (i := i) (fun hj => ?_) (fun _ => ?_), both (i := i) (fun _ => ?_) fun hj => ?_⟩
      · rw [hself] at hj
        cases hj
      · rw [Bool.not_not, hself]
        simp
      · refine ⟨fun m hm => hs.entry m (by rw [← hmanifest, hm]), ?_, (c i).marker, ?_, rfl⟩
        · have hfile : fileAt s'.1.disk
              (markersDir runDir ++ [(c i).cfg.phase ++ ".completed"]) =
              some (RunFormat.ofCompleted (c i).marker) := by
            rw [hdisk]
            exact writeFile_self hwrite
          simp [hashOf, hfile, RunFormat.readCompleted_ofCompleted, Commit.marker]
        · rw [hlog]
          exact List.mem_cons_self
      · refine (hinv.finished (!i) (hstays ▸ hj)).congr (fun m hm => ?_) (hother _ ?_) ?_
        · exact (hinv.finished (!i) (hstays ▸ hj)).entry m (by rw [← hmanifest, hm])
        · have hphases := hapart.phases i
          simpa using hphases.symm
        · rw [hlog]
          exact fun _ hm => List.mem_cons_of_mem _ hm
    refine ⟨undisturbed_of_alone h halone (fun _ => hinv') fun _ b hb => ?_,
      fun _ => ⟨hinv', hself⟩⟩
    rwa [hother _ ((hapart.output !i).not_completed _ (endsWith_completed _))]
  · have heq : s' = s := Prod.ext hsame (hstage.trans (Function.update_eq_self i s.2))
    exact ⟨undisturbed_of_alone h halone (fun h => heq ▸ h) fun _ b hb => heq ▸ hb, by simp⟩

end Steps

section Runs

variable {runDir : Path} {names : String → Prop} {c : Bool → Commit B} {i : Bool}
  {s s' : Shared B} {o : Op B} {a : Answer B o}

/-- The operations of a commit that respects the other one. -/
abbrev respecting (i : Bool) : Semantics (RunSig B) (Shared B) := guarded (Alone i) (taking i)

/-- An operation between two assertions that the other commit keeps. -/
lemma ensures_op {P : Shared B → Prop} {Q : Answer B o → Shared B → Prop}
    (hP : ∀ {s s'}, P s → Undisturbed runDir names c i s s' → P s')
    (hQ : ∀ {a s s'}, Q a s → Undisturbed runDir names c i s s' → Q a s')
    (hstep : ∀ {s a s'}, P s → Alone i o s → taking i o s a s' →
      Undisturbed runDir names c (!i) s s' ∧ Q a s') (hs : P s) :
    Ensures (respecting i) (contract runDir names c i) Q
      (op (S := RunSig B) o : Run B PhaseError (Answer B o)) s := by
  refine Ensures.op fun s₁ hs₁ a s₂ hact => ?_
  obtain ⟨hguar, hpost⟩ := hstep (hP hs hs₁) hact.1 hact.2
  exact ⟨hguar, fun s₃ hs₃ => hQ hpost hs₃⟩

lemma orThrow_ensures {wrap : String → PhaseError} {answer : Except String Unit}
    {Q : Shared B → Prop} (hQ : ∀ {s s'}, Q s → Undisturbed runDir names c i s s' → Q s')
    (h : answer = .ok () → Q s) :
    Ensures (respecting i) (contract runDir names c i) (fun _ => Q) (orThrow wrap answer) s := by
  cases answer with
  | ok u => exact Ensures.pure fun s' hs' => hQ (h rfl) hs'
  | error e => exact Ensures.throw

lemma createDir_ensures {wrap : String → PhaseError} {p : Path} {P : Shared B → Prop}
    (hP : ∀ {s s'}, P s → Undisturbed runDir names c i s s' → P s')
    (hstep : ∀ {s a s'}, P s → taking i (.createDirAll p) s a s' →
      Undisturbed runDir names c (!i) s s' ∧ P s') (hs : P s) :
    Ensures (respecting i) (contract runDir names c i) (fun _ => P) (createDirOr wrap p) s := by
  have hop := ensures_op (o := .createDirAll p) (Q := fun _ => P) hP hP
    (fun h _ hact => hstep h hact) hs
  exact Ensures.bind (hop.mono fun _ s' h => orThrow_ensures hP fun _ => h)

lemma same_stage (hstage : advance o a (s.2 i) = s.2 i) (h : taking i o s a s') :
    s'.2 = s.2 := by
  rw [h.2, hstage, Function.update_eq_self]

lemma Waiting.step (hapart : Apart runDir names c) (hs : Waiting runDir names c i s)
    (ho : ¬ Committing o) (hstage : advance o a (s.2 i) = s.2 i)
    (hclear : Clears runDir (Guarded runDir names c s.2 i) o) (h : taking i o s a s') :
    Undisturbed runDir names c (!i) s s' ∧ Waiting runDir names c i s' := by
  have hquiet := quiet_step hapart ho hstage hclear h
  refine ⟨hquiet, hquiet.inv hs.inv, ?_⟩
  rw [same_stage hstage h, hs.stage]

lemma atomicWrite_ensures (hapart : Apart runDir names c) (hs : Waiting runDir names c i s) :
    Ensures (respecting i) (contract runDir names c i) (fun _ => Placed runDir names c i)
      (atomicWrite runDir (c i).cfg.artefactName (c i).bytes) s := by
  unfold atomicWrite
  split
  · exact Ensures.throw
  · have hop := ensures_op (o := .writeFile ((c i).path runDir) (c i).bytes)
      (Q := fun a s' => a = .ok () → Placed runDir names c i s') Waiting.rest
      (fun h hs hok => (h hok).rest hs) ?_ hs
    · exact Ensures.bind (hop.mono fun a s' h => orThrow_ensures Placed.rest h)
    · intro s a s' h _ hact
      have hclear : Clears runDir (Guarded runDir names c s.2 i)
          (.writeFile ((c i).path runDir) (c i).bytes) :=
        FileClear.with_free (hapart.output i) (hapart.artefact_free h.stage)
      obtain ⟨hguar, hwaiting⟩ :=
        h.step (o := .writeFile ((c i).path runDir) (c i).bytes) hapart not_false rfl hclear hact
      refine ⟨hguar, fun hok => ⟨hwaiting, ?_⟩⟩
      rcases hact.1 with ⟨t', hwrite, hdisk, _⟩ | ⟨_, message, herror⟩
      · rw [hdisk]
        exact writeFile_self hwrite
      · rw [hok] at herror
        cases herror

lemma loadOrNew_ensures (hapart : Apart runDir names c) {runId : String}
    (hs : Placed runDir names c i s) :
    Ensures (respecting i) (contract runDir names c i)
      (fun m => Loaded runDir names c i m) (loadOrNew runDir runId) s := by
  have hlook := ensures_op (o := .occupied (manifestPath runDir))
    (Q := fun a s' => a = true ∧ Placed runDir names c i s') Placed.rest
    (fun h hs => ⟨h.1, h.2.rest hs⟩) ?_ hs
  · refine Ensures.bind (hlook.mono fun there s₁ h => ?_)
    obtain ⟨rfl, hplaced⟩ := h
    rw [if_pos rfl]
    have hload := ensures_op (o := .loadManifest runDir)
      (Q := fun a s' => ∀ m, a = .ok m → Loaded runDir names c i m s') Placed.rest
      (fun h hs m hm => (h m hm).rest hs) (fun h halone hact => load_step h halone hact) hplaced
    refine Ensures.bind (hload.mono fun answer s₂ h => ?_)
    cases answer with
    | error e => exact Ensures.throw
    | ok m => exact Ensures.pure fun s₃ hs₃ => (h m rfl).rest hs₃
  · intro s a s' h _ hact
    obtain ⟨hguar, hwaiting⟩ := h.waiting.step (o := .occupied (manifestPath runDir)) hapart
      not_false rfl trivial hact
    obtain ⟨hsame, hanswer⟩ := hact.1
    refine ⟨hguar, ?_, hwaiting, hsame ▸ h.artefact⟩
    obtain ⟨m, hm⟩ := h.waiting.inv.safe.consistent
    obtain ⟨bytes, hfile, _⟩ := Option.bind_eq_some_iff.mp hm.manifest
    rw [hanswer, occupied, fileAt_eq_some.mp hfile]
    rfl

lemma append_ensures (hapart : Apart runDir names c) {m : Manifest}
    (hs : Loaded runDir names c i m s) :
    Ensures (respecting i) (contract runDir names c i) (fun _ => Appended runDir names c i)
      (append runDir m (c i).entry) s := by
  have hop := ensures_op (o := .writeManifest runDir
      { m with entries := m.entries ++ [(c i).entry] })
    (Q := fun a s' => a = .ok () → Appended runDir names c i s') Loaded.rest
    (fun h hs hok => (h hok).rest hs) (fun h _ hact => append_taken hapart h hact) hs
  exact Ensures.bind (hop.mono fun a s' h => orThrow_ensures Appended.rest h)

lemma Appended.createDir {a : Except String Unit} (hapart : Apart runDir names c)
    (hs : Appended runDir names c i s)
    (h : taking i (.createDirAll (markersDir runDir)) s a s') :
    Undisturbed runDir names c (!i) s s' ∧ Appended runDir names c i s' := by
  have hclear : ¬ heartbeatPath runDir <+: markersDir runDir := not_heartbeat_below (by decide)
  have hquiet := quiet_step (o := .createDirAll (markersDir runDir)) hapart not_false rfl hclear h
  have hstay := same_stage (o := .createDirAll (markersDir runDir)) rfl h
  have hrecorded := createDir_recorded hs.recorded hclear h.1
  refine ⟨hquiet, hquiet.inv hs.inv, hstay ▸ hs.stage, hstay ▸ hrecorded, fun m hm => ?_⟩
  refine hs.entry m ?_
  rcases h.1 with ⟨t', hnext, hdisk, _⟩ | ⟨hsame, _⟩
  · rw [← hm, hdisk, manifestAt_congr (by rw [createDirAll_fileAt hnext])]
  · rw [← hm, hsame]

lemma completedMarker_ensures (hapart : Apart runDir names c)
    (hs : Appended runDir names c i s) :
    Ensures (respecting i) (contract runDir names c i) (fun _ => Committed runDir names c i)
      (writeMarker runDir (.completed (c i).marker)) s := by
  have hdir : Ensures (respecting i) (contract runDir names c i)
      (fun _ => Appended runDir names c i) (createDirOr PhaseError.marker (markersDir runDir)) s :=
    createDir_ensures Appended.rest (fun h hact => h.createDir hapart hact) hs
  refine Ensures.bind (hdir.mono fun _ s₁ hs₁ => ?_)
  have hop := ensures_op (o := .writeMarker runDir (.completed (c i).marker))
    (Q := fun a s' => a = .ok () → Committed runDir names c i s') Appended.rest
    (fun h hs hok => (h hok).rest hs) (fun h _ hact => completed_taken hapart h hact) hs₁
  exact Ensures.bind (hop.mono fun a s' h => orThrow_ensures Committed.rest h)

/-- A commit that respects the other one and does not fail is committed at its end. -/
lemma commit_ensures (hapart : Apart runDir names c) (hs : Waiting runDir names c i s) :
    Ensures (respecting i) (contract runDir names c i) (fun _ => Committed runDir names c i)
      (c i).program s := by
  have hcreate : ∀ {p : Path} {s : Shared B}, ¬ heartbeatPath runDir <+: p →
      Waiting runDir names c i s →
      Ensures (respecting i) (contract runDir names c i) (fun _ => Waiting runDir names c i)
        (createDirOr PhaseError.io p) s := fun {p} _ hp hs =>
    createDir_ensures Waiting.rest
      (fun h hact => h.step (o := .createDirAll p) hapart not_false rfl hp hact) hs
  have hsuccess : Ensures (respecting i) (contract runDir names c i)
      (fun entry s' => entry = (c i).entry ∧ Appended runDir names c i s')
      (commitSuccess runDir (c i).cfg (c i).bytes (c i).attempt (c i).inp.runId) s := by
    refine Ensures.bind ((hcreate not_heartbeat_runDir hs).mono fun _ s₁ hs₁ => ?_)
    refine Ensures.bind ((hcreate (hapart.parent i) hs₁).mono fun _ s₂ hs₂ => ?_)
    refine Ensures.bind ((atomicWrite_ensures hapart hs₂).mono fun _ s₃ hs₃ => ?_)
    refine Ensures.bind ((loadOrNew_ensures hapart hs₃).mono fun m s₄ hs₄ => ?_)
    refine Ensures.bind ((append_ensures hapart hs₄).mono fun _ s₅ hs₅ => ?_)
    exact Ensures.pure fun s₆ hs₆ => ⟨rfl, hs₅.rest hs₆⟩
  unfold Commit.program PhaseRunner.commit
  rw [hapart.dir i]
  refine Ensures.bind (hsuccess.mono fun entry s₁ h => ?_)
  obtain ⟨rfl, hs₁⟩ := h
  refine Ensures.bind ((completedMarker_ensures hapart hs₁).mono fun _ s₂ hs₂ => ?_)
  exact Ensures.pure fun s₃ hs₃ => hs₂.rest hs₃

end Runs

section Kept

variable {runDir : Path} {names : String → Prop} {c : Bool → Commit B} {w w' : World B}
  {stage : Bool → Stage}

abbrev programs (c : Bool → Commit B) (i : Bool) :
    Prog (RunSig B) (Except PhaseError PhaseOutcome) := (c i).program

lemma contracts_fit (i j : Bool) (hne : i ≠ j) (e : Event (RunSig B)) (s s' : Shared B)
    (h : (contract runDir names c i).guarantee e s s') :
    (contract runDir names c j).rely s s' := by
  obtain rfl : j = !i := Bool.eq_not.mpr hne.symm
  exact h

lemma Inv.start (hw : Safe runDir names w) : Inv runDir names c (w, fun _ => .before) :=
  ⟨hw.mono fun _ h => Or.inl h, nofun, nofun⟩

end Kept

section TwoCommits

open CrashHistories Resume

def commitOf (name output answer : String) : Commit Doc where
  cfg := .single name "claude" "Go" output
  inp := askInputs name
  output := ⟨.single, name, [], none, none, none, none⟩
  verify := none
  bytes := .text answer
  attempt := 0

def twoCommits : Bool → Commit Doc
  | false => commitOf "design" "design.md" "one"
  | true => commitOf "review" "review.md" "two"

def quietScript : Script := ⟨fun _ => .error (.network "down"), fun _ => .ok .pass⟩

/-- The operations of one commit, carried out with its stage. -/
def handleTaking (i : Bool) (o : Op Doc) (s : Shared Doc) : Answer Doc o × Shared Doc :=
  let step := handle quietScript o s.1
  (step.1, step.2, Function.update s.2 i (advance o step.1 (s.2 i)))

lemma handleTaking_takes (i : Bool) (o : Op Doc) (s : Shared Doc) :
    taking i o s (handleTaking i o s).1 (handleTaking i o s).2 :=
  ⟨handle_performs quietScript o s.1, rfl⟩

lemma twoCommits_apart : Apart ["run"] (fun _ => False) twoCommits where
  dir := by decide
  name := by decide
  phases := by decide
  kind := by decide
  output i := by
    have hclear : ∀ s ∉ ["manifest.json", "heartbeat.json", "markers"],
        ProtocolClear ["run"] (["run"] ++ [s]) := fun s hs => fileClear_below hs not_false
    cases i with
    | false => exact hclear "design.md" (by decide)
    | true => exact hclear "review.md" (by decide)
  parent := by decide
  outputs := by decide
  listed _ h := h.elim
  free _ _ h := h.elim

/-- The first commit from its start to its end. -/
def afterFirst : List (Event (RunSig Doc)) × Prog (RunSig Doc) (Except PhaseError PhaseOutcome) ×
    Shared Doc :=
  evalFor (handleTaking false) 8 (programs twoCommits false) (newRun, fun _ => .before)

def afterSecond : List (Event (RunSig Doc)) × Prog (RunSig Doc) (Except PhaseError PhaseOutcome) ×
    Shared Doc :=
  evalFor (handleTaking true) 8 (programs twoCommits true) afterFirst.2.2

/-- A run directory in which both phases are locked. -/
def bothLocked : World Doc :=
  let lock (phase : String) (w : World Doc) : World Doc :=
    (eval (handle quietScript) (acquireLock ["run"] phase "lock") w).2.2
  lock "review" (lock "design" newRun)

/-- The second commit goes from its start to its end after the first one has loaded the
manifest. -/
def lostTurns : List Bool :=
  List.replicate 5 false ++ List.replicate 8 true ++ List.replicate 3 false

end TwoCommits

end Loker.ConcurrentCommits
