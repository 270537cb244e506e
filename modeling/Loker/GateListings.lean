import Loker.GateHistory
import Loker.Summary
import Loker.TextSearch

/-! The two listings of waiting gates, over the files that the gates of many phases and runs leave
behind. -/

namespace Loker.GateListings

open TextOps Programs HumanGate GateHistory Transitions
open PhaseLock (Bytes textBytes readToString readToString_textBytes validatePhaseName)
open Summary (rsplitOnce)

section Names

/-- The parts before and after the last dot. A dot in front of a name does not part it. -/
def rsplitFileAtDot (file : String) : Option String × Option String :=
  if file = ".." then (some file, none)
  else
    match rsplitOnce file "." with
    | none => (none, some file)
    | some (before, after) => if before = "" then (some file, none) else (some before, some after)

def fileStem (file : String) : Option String :=
  (rsplitFileAtDot file).1.or (rsplitFileAtDot file).2

def extension (file : String) : Option String :=
  (rsplitFileAtDot file).1.bind fun _ => (rsplitFileAtDot file).2

lemma contains_dot {s : String} : contains s "." = true ↔ '.' ∈ s.toList := by
  rw [contains, decide_eq_true_eq]
  simp [List.singleton_infix_iff]

lemma rsplitOnce_append (before : String) {after : String} (h : '.' ∉ after.toList) :
    rsplitOnce (before ++ "." ++ after) "." = some (before, after) := by
  have hchars : (before ++ "." ++ after).toList = before.toList ++ '.' :: after.toList := by
    simp
  have hcontains : contains (before ++ "." ++ after) "." = true := by
    rw [contains_dot, hchars]
    exact List.mem_append_right _ List.mem_cons_self
  have hreverse : (before ++ "." ++ after).toList.reverse =
      after.toList.reverse ++ '.' :: before.toList.reverse := by simp [hchars]
  have hafter : takeBefore ".".toList.reverse (before ++ "." ++ after).toList.reverse =
      after.toList.reverse := by
    rw [hreverse]
    refine (TextSearch.takeBefore_append_iff (by simp) (List.prefix_append ['.'] _)).mpr
      fun i hi hoccurs => ?_
    have hget := hoccurs.get (j := 0) (by simp)
    rw [Nat.add_zero, List.getElem?_append_left hi] at hget
    exact h (List.mem_reverse.mp (List.mem_of_getElem? hget))
  have hlength : (before ++ "." ++ after).toList.length - after.toList.length - 1 =
      before.toList.length := by
    rw [hchars, List.length_append, List.length_cons]
    omega
  rw [rsplitOnce, if_pos hcontains, hafter]
  simp only [List.reverse_reverse]
  rw [show ".".toList.length = 1 from rfl, hlength, hchars, List.take_left, String.ofList_toList,
    String.ofList_toList]

lemma rsplitOnce_some {s before after : String} (h : rsplitOnce s "." = some (before, after)) :
    s = before ++ "." ++ after := by
  have hdot : '.' ∈ s.toList.reverse := by
    rw [List.mem_reverse, ← contains_dot]
    by_contra hnone
    rw [rsplitOnce, if_neg hnone] at h
    cases h
  obtain ⟨l, r, hs, hl⟩ := List.eq_append_cons_of_mem hdot
  have hparts : s = String.ofList r.reverse ++ "." ++ String.ofList l.reverse := by
    apply String.toList_inj.mp
    rw [List.reverse_eq_iff] at hs
    simp [hs]
  have hlast : '.' ∉ (String.ofList l.reverse).toList := by simpa using hl
  rw [hparts, rsplitOnce_append _ hlast] at h
  cases h
  exact hparts

/-- Both ways to read the phase off the name of a file come to the same. -/
lemma json_iff {file phase : String} (hphase : phase ≠ "") :
    (extension file = some "json" ∧ fileStem file = some phase) ↔ file = phase ++ ".json" := by
  constructor
  · rintro ⟨hextension, hstem⟩
    unfold extension at hextension
    unfold fileStem at hstem
    unfold rsplitFileAtDot at hextension hstem
    split at hextension
    · cases hextension
    · next hdots =>
      rw [if_neg hdots] at hstem
      split at hextension
      · cases hextension
      · next before after hsplit =>
        rw [hsplit] at hstem
        by_cases hbefore : before = ""
        · simp [hbefore] at hextension
        · simp only [if_neg hbefore, Option.bind_some, Option.some.injEq] at hextension
          simp only [if_neg hbefore, Option.some_or, Option.some.injEq] at hstem
          rw [rsplitOnce_some hsplit, hextension, hstem, String.append_assoc]
          rfl
  · rintro rfl
    have hsplit : rsplitOnce (phase ++ ".json") "." = some (phase, "json") := by
      have happend := @rsplitOnce_append phase "json" (by simp)
      rwa [String.append_assoc] at happend
    have hdots : phase ++ ".json" ≠ ".." := by
      intro heq
      have hlast := congrArg (fun s => s.toList.getLast?) heq
      simp at hlast
    simp [extension, fileStem, rsplitFileAtDot, hdots, hsplit, hphase]

end Names

section Scanners

/-- What reading a directory gives: an error, or its entries, and any entry may be an error. -/
abbrev ReadDir (α : Type) := Except String (List (Except String α))

/-- An entry of `pending`. A file comes with what reading it gives. -/
inductive PendingEntry where
  | file (name : String) (contents : Except String Bytes)
  | dir (name : String)

/-- A run directory: the text of its manifest, its `pending` directory and the names in its
`responses` directory. -/
structure RunFolder where
  runId : String
  manifest : Option String
  pending : Option (ReadDir PendingEntry)
  responses : List String

inductive RunsEntry where
  | file (name : String)
  | dir (run : RunFolder)

/-- A project directory, by its path and its `runs` directory. -/
structure Root where
  path : String
  runs : Option (ReadDir RunsEntry)

/-- The texts as the listings read them: of a request only the severity and the path of its
artefact, of a manifest only the name of the workflow. -/
class GateView extends GateFormat where
  peekRequest : String → Option (Option String × Option String)
  workflowName : String → Option String
  peekRequest_print : ∀ r : PendingRequest,
    peekRequest (printRequest r) = some (some r.severity.asStr, some r.artefact.path)

structure BlockedEntry where
  runId : String
  phase : String
  severity : HumanSeverity
  openedAt : ℤ
  timeoutAt : Option ℤ
  pendingPath : String
  responsePath : String
  responseDisplayPath : String
  deriving DecidableEq, Repr

structure PendingGate where
  runId : String
  runDir : String
  phase : String
  workflow : String
  severity : String
  artefactPath : String
  pendingFilePath : String
  deriving DecidableEq, Repr

def runDir (root : Root) (run : RunFolder) : String := root.path ++ "/runs/" ++ run.runId

def runPendingPath (root : Root) (run : RunFolder) (file : String) : String :=
  runDir root run ++ "/pending/" ++ file

def readContents (contents : Except String Bytes) : Except String String := do
  match readToString (← contents) with
  | none => .error "stream did not contain valid UTF-8"
  | some text => .ok text

variable [GateView]

def parseRfc3339Utc (value field : String) : Except String ℤ :=
  during ("invalid " ++ field ++ " timestamp '" ++ value ++ "'") (GateFormat.parseRfc3339 value)

def parsePending (runId phase pendingPath responsePath : String)
    (contents : Except String Bytes) : Except String BlockedEntry := do
  let text ← during ("failed to read " ++ pendingPath) (readContents contents)
  let pending ← during ("failed to parse " ++ pendingPath) (GateFormat.parseRequest text)
  if pending.schemaVersion ≠ 1 then
    .error ("unsupported pending schema version " ++ pending.schemaVersion.repr)
  else do
    let openedAt ← parseRfc3339Utc pending.openedAt "opened_at"
    let timeoutAt ← match pending.timeoutAt with
      | none => pure none
      | some value => some <$> parseRfc3339Utc value "timeout_at"
    pure {
      runId
      phase
      severity := pending.severity
      openedAt
      timeoutAt
      pendingPath
      responsePath
      responseDisplayPath := "runs/" ++ runId ++ "/responses/" ++ phase ++ ".json" }

/-- A malformed file is skipped. -/
def blockedEntry (root : Root) (run : RunFolder) : PendingEntry → Option BlockedEntry
  | .dir _ => none
  | .file name contents =>
      if extension name ≠ some "json" then none
      else
        match fileStem name with
        | none => none
        | some phase =>
            if phase = "" then none
            else if phase ++ ".json" ∈ run.responses then none
            else
              (parsePending run.runId phase (runPendingPath root run name)
                (runDir root run ++ "/responses/" ++ phase ++ ".json") contents).toOption

def scanRun (root : Root) : RunsEntry → Except String (List BlockedEntry)
  | .file _ => pure []
  | .dir run =>
      match run.pending with
      | none => pure []
      | some pending => do
          let entries ← during ("failed to read pending directory " ++ runDir root run ++ "/pending")
            pending
          let entries ← entries.mapM id
          pure (entries.filterMap (blockedEntry root run))

/-- By the time of opening, then by run and phase. -/
def blockedOrder (a b : BlockedEntry) : Ordering :=
  (compare a.openedAt b.openedAt).then ((compare a.runId b.runId).then (compare a.phase b.phase))

def scanBlocked (root : Root) : Except String (List BlockedEntry) :=
  match root.runs with
  | none => pure []
  | some runs => do
      let runs ← during ("failed to read runs directory " ++ root.path ++ "/runs") runs
      let found ← runs.mapM fun entry => do scanRun root (← entry)
      pure (found.flatten.insertionSort fun a b => (blockedOrder a b).isLE)

def severityRank (severity : String) : ℕ :=
  if severity = "high" ∨ severity = "critical" then 0
  else if severity = "medium" then 1
  else if severity = "low" then 2
  else 3

/-- A malformed file is listed with defaults. -/
def pendingGate (root : Root) (run : RunFolder) : PendingEntry → Option PendingGate
  | .dir _ => none
  | .file name contents =>
      let phase := (stripSuffix name ".json").getD ""
      if phase = "" then none
      else if phase ++ ".json" ∈ run.responses then none
      else
        let (severity, artefactPath) :=
          ((readContents contents).toOption.bind GateView.peekRequest).elim ("medium", "")
            fun (severity, artefact) => (severity.getD "medium", artefact.getD "")
        some {
          runId := run.runId
          runDir := runDir root run
          phase
          workflow := (run.manifest.bind GateView.workflowName).getD ""
          severity
          artefactPath
          pendingFilePath := runPendingPath root run name }

/-- What cannot be read is passed over. -/
def readable {α : Type} (dir : Option (ReadDir α)) : List α :=
  match dir with
  | some (.ok entries) => entries.filterMap Except.toOption
  | some (.error _) | none => []

def runGates (root : Root) : RunsEntry → List PendingGate
  | .file _ => []
  | .dir run => (readable run.pending).filterMap (pendingGate root run)

def gateOrder (a b : PendingGate) : Ordering :=
  (compare (severityRank a.severity) (severityRank b.severity)).then (compare a.runId b.runId)

def discoverPendingGates (root : Root) : List PendingGate :=
  ((readable root.runs).flatMap (runGates root)).insertionSort fun a b => (gateOrder a b).isLE

end Scanners

section Histories

/-- What happens to the requests of a phase, as far as it matters whether one is unanswered. -/
inductive Mark where
  | request
  | answer
  | consumed
  deriving DecidableEq, Repr

def Event.mark : Event → Mark
  | .opened _ | .asked _ | .autoDecided _ _ => .request
  | .posted _ => .answer
  | .consumed _ => .consumed

/-- The newest marks, back to the last consumed decision. -/
def round (marks : List Mark) : List Mark := marks.takeWhile (· ≠ .consumed)

/-- The latest request has not been answered. What is answered before the request is opened is taken
up as its answer. -/
def Waits (marks : List Mark) : Prop := .request ∈ round marks ∧ .answer ∉ round marks

/-- A phase with a gate. The newest mark comes first. -/
structure Slot where
  cfg : HumanVerifierConfig
  named : validatePhaseName cfg.phase = true
  gate : Gate
  marks : List Mark

/-- A response that is written by hand is an answer as well. -/
def newMarks (g g' : Gate) (act : Act) : List Mark :=
  let events := g'.log.take (g'.log.length - g.log.length)
  match act with
  | .respond _ => .answer :: events.map Event.mark
  | _ => events.map Event.mark

def Slot.next (s : Slot) (gate : Gate) (act : Act) : Slot :=
  { s with gate, marks := newMarks s.gate gate act ++ s.marks }

@[simp] lemma Slot.next_gate (s : Slot) (gate : Gate) (act : Act) : (s.next gate act).gate = gate := rfl

@[simp] lemma Slot.next_cfg (s : Slot) (gate : Gate) (act : Act) : (s.next gate act).cfg = s.cfg := rfl

variable [GateFormat]

/-- The gates of all phases and runs. A step is one of a single gate; to complete or to fail a phase
leaves the files of its gate alone. -/
def step (slots : List Slot) (move : ℕ × Act) : Option (List Slot) := do
  let s ← slots[move.1]?
  let gate ← GateHistory.step s.cfg s.gate move.2
  pure (slots.set move.1 (s.next gate move.2))

def Slot.key (s : Slot) : String × String := (s.cfg.runId, s.cfg.phase)

/-- Nothing has been asked in any phase. -/
structure Initial (slots : List Slot) : Prop where
  start : ∀ s ∈ slots, (∃ clock, s.gate = GateHistory.start clock) ∧ s.marks = []
  distinct : (slots.map Slot.key).Nodup

/-- A pass consumes the decision it has found. -/
def Consumes (cfg : HumanVerifierConfig) (g : Gate) (act : Act) : Prop :=
  ∃ stdout env r, act = .finish stdout env ∧ g.looked = some (.ok (some r)) ∧ r.phase = cfg.phase ∧
    (g.files.response.isSome → env.error .createArchive = none ∧ env.error .rename = none)

/-- No decision is consumed while the pending file of its phase is there. -/
def Cleared (slots : List Slot) (move : ℕ × Act) : Prop :=
  ∀ s, slots[move.1]? = some s → Consumes s.cfg s.gate move.2 → s.gate.files.pending = none

end Histories

section Effects

variable {cfg : HumanVerifierConfig} {g g' : Gate} {act : Act} {stdout : String} {env : PassEnv}

/-- What a step does to the files of a gate and to its marks. -/
inductive Effect (cfg : HumanVerifierConfig) (g g' : Gate) (act : Act) : Prop where
  | quiet (marks : newMarks g g' act = []) (files : g'.files = g.files)
      (kept : ¬ Consumes cfg g act)
  | answered (marks : newMarks g g' act = [.answer]) (pending : g'.files.pending = g.files.pending)
      (response : g'.files.response.isSome) (kept : ¬ Consumes cfg g act)
  | consumed (marks : newMarks g g' act = [.consumed])
      (pending : g'.files.pending = g.files.pending) (response : g'.files.response = none)
      (consumes : Consumes cfg g act)
  | requested (some : .request ∈ newMarks g g' act) (all : ∀ m ∈ newMarks g g' act, m = .request)
      (pending : g'.files.pending.isSome) (response : g'.files.response = g.files.response)
      (kept : ¬ Consumes cfg g act)

lemma newMarks_same (hlog : g'.log = g.log) (hact : ∀ bytes, act ≠ .respond bytes) :
    newMarks g g' act = [] := by
  unfold newMarks
  cases act with
  | respond bytes => exact absurd rfl (hact bytes)
  | _ => simp [hlog]

lemma newMarks_finish {events : List Event} (hlog : g'.log = events ++ g.log) :
    newMarks g g' (.finish stdout env) = events.map Event.mark := by
  simp [newMarks, hlog]

lemma not_consumes (hact : ∀ stdout env, act ≠ .finish stdout env) : ¬ Consumes cfg g act := by
  rintro ⟨stdout, env, -, rfl, -⟩
  exact hact stdout env rfl

lemma quiet_same (hlog : g'.log = g.log) (hfiles : g'.files = g.files)
    (hanswer : ∀ bytes, act ≠ .respond bytes) (hpass : ∀ stdout env, act ≠ .finish stdout env) :
    Effect cfg g g' act :=
  .quiet (newMarks_same hlog hanswer) hfiles (not_consumes hpass)

lemma callOk_ok {call : Call} {u : Unit} (h : callOk env call = .ok u) : env.error call = none := by
  unfold callOk at h
  split at h
  · cases h
  · next hnone => exact hnone

lemma consumeResponse_error {files : GateFiles} {message : String}
    (h : consumeResponse cfg env files = .error message) :
    ¬ (files.response.isSome → env.error .createArchive = none ∧ env.error .rename = none) := by
  intro hcalls
  unfold consumeResponse at h
  split at h
  · cases h
  · next hsome =>
    obtain ⟨harchive, hrename⟩ := hcalls (by rw [hsome]; rfl)
    simp [callOk, harchive, hrename, during, Except.mapError, bind, Except.bind, pure,
      Except.pure] at h

lemma consumeResponse_calls {files files' : GateFiles} (h : consumeResponse cfg env files = .ok files')
    (hsome : files.response.isSome) : env.error .createArchive = none ∧ env.error .rename = none := by
  obtain ⟨bytes, hbytes⟩ := Option.isSome_iff_exists.mp hsome
  unfold consumeResponse at h
  rw [hbytes] at h
  obtain ⟨u, harchive, h⟩ := bind_eq_ok h
  obtain ⟨v, hrename, -⟩ := bind_eq_ok h
  exact ⟨callOk_ok (during_ok harchive), callOk_ok (during_ok hrename)⟩

/-- A pass without a response asks or decides by itself. -/
lemma passEvents_none (cfg : HumanVerifierConfig) (p : Pass) (now : ℤ) :
    passEvents cfg (.ok none) p now = [.asked now] ∨ ∃ outcome, passEvents cfg (.ok none) p now = [.autoDecided outcome now] := by
  unfold passEvents
  split
  · exact Or.inl rfl
  · split
    · exact Or.inr ⟨_, rfl⟩
    · exact Or.inr ⟨_, rfl⟩
    · exact Or.inl rfl
    · exact Or.inl rfl

/-- Neither does a pass with a response that is not for the phase. -/
lemma passEvents_other {looked : Except String (Option HumanResponse)} {result : VerifyResult}
    {timeoutAt : Option String} {now : ℤ} (hne : looked ≠ .ok none)
    (hphase : ∀ r, looked = .ok (some r) → r.phase ≠ cfg.phase) :
    passEvents cfg looked (.done result (defaultReport cfg timeoutAt)) now = [] := by
  match looked with
  | .ok none => exact absurd rfl hne
  | .ok (some r) => simp [passEvents, defaultReport, hphase r rfl]
  | .error _ => simp [passEvents, defaultReport]

variable [GateFormat]

/-- The second half of a pass consumes a decision, puts a request, or does neither. -/
lemma effect_finish {looked : Except String (Option HumanResponse)}
    (hlooked : g.looked = some looked) :
    Effect cfg g (g.finished cfg stdout env looked) (.finish stdout env) := by
  have hkept : (∀ r, looked = .ok (some r) → r.phase ≠ cfg.phase) →
      ¬ Consumes cfg g (.finish stdout env) := by
    rintro hphase ⟨_, _, r, -, hr, hp, -⟩
    exact hphase r (Option.some.inj (hlooked.symm.trans hr)) hp
  cases hfinish : finish cfg stdout env looked g.files with
  | error message =>
      have hg : g.finished cfg stdout env looked = { g with clock := env.now, looked := none } := by
        simp only [Gate.finished, hfinish]
      rw [hg]
      refine .quiet (newMarks_same rfl (by simp)) rfl ?_
      rintro ⟨stdout', env', r, hact, hr, hphase, hcalls⟩
      cases hact
      obtain rfl := Option.some.inj (hlooked.symm.trans hr)
      cases hconsume : consumeResponse cfg env g.files with
      | error message' => exact consumeResponse_error hconsume hcalls
      | ok files' => simp [finish, hphase, hconsume, bind, Except.bind, pure, Except.pure] at hfinish
  | ok result =>
      obtain ⟨p, files'⟩ := result
      let events := passEvents cfg looked p env.now ++ openedEvents g.files files' env.created
      have hg : g.finished cfg stdout env looked = { g with
          files := files', clock := env.now, looked := none, log := events ++ g.log } := by
        simp only [Gate.finished, hfinish, events, List.append_assoc]
      rw [hg]
      have hmarks : newMarks g { g with
          files := files', clock := env.now, looked := none, log := events ++ g.log }
          (.finish stdout env) = events.map Event.mark := newMarks_finish rfl
      have hopened : openedEvents g.files files' env.created = [] ∨
          openedEvents g.files files' env.created = [.opened env.created] := by
        unfold openedEvents
        split
        · exact Or.inr rfl
        · exact Or.inl rfl
      rcases finish_cases hfinish with ⟨rfl, payload, hopen, -⟩ |
        ⟨r, result, timeoutAt, rfl, hphase, hconsume, rfl⟩ |
        ⟨hphase, hne, payload, result, timeoutAt, hopen, rfl⟩
      · have hevents : ∃ e, Event.mark e = .request ∧
            events = e :: openedEvents g.files files' env.created := by
          rcases passEvents_none cfg p env.now with he | ⟨outcome, he⟩
          · exact ⟨_, rfl, congrArg (· ++ _) he⟩
          · exact ⟨_, rfl, congrArg (· ++ _) he⟩
        obtain ⟨e, he, hevents⟩ := hevents
        have hall : ∀ m ∈ events.map Event.mark, m = .request := by
          rw [hevents]
          have hmark : Event.mark (.opened env.created) = .request := rfl
          rcases hopened with ho | ho
          · simp [ho, he]
          · simp [ho, he, hmark]
        obtain ⟨hresponse, hpending⟩ := openRequest_files hopen
        refine .requested ?_ (hmarks ▸ hall) ?_ hresponse (hkept (by simp))
        · rw [hmarks, hevents]
          simp [he]
        · rcases hpending with ⟨hsome, rfl⟩ | ⟨-, -, hnew⟩
          · exact hsome
          · exact Option.isSome_iff_exists.mpr ⟨_, hnew⟩
      · obtain ⟨hpending, hresponse⟩ := consumeResponse_files hconsume
        have hevents : events = [.consumed r] := by
          simp [events, openedEvents_same hpending, passEvents, defaultReport, hphase]
        refine .consumed (by rw [hmarks, hevents]; rfl) hpending hresponse
          ⟨stdout, env, r, rfl, hlooked, hphase, fun hsome => ?_⟩
        exact consumeResponse_calls hconsume hsome
      · have hevents : events = openedEvents g.files files' env.created := by
          simp [events, passEvents_other hne hphase]
        obtain ⟨hresponse, hpending⟩ := openRequest_files hopen
        rcases hpending with ⟨-, rfl⟩ | ⟨hnone, -, hnew⟩
        · have hnil : events = [] := hevents.trans (openedEvents_same rfl)
          exact .quiet (by rw [hmarks, hnil]; rfl) rfl (hkept hphase)
        · have hone : events = [.opened env.created] := hevents.trans (openedEvents_new hnone hnew)
          have hmark : events.map Event.mark = [.request] := by rw [hone]; rfl
          refine .requested (by simp [hmarks, hmark]) (by simp [hmarks, hmark]) ?_ hresponse
            (hkept hphase)
          exact Option.isSome_iff_exists.mpr ⟨_, hnew⟩

lemma step_effect (h : GateHistory.step cfg g act = some g') : Effect cfg g g' act := by
  cases act with
  | look error =>
      simp only [GateHistory.step] at h
      split at h
      · cases h
        exact quiet_same rfl rfl (by simp) (by simp)
      · cases h
  | finish stdout env =>
      simp only [GateHistory.step] at h
      split at h
      · cases h
      next looked hlooked =>
      split at h
      · cases h
        exact effect_finish hlooked
      · cases h
  | restart =>
      cases h
      exact quiet_same rfl rfl (by simp) (by simp)
  | postCheck post =>
      simp only [GateHistory.step] at h
      split at h
      · cases h
        exact quiet_same rfl rfl (by simp) (by simp)
      · cases h
        exact quiet_same rfl rfl (by simp) (by simp)
  | postWrite decidedAt =>
      obtain ⟨post, -, rfl⟩ := Option.map_eq_some_iff.mp h
      exact .answered (by simp [newMarks, Event.mark]) rfl rfl (not_consumes (by simp))
  | postFail =>
      cases h
      exact quiet_same rfl rfl (by simp) (by simp)
  | respond bytes =>
      cases h
      exact .answered (by simp [newMarks]) rfl rfl (not_consumes (by simp))

end Effects

section Marks

variable [GateFormat] {s : Slot} {gate : Gate} {act : Act} {marks news : List Mark}
  {slots slots' : List Slot} {move : ℕ × Act}

/-- The marks tell which files of the gate are there, and its pending file is well formed. -/
structure Marked (s : Slot) : Prop where
  traced : Traced s.cfg s.gate
  asked : .request ∈ round s.marks → s.gate.files.pending.isSome
  answered : s.gate.files.response.isSome ↔ .answer ∈ round s.marks

/-- A pending file is that of a request of the current round. -/
def Tidy (s : Slot) : Prop := s.gate.files.pending.isSome → .request ∈ round s.marks

omit [GateFormat] in
lemma round_append (h : .consumed ∉ news) : round (news ++ marks) = news ++ round marks := by
  refine List.takeWhile_append_of_pos fun m hm => ?_
  have hne : m ≠ .consumed := fun heq => h (heq ▸ hm)
  simpa using hne

omit [GateFormat] in
lemma round_consumed : round ([.consumed] ++ marks) = [] := by simp [round]

lemma marked_next (h : Marked s) (hstep : GateHistory.step s.cfg s.gate act = some gate) :
    Marked (s.next gate act) := by
  have htraced : Traced s.cfg gate := step_traced h.traced hstep
  cases step_effect hstep with
  | quiet marks files kept =>
      have hround : round (s.next gate act).marks = round s.marks := by simp [Slot.next, marks]
      refine ⟨htraced, fun hmem => ?_, ?_⟩
      · rw [hround] at hmem
        exact files ▸ h.asked hmem
      · rw [hround, ← h.answered]
        exact files ▸ Iff.rfl
  | answered marks pending response kept =>
      have hround : round (s.next gate act).marks = .answer :: round s.marks := by
        rw [Slot.next, marks]
        exact round_append (by simp)
      refine ⟨htraced, fun hmem => ?_, ?_⟩
      · have hrequest : .request ∈ round s.marks := by simpa [hround] using hmem
        exact pending ▸ h.asked hrequest
      · simp [hround, response]
  | consumed marks pending response consumes =>
      have hround : round (s.next gate act).marks = [] := by
        rw [Slot.next, marks]
        exact round_consumed
      refine ⟨htraced, fun hmem => ?_, ?_⟩
      · simp [hround] at hmem
      · simp [hround, response]
  | requested some all pending response kept =>
      have hround : round (s.next gate act).marks =
          newMarks s.gate gate act ++ round s.marks :=
        round_append fun hmem => absurd (all _ hmem) nofun
      have hanswer : .answer ∉ newMarks s.gate gate act := fun hmem => absurd (all _ hmem) nofun
      refine ⟨htraced, fun _ => pending, ?_⟩
      rw [hround, List.mem_append, or_iff_right hanswer, ← h.answered]
      exact response ▸ Iff.rfl

lemma tidy_next (h : Tidy s) (hstep : GateHistory.step s.cfg s.gate act = some gate)
    (hcleared : Consumes s.cfg s.gate act → s.gate.files.pending = none) :
    Tidy (s.next gate act) := by
  intro hsome
  have hpending : gate.files.pending.isSome := hsome
  cases step_effect hstep with
  | quiet marks files kept =>
      rw [files] at hpending
      simpa [Slot.next, marks] using h hpending
  | answered marks pending response kept =>
      rw [pending] at hpending
      have hround : round (s.next gate act).marks = .answer :: round s.marks := by
        rw [Slot.next, marks]
        exact round_append (by simp)
      rw [hround]
      exact List.mem_cons_of_mem _ (h hpending)
  | consumed marks pending response consumes =>
      rw [pending, hcleared consumes] at hpending
      cases hpending
  | requested some all pending response kept =>
      rw [Slot.next, round_append fun hmem => absurd (all _ hmem) nofun]
      exact List.mem_append_left _ some

/-- After a decision has been consumed nobody waits, whatever is left in the pending file. -/
lemma consumes_next (hstep : GateHistory.step s.cfg s.gate act = some gate)
    (hconsumes : Consumes s.cfg s.gate act) :
    gate.files = ⟨s.gate.files.pending, none⟩ ∧ ¬ Waits (s.next gate act).marks := by
  cases step_effect hstep with
  | quiet _ _ kept | answered _ _ _ kept | requested _ _ _ _ kept => exact absurd hconsumes kept
  | consumed marks pending response consumes =>
      refine ⟨by rw [← pending, ← response], fun hwaits => ?_⟩
      have hrequest := hwaits.1
      rw [Slot.next, marks, round_consumed] at hrequest
      cases hrequest

/-- A tidy gate waits exactly when its request is there and no response is. -/
lemma waits_iff (h : Marked s) (htidy : Tidy s) :
    Waits s.marks ↔ s.gate.files.pending.isSome ∧ s.gate.files.response = none := by
  rw [Waits, ← h.answered, Option.not_isSome_iff_eq_none]
  exact and_congr_left' ⟨h.asked, htidy⟩

lemma step_some (h : step slots move = some slots') : ∃ s gate, slots[move.1]? = some s ∧
    GateHistory.step s.cfg s.gate move.2 = some gate ∧
    slots' = slots.set move.1 (s.next gate move.2) := by
  obtain ⟨s, hs, h⟩ := Option.bind_eq_some_iff.mp h
  obtain ⟨gate, hgate, h⟩ := Option.bind_eq_some_iff.mp h
  exact ⟨s, gate, hs, hgate, (Option.some.inj h).symm⟩

/-- The gates are those of different phases, and their marks tell of their files. -/
structure Settled (slots : List Slot) : Prop where
  marked : ∀ s ∈ slots, Marked s
  distinct : (slots.map Slot.key).Nodup

lemma settled_step (h : Settled slots) (hstep : step slots move = some slots') :
    Settled slots' := by
  obtain ⟨s, gate, hs, hgate, rfl⟩ := step_some hstep
  refine ⟨fun s' hmem => ?_, ?_⟩
  · rcases List.mem_or_eq_of_mem_set hmem with hold | rfl
    · exact h.marked s' hold
    · exact marked_next (h.marked s (List.mem_of_getElem? hs)) hgate
  · have hkeys : (slots.set move.1 (s.next gate move.2)).map Slot.key = slots.map Slot.key := by
      refine List.ext_getElem? fun i => ?_
      rw [List.map_set, List.getElem?_set]
      split
      · next hi =>
        subst hi
        obtain ⟨hlt, hs'⟩ := List.getElem?_eq_some_iff.mp hs
        simp [hlt, hs', Slot.key]
      · rfl
    rw [hkeys]
    exact h.distinct

lemma tidy_step (h : ∀ s ∈ slots, Tidy s) (hcleared : Cleared slots move)
    (hstep : step slots move = some slots') : ∀ s ∈ slots', Tidy s := by
  obtain ⟨s, gate, hs, hgate, rfl⟩ := step_some hstep
  intro s' hmem
  rcases List.mem_or_eq_of_mem_set hmem with hold | rfl
  · exact h s' hold
  · exact tidy_next (h s (List.mem_of_getElem? hs)) hgate (hcleared s hs)

lemma Initial.settled (h : Initial slots) : Settled slots := by
  refine ⟨fun s hs => ?_, h.distinct⟩
  obtain ⟨⟨clock, hgate⟩, hmarks⟩ := h.start s hs
  have htraced : Traced s.cfg s.gate := hgate ▸ traced_start
  refine ⟨htraced, ?_, ?_⟩
  · simp [hmarks, round]
  · simp [hmarks, hgate, round, GateHistory.start]

omit [GateFormat] in
lemma Initial.tidy (h : Initial slots) : ∀ s ∈ slots, Tidy s := by
  intro s hs hsome
  obtain ⟨⟨clock, hgate⟩, -⟩ := h.start s hs
  rw [hgate] at hsome
  cases hsome

end Marks

section Listings

variable [GateView] {root : Root} {run : RunFolder} {slots : List Slot} {name phase : String}
  {contents : Except String Bytes} {entries : List PendingEntry}

def BlockedEntry.shown (e : BlockedEntry) : String × String × String :=
  (e.runId, e.phase, e.severity.asStr)

def PendingGate.shown (gate : PendingGate) : String × String × String :=
  (gate.runId, gate.phase, gate.severity)

def Slot.shown (s : Slot) : String × String × String :=
  (s.cfg.runId, s.cfg.phase, s.cfg.severity.asStr)

/-- A directory that can be read, or that is not there. -/
def Reads {α : Type} (dir : Option (ReadDir α)) (entries : List α) : Prop :=
  dir = some (.ok (entries.map .ok)) ∨ dir = none ∧ entries = []

/-- The files of a run directory are those of the gates of the run, next to any other names. -/
structure RunShows (run : RunFolder) (slots : List Slot) (entries : List PendingEntry) : Prop where
  reads : Reads run.pending entries
  sound : ∀ phase contents, phase ≠ "" → .file (phase ++ ".json") contents ∈ entries →
    ∃ s ∈ slots, s.key = (run.runId, phase) ∧
      ∃ bytes, contents = .ok bytes ∧ s.gate.files.pending = some bytes
  complete : ∀ s ∈ slots, s.cfg.runId = run.runId → ∀ bytes, s.gate.files.pending = some bytes →
    .file (s.cfg.phase ++ ".json") (.ok bytes) ∈ entries
  responses : ∀ s ∈ slots, s.cfg.runId = run.runId →
    (s.cfg.phase ++ ".json" ∈ run.responses ↔ s.gate.files.response.isSome)

/-- The directories of the project hold the files of the gates. -/
structure Shows (root : Root) (slots : List Slot) (runs : List RunsEntry) : Prop where
  reads : Reads root.runs runs
  folders : ∀ run, .dir run ∈ runs → ∃ entries, RunShows run slots entries
  complete : ∀ s ∈ slots, s.gate.files.pending.isSome → ∃ run, .dir run ∈ runs ∧ run.runId = s.cfg.runId

omit [GateView] in
lemma stripSuffix_some {suffix : String} (h : stripSuffix name suffix = some phase) :
    name = phase ++ suffix := by
  have hends : endsWith name suffix = true := by
    by_contra hfalse
    rw [stripSuffix, if_neg hfalse] at h
    cases h
  obtain ⟨p, rfl⟩ := endsWith_iff.mp hends
  rw [stripSuffix_append] at h
  rw [Option.some.inj h]

lemma blockedEntry_json (hphase : phase ≠ "") :
    blockedEntry root run (.file (phase ++ ".json") contents) =
      if phase ++ ".json" ∈ run.responses then none
      else
        (parsePending run.runId phase (runPendingPath root run (phase ++ ".json"))
          (runDir root run ++ "/responses/" ++ phase ++ ".json") contents).toOption := by
  obtain ⟨hextension, hstem⟩ := (json_iff hphase).mpr rfl
  simp [blockedEntry, hextension, hstem, hphase]

/-- Both listings pass over every other name. -/
lemma other_skipped (h : ∀ phase, phase ≠ "" → name ≠ phase ++ ".json") :
    blockedEntry root run (.file name contents) = none ∧
      pendingGate root run (.file name contents) = none := by
  constructor
  · unfold blockedEntry
    dsimp only
    split
    · rfl
    · next hextension =>
      split
      · rfl
      · next phase hstem =>
        split
        · rfl
        · next hphase => exact absurd ((json_iff hphase).mp ⟨of_not_not hextension, hstem⟩) (h phase hphase)
  · have hnone : (stripSuffix name ".json").getD "" = "" := by
      cases hstrip : stripSuffix name ".json" with
      | none => rfl
      | some phase =>
          by_contra hphase
          exact h phase hphase (stripSuffix_some hstrip)
    simp [pendingGate, hnone]

omit [GateView] in
lemma readContents_print (text : String) : readContents (.ok (textBytes text)) = .ok text := by
  simp [readContents, readToString_textBytes, bind, Except.bind]

lemma parseRfc3339Utc_to (time : ℤ) (field : String) :
    parseRfc3339Utc (GateFormat.toRfc3339 time) field = .ok time := by
  simp [parseRfc3339Utc, GateFormat.parseRfc3339_to, during, Except.mapError]

/-- A request of the verifier is well formed for `ls-blocked`. -/
lemma parsePending_request {cfg : HumanVerifierConfig} {stdout runId pendingPath responsePath : String}
    {created : ℤ} : ∃ e, parsePending runId phase pendingPath responsePath
        (.ok (textBytes (GateFormat.printRequest (newRequest cfg stdout created)))) = .ok e ∧
      e.shown = (runId, phase, cfg.severity.asStr) := by
  let e : BlockedEntry :=
    { runId
      phase
      severity := cfg.severity
      openedAt := created
      timeoutAt := (cfg.timeoutPolicy.ruleFor cfg.severity).timeout.map (created + ·)
      pendingPath
      responsePath
      responseDisplayPath := "runs/" ++ runId ++ "/responses/" ++ phase ++ ".json" }
  refine ⟨e, ?_, rfl⟩
  have hopened : parseRfc3339Utc (newRequest cfg stdout created).openedAt "opened_at" = .ok created :=
    parseRfc3339Utc_to created "opened_at"
  have hschema : (newRequest cfg stdout created).schemaVersion = 1 := rfl
  unfold parsePending
  rw [readContents_print]
  simp only [during, Except.mapError, GateFormat.parseRequest_print, bind, Except.bind, hschema,
    hopened, ne_eq, not_true_eq_false, if_false]
  cases htimeout : (cfg.timeoutPolicy.ruleFor cfg.severity).timeout with
  | none =>
      have hnone : (newRequest cfg stdout created).timeoutAt = none := by simp [newRequest, htimeout]
      simp only [hnone, e, htimeout, Option.map_none]
      rfl
  | some timeout =>
      have hsome : (newRequest cfg stdout created).timeoutAt =
          some (GateFormat.toRfc3339 (created + timeout)) := by simp [newRequest, htimeout]
      simp only [hsome, e, htimeout, Option.map_some, parseRfc3339Utc_to]
      rfl

/-- Both listings show a request of the verifier alike. -/
lemma pendingGate_request {cfg : HumanVerifierConfig} {stdout : String} {created : ℤ}
    (hphase : phase ≠ "") (hfree : phase ++ ".json" ∉ run.responses) :
    ∃ gate, pendingGate root run (.file (phase ++ ".json")
        (.ok (textBytes (GateFormat.printRequest (newRequest cfg stdout created))))) = some gate ∧
      gate.shown = (run.runId, phase, cfg.severity.asStr) := by
  unfold pendingGate
  simp only [stripSuffix_append, Option.getD_some, if_neg hphase, if_neg hfree, readContents_print]
  refine ⟨_, rfl, ?_⟩
  simp [PendingGate.shown, Except.toOption, GateView.peekRequest_print, newRequest]

omit [GateView] in
lemma Slot.phase_ne (s : Slot) : s.cfg.phase ≠ "" := by
  have hnamed := s.named
  simp only [validatePhaseName, decide_eq_true_eq] at hnamed
  exact hnamed.1

/-- What both listings show of a gate whose request is there and whose response is not. -/
lemma slot_listed (root : Root) {s : Slot} {bytes : Bytes} (hmarked : Marked s) (hrun : s.cfg.runId = run.runId)
    (hpending : s.gate.files.pending = some bytes) (hfree : s.cfg.phase ++ ".json" ∉ run.responses) :
    ∃ e gate, blockedEntry root run (.file (s.cfg.phase ++ ".json") (.ok bytes)) = some e ∧
      pendingGate root run (.file (s.cfg.phase ++ ".json") (.ok bytes)) = some gate ∧
      e.shown = s.shown ∧ gate.shown = s.shown := by
  obtain ⟨stdout, created, rfl, -⟩ := hmarked.traced.present bytes hpending
  obtain ⟨e, hparse, he⟩ : ∃ e, parsePending run.runId s.cfg.phase
        (runPendingPath root run (s.cfg.phase ++ ".json"))
        (runDir root run ++ "/responses/" ++ s.cfg.phase ++ ".json")
        (.ok (textBytes (GateFormat.printRequest (newRequest s.cfg stdout created)))) = .ok e ∧
      e.shown = (run.runId, s.cfg.phase, s.cfg.severity.asStr) := parsePending_request
  obtain ⟨gate, hgate, hshown⟩ : ∃ gate, pendingGate root run (.file (s.cfg.phase ++ ".json")
        (.ok (textBytes (GateFormat.printRequest (newRequest s.cfg stdout created))))) = some gate ∧
      gate.shown = (run.runId, s.cfg.phase, s.cfg.severity.asStr) := pendingGate_request s.phase_ne hfree
  refine ⟨e, gate, ?_, hgate, ?_, ?_⟩
  · rw [blockedEntry_json s.phase_ne, if_neg hfree, hparse]
    rfl
  · rw [he, Slot.shown, hrun]
  · rw [hshown, Slot.shown, hrun]

/-- An entry is shown by both listings alike or by neither, and what is shown is a gate whose
request is there and whose response is not. -/
lemma entry_cases (root : Root) {entry : PendingEntry} (hmarked : ∀ s ∈ slots, Marked s)
    (hshows : RunShows run slots entries) (hentry : entry ∈ entries) :
    (blockedEntry root run entry = none ∧ pendingGate root run entry = none) ∨
      ∃ s ∈ slots, s.cfg.runId = run.runId ∧ s.gate.files.pending.isSome ∧
        s.gate.files.response = none ∧ ∃ e gate, blockedEntry root run entry = some e ∧
          pendingGate root run entry = some gate ∧ e.shown = s.shown ∧ gate.shown = s.shown := by
  cases entry with
  | dir name => exact Or.inl ⟨rfl, rfl⟩
  | file name contents =>
      by_cases hname : ∃ phase, phase ≠ "" ∧ name = phase ++ ".json"
      · obtain ⟨phase, hphase, rfl⟩ := hname
        obtain ⟨s, hs, hkey, bytes, rfl, hpending⟩ := hshows.sound phase contents hphase hentry
        obtain ⟨hrun, rfl⟩ := Prod.mk.inj hkey
        have hresponse := hshows.responses s hs hrun
        by_cases hfree : s.cfg.phase ++ ".json" ∈ run.responses
        · left
          constructor
          · rw [blockedEntry_json hphase, if_pos hfree]
          · simp [pendingGate, hphase, hfree]
        · right
          refine ⟨s, hs, hrun, by rw [hpending]; rfl, ?_,
            slot_listed root (hmarked s hs) hrun hpending hfree⟩
          rw [← Option.not_isSome_iff_eq_none, ← hresponse]
          exact hfree
      · left
        exact other_skipped fun phase hphase heq => hname ⟨phase, hphase, heq⟩

lemma run_agrees (hmarked : ∀ s ∈ slots, Marked s) (hshows : RunShows run slots entries) :
    (entries.filterMap (blockedEntry root run)).map BlockedEntry.shown =
      (entries.filterMap (pendingGate root run)).map PendingGate.shown := by
  rw [List.map_filterMap, List.map_filterMap]
  refine List.filterMap_congr fun entry hentry => ?_
  rcases entry_cases root hmarked hshows hentry with ⟨hnone, hnone'⟩ |
    ⟨s, -, -, -, -, e, gate, he, hgate, hshown, hshown'⟩
  · rw [hnone, hnone']
    rfl
  · rw [he, hgate, Option.map_some, Option.map_some, hshown, hshown']

lemma mem_run {x : String × String × String} (hmarked : ∀ s ∈ slots, Marked s)
    (hshows : RunShows run slots entries) :
    x ∈ (entries.filterMap (pendingGate root run)).map PendingGate.shown ↔
      ∃ s ∈ slots, s.cfg.runId = run.runId ∧ s.shown = x ∧ s.gate.files.pending.isSome ∧
        s.gate.files.response = none := by
  simp only [List.mem_map, List.mem_filterMap]
  constructor
  · rintro ⟨gate, ⟨entry, hentry, hgate⟩, rfl⟩
    rcases entry_cases root hmarked hshows hentry with ⟨-, hnone⟩ |
      ⟨s, hs, hrun, hpending, hresponse, e, gate', -, hgate', -, hshown⟩
    · rw [hnone] at hgate
      cases hgate
    · rw [hgate] at hgate'
      obtain rfl := Option.some.inj hgate'
      exact ⟨s, hs, hrun, hshown.symm, hpending, hresponse⟩
  · rintro ⟨s, hs, hrun, rfl, hpending, hresponse⟩
    obtain ⟨bytes, hbytes⟩ := Option.isSome_iff_exists.mp hpending
    have hfree : s.cfg.phase ++ ".json" ∉ run.responses := by
      rw [hshows.responses s hs hrun, hresponse]
      simp
    obtain ⟨e, gate, -, hgate, -, hshown⟩ := slot_listed root (hmarked s hs) hrun hbytes hfree
    exact ⟨gate, ⟨_, hshows.complete s hs hrun bytes hbytes, hgate⟩, hshown⟩

omit [GateView] in
lemma readable_reads {α : Type} {dir : Option (ReadDir α)} {found : List α} (h : Reads dir found) :
    readable dir = found := by
  rcases h with rfl | ⟨rfl, rfl⟩
  · simp [readable, List.filterMap_map, Function.comp_def, Except.toOption]
  · rfl

omit [GateView] in
lemma mapM_ok {ε α : Type} (xs : List α) : (xs.map Except.ok).mapM (m := Except ε) id = .ok xs := by
  induction xs with
  | nil => rfl
  | cons x xs ih =>
      rw [List.map_cons, mapM_cons_eq_ok]
      exact ⟨x, xs, rfl, ih, rfl⟩

lemma scanRun_reads (h : Reads run.pending entries) :
    scanRun root (.dir run) = .ok (entries.filterMap (blockedEntry root run)) := by
  rcases h with hread | ⟨hnone, rfl⟩
  · simp only [scanRun, hread, during, Except.mapError, bind, Except.bind]
    rw [mapM_ok]
    rfl
  · simp only [scanRun, hnone]
    rfl

/-- Before they are sorted the two listings show the same, run by run. -/
lemma scanRuns_agree (root : Root) {runs : List RunsEntry} (hmarked : ∀ s ∈ slots, Marked s)
    (hfolders : ∀ run, .dir run ∈ runs → ∃ entries, RunShows run slots entries) :
    ∃ found, (runs.map Except.ok).mapM (fun entry => do scanRun root (← entry)) = .ok found ∧
      found.flatten.map BlockedEntry.shown = (runs.flatMap (runGates root)).map PendingGate.shown := by
  induction runs with
  | nil => exact ⟨[], rfl, rfl⟩
  | cons entry runs ih =>
      obtain ⟨found, hfound, hagree⟩ := ih fun run hrun => hfolders run (List.mem_cons_of_mem _ hrun)
      have hfirst : ∃ first, scanRun root entry = .ok first ∧
          first.map BlockedEntry.shown = (runGates root entry).map PendingGate.shown := by
        cases entry with
        | file name => exact ⟨[], rfl, rfl⟩
        | dir run =>
            obtain ⟨entries, hshows⟩ := hfolders run List.mem_cons_self
            refine ⟨_, scanRun_reads hshows.reads, ?_⟩
            rw [runGates, readable_reads hshows.reads]
            exact run_agrees hmarked hshows
      obtain ⟨first, hscan, hshown⟩ := hfirst
      refine ⟨first :: found, ?_, ?_⟩
      · rw [List.map_cons, mapM_cons_eq_ok]
        exact ⟨first, found, hscan, hfound, rfl⟩
      · rw [List.flatten_cons, List.map_append, List.flatMap_cons, List.map_append, hshown, hagree]

lemma mem_runs {runs : List RunsEntry} {x : String × String × String} (hmarked : ∀ s ∈ slots, Marked s)
    (hshows : Shows root slots runs) :
    x ∈ (runs.flatMap (runGates root)).map PendingGate.shown ↔
      ∃ s ∈ slots, s.shown = x ∧ s.gate.files.pending.isSome ∧ s.gate.files.response = none := by
  rw [List.map_flatMap, List.mem_flatMap]
  constructor
  · rintro ⟨entry, hentry, hmem⟩
    cases entry with
    | file name => cases hmem
    | dir run =>
        obtain ⟨entries, hrun⟩ := hshows.folders run hentry
        rw [runGates, readable_reads hrun.reads, mem_run hmarked hrun] at hmem
        obtain ⟨s, hs, -, hlisted⟩ := hmem
        exact ⟨s, hs, hlisted⟩
  · rintro ⟨s, hs, hlisted⟩
    obtain ⟨run, hmem, hid⟩ := hshows.complete s hs hlisted.2.1
    obtain ⟨entries, hrun⟩ := hshows.folders run hmem
    refine ⟨.dir run, hmem, ?_⟩
    rw [runGates, readable_reads hrun.reads, mem_run hmarked hrun]
    exact ⟨s, hs, hid.symm, hlisted⟩

/-- Whatever has happened to the gates, the two listings agree, and they show the gates whose request
is there and whose response is not. -/
lemma listings_files {runs : List RunsEntry} (hmarked : ∀ s ∈ slots, Marked s)
    (hshows : Shows root slots runs) : ∃ blocked, scanBlocked root = .ok blocked ∧
      (blocked.map BlockedEntry.shown).Perm ((discoverPendingGates root).map PendingGate.shown) ∧
      ∀ x, x ∈ blocked.map BlockedEntry.shown ↔
        ∃ s ∈ slots, s.shown = x ∧ s.gate.files.pending.isSome ∧ s.gate.files.response = none := by
  obtain ⟨found, hfound, hagree⟩ := scanRuns_agree root hmarked hshows.folders
  let blocked := found.flatten.insertionSort fun a b => (blockedOrder a b).isLE
  have hscan : scanBlocked root = .ok blocked := by
    rcases hshows.reads with hread | ⟨hnone, rfl⟩
    · unfold scanBlocked
      rw [hread]
      show ((runs.map Except.ok).mapM (fun entry => do scanRun root (← entry)) >>= fun found =>
        pure (found.flatten.insertionSort fun a b => (blockedOrder a b).isLE)) = .ok blocked
      rw [hfound]
      rfl
    · obtain rfl := (Except.ok.inj hfound).symm
      simp only [scanBlocked, hnone]
      rfl
  have hsorted : (blocked.map BlockedEntry.shown).Perm
      ((runs.flatMap (runGates root)).map PendingGate.shown) := by
    rw [← hagree]
    exact (List.perm_insertionSort _ _).map _
  have hgates : ((discoverPendingGates root).map PendingGate.shown).Perm
      ((runs.flatMap (runGates root)).map PendingGate.shown) := by
    rw [discoverPendingGates, readable_reads hshows.reads]
    exact (List.perm_insertionSort _ _).map _
  refine ⟨blocked, hscan, hsorted.trans hgates.symm, fun x => ?_⟩
  rw [hsorted.mem_iff]
  exact mem_runs hmarked hshows

end Listings

section Main

variable [GateView] {slots₀ slots : List Slot}

/-- Both listings show the gates whose latest request has not been answered. -/
def ListsWaiting (root : Root) (slots : List Slot) : Prop :=
  ∃ blocked, scanBlocked root = .ok blocked ∧
    (blocked.map BlockedEntry.shown).Perm ((discoverPendingGates root).map PendingGate.shown) ∧
    ∀ x, x ∈ blocked.map BlockedEntry.shown ↔ ∃ s ∈ slots, s.shown = x ∧ Waits s.marks

lemma listings_tidy {root : Root} {runs : List RunsEntry} (hmarked : ∀ s ∈ slots, Marked s)
    (htidy : ∀ s ∈ slots, Tidy s) (hshows : Shows root slots runs) : ListsWaiting root slots := by
  obtain ⟨blocked, hscan, hperm, hmem⟩ := listings_files hmarked hshows
  refine ⟨blocked, hscan, hperm, fun x => (hmem x).trans ?_⟩
  refine exists_congr fun s => and_congr_right fun hs => and_congr_right fun _ => ?_
  exact (waits_iff (hmarked s hs) (htidy s hs)).symm

/-- A decision that is consumed while its pending file is there leaves a gate that both listings
show and nobody waits for. -/
lemma listings_stale {root : Root} {runs : List RunsEntry} {slots' : List Slot} {move : ℕ × Act}
    (hsettled : Settled slots) (hstep : step slots move = some slots')
    (hstale : ¬ Cleared slots move) (hshows : Shows root slots' runs) : ¬ ListsWaiting root slots' := by
  rintro ⟨blocked, hscan, hperm, hwaiting⟩
  have hsettled' : Settled slots' := settled_step hsettled hstep
  obtain ⟨blocked', hscan', -, hfiles⟩ := listings_files hsettled'.marked hshows
  obtain rfl : blocked = blocked' := Except.ok.inj (hscan.symm.trans hscan')
  obtain ⟨s, gate, hs, hgate, rfl⟩ := step_some hstep
  obtain ⟨s', hs', hconsumes, hpending⟩ : ∃ s', slots[move.1]? = some s' ∧
      Consumes s'.cfg s'.gate move.2 ∧ s'.gate.files.pending ≠ none := by
    simpa [Cleared] using hstale
  obtain rfl : s = s' := Option.some.inj (hs.symm.trans hs')
  obtain ⟨hleft, hwaits⟩ := consumes_next hgate hconsumes
  have hlt : move.1 < slots.length := (List.getElem?_eq_some_iff.mp hs).1
  have hmem : s.next gate move.2 ∈ slots.set move.1 (s.next gate move.2) := List.mem_set hlt _
  have hlisted : (s.next gate move.2).shown ∈ blocked.map BlockedEntry.shown := by
    refine (hfiles _).mpr ⟨_, hmem, rfl, ?_, ?_⟩
    · rw [Slot.next_gate, hleft]
      exact Option.isSome_iff_ne_none.mpr hpending
    · rw [Slot.next_gate, hleft]
  obtain ⟨s₁, hs₁, hshown, hwaits₁⟩ := (hwaiting _).mp hlisted
  have hkey : s₁.key = (s.next gate move.2).key := by
    obtain ⟨hrun, hphase, -⟩ : s₁.cfg.runId = s.cfg.runId ∧ s₁.cfg.phase = s.cfg.phase ∧ _ := by
      simpa [Slot.shown] using hshown
    exact Prod.ext hrun hphase
  have hsame : s₁ = s.next gate move.2 :=
    List.inj_on_of_nodup_map hsettled'.distinct hs₁ hmem hkey
  exact hwaits (hsame ▸ hwaits₁)

/-- In every history in which no decision is consumed while its pending file is there, the listings
agree and show a gate exactly when its latest request has not been answered. A step outside that
breaks it. -/
theorem listings_show_waiting (hrun : Run step Cleared slots₀ slots) (hstart : Initial slots₀) :
    (∀ root runs, Shows root slots runs → ListsWaiting root slots) ∧
      ∀ move slots', step slots move = some slots' → ∀ root runs, Shows root slots' runs →
        (ListsWaiting root slots' ↔ Cleared slots move) := by
  have hkept : Settled slots ∧ ∀ s ∈ slots, Tidy s :=
    hrun.invariant (I := fun slots => Settled slots ∧ ∀ s ∈ slots, Tidy s)
      ⟨hstart.settled, hstart.tidy⟩ fun _ _ _ h hcleared hstep =>
        ⟨settled_step h.1 hstep, tidy_step h.2 hcleared hstep⟩
  refine ⟨fun root runs hshows => listings_tidy hkept.1.marked hkept.2 hshows, ?_⟩
  intro move slots' hstep root runs hshows
  constructor
  · intro hlists
    by_contra hstale
    exact listings_stale hkept.1 hstep hstale hshows hlists
  · intro hcleared
    exact listings_tidy (settled_step hkept.1 hstep).marked (tidy_step hkept.2 hcleared hstep) hshows

end Main

section Example

/-- Requests are peeked at by parsing them. -/
@[reducible] def talliedView : GateView where
  toGateFormat := talliedFormat
  peekRequest text := (untallied text).toOption.map fun r : PendingRequest =>
    (some r.severity.asStr, some r.artefact.path)
  workflowName _ := none
  peekRequest_print r := by
    show ((untallied (tallied r)).toOption.map fun r : PendingRequest =>
      (some r.severity.asStr, some r.artefact.path)) = _
    rw [untallied_tallied]
    rfl

attribute [local instance] talliedView

/-- The gate of a review, as the only one. -/
def reviewSlot (gate : Gate) (marks : List Mark) : List Slot := [⟨lowReview, by decide, gate, marks⟩]

/-- The directories with the request of the review, which has no response. -/
def reviewFolder : RunFolder where
  runId := "run"
  manifest := none
  pending := some (.ok [.ok (.file "review.json" (.ok reviewBytes))])
  responses := []

def reviewRoot : Root := ⟨"", some (.ok [.ok (.dir reviewFolder)])⟩

lemma reviewRoot_shows {gate : Gate} {marks : List Mark} (h : gate.files = ⟨some reviewBytes, none⟩) :
    Shows reviewRoot (reviewSlot gate marks) [.dir reviewFolder] := by
  have hname : "review.json" = "review" ++ ".json" := by decide
  have hfolder : RunShows reviewFolder (reviewSlot gate marks)
      [.file "review.json" (.ok reviewBytes)] := by
    refine ⟨Or.inl rfl, fun phase contents _ hmem => ?_, fun s hs _ bytes hbytes => ?_,
      fun s hs _ => ?_⟩
    · obtain ⟨hphase, rfl⟩ : phase ++ ".json" = "review.json" ∧ contents = .ok reviewBytes := by
        simpa using hmem
      have hstrip := congrArg (fun name => stripSuffix name ".json") (hphase.trans hname)
      simp only [stripSuffix_append, Option.some.injEq] at hstrip
      subst hstrip
      exact ⟨_, List.mem_singleton_self _, rfl, reviewBytes, rfl, congrArg GateFiles.pending h⟩
    · obtain rfl := List.mem_singleton.mp hs
      rw [congrArg GateFiles.pending h] at hbytes
      cases hbytes
      exact List.mem_singleton_self _
    · obtain rfl := List.mem_singleton.mp hs
      simp [h, reviewFolder]
  refine ⟨Or.inl rfl, fun run hmem => ?_, fun s hs _ => ?_⟩
  · obtain rfl : run = reviewFolder := by simpa using hmem
    exact ⟨_, hfolder⟩
  · obtain rfl := List.mem_singleton.mp hs
    exact ⟨reviewFolder, List.mem_singleton_self _, rfl⟩

lemma step_reviewSlot {gate gate' : Gate} {marks : List Mark} {act : Act}
    (h : GateHistory.step lowReview gate act = some gate') :
    step (reviewSlot gate marks) (0, act) =
      some (reviewSlot gate' (newMarks gate gate' act ++ marks)) := by
  simp [step, reviewSlot, h, Slot.next]

lemma initial_reviewSlot : Initial (reviewSlot (GateHistory.start 0) []) := by
  refine ⟨fun s hs => ?_, List.nodup_singleton _⟩
  obtain rfl := List.mem_singleton.mp hs
  exact ⟨⟨0, rfl⟩, rfl⟩

/-- The review is asked. -/
lemma run_askedSlot : Run step Cleared (reviewSlot (GateHistory.start 0) [])
    (reviewSlot reviewAsked [.request, .request]) := by
  obtain ⟨hlook, hfinish⟩ := asked_steps
  have hcleared : ∀ (gate : Gate) act, gate.files.pending = none →
      Cleared (reviewSlot gate []) (0, act) := by
    intro gate act hnone s hs _
    obtain rfl : (⟨lowReview, by decide, gate, []⟩ : Slot) = s := Option.some.inj hs
    exact hnone
  have hfirst : step (reviewSlot (GateHistory.start 0) []) (0, .look fun _ => none) = _ :=
    step_reviewSlot hlook
  have hlooked := Run.start.step (hcleared _ _ rfl) hfirst
  exact hlooked.step (hcleared _ _ rfl) (step_reviewSlot hfinish)

theorem listings_show_waiting_review :
    ListsWaiting reviewRoot (reviewSlot reviewAsked [.request, .request]) :=
  (listings_show_waiting run_askedSlot initial_reviewSlot).1 reviewRoot _ (reviewRoot_shows rfl)

/-- The review has been rejected, the rejection has been consumed, and both listings still show the
review. -/
theorem consumed_review_listed :
    Run step (fun _ _ => True) (reviewSlot (GateHistory.start 0) [])
        (reviewSlot reviewRejected [.consumed, .answer, .request, .request]) ∧
      Shows reviewRoot (reviewSlot reviewRejected [.consumed, .answer, .request, .request])
        [.dir reviewFolder] ∧
      ¬ ListsWaiting reviewRoot
        (reviewSlot reviewRejected [.consumed, .answer, .request, .request]) := by
  obtain ⟨hcheck, hwrite, hlook, hfinish⟩ := rejected_steps
  have hasked : Run step (fun _ _ => True) (reviewSlot (GateHistory.start 0) [])
      (reviewSlot reviewAsked [.request, .request]) := run_askedSlot.mono fun _ _ _ => trivial
  have hchecked := hasked.step trivial (step_reviewSlot hcheck)
  have hposted := hchecked.step trivial (step_reviewSlot hwrite)
  have hlooked := hposted.step trivial (step_reviewSlot hlook)
  have hrun := hlooked.step trivial (step_reviewSlot hfinish)
  refine ⟨hrun, reviewRoot_shows rfl, ?_⟩
  have hsettled := hlooked.invariant (I := Settled) initial_reviewSlot.settled
    fun _ _ _ h _ hstep => settled_step h hstep
  refine listings_stale hsettled (step_reviewSlot hfinish) (fun hcleared => ?_) (reviewRoot_shows rfl)
  have hpending := hcleared _ rfl ⟨"", calmPass 0, rejection, rfl, rfl, rfl, fun _ => ⟨rfl, rfl⟩⟩
  cases hpending

end Example

end Loker.GateListings
