import Loker.Programs
import Loker.RunLoad

/-! The operations of a phase run on its run directory and its backends, and the world they
change. -/

namespace Loker.RunOps

open FileTree Programs RunFiles RunLoad

inductive BackendError where
  | timeout (message : String)
  | rateLimit (message : String)
  | auth (message : String)
  | network (message : String)
  | parse (message : String)
  | executionFailed (message : String)
  | unavailable (message : String)
  | config (message : String)
  deriving DecidableEq, Repr

/-- A verdict; `undecided` stands for a suggestion or a score. -/
inductive HookResult where
  | pass
  | fail (summary : String)
  | undecided
  deriving DecidableEq, Repr

inductive Marker where
  | started (marker : StartedMarker)
  | completed (marker : CompletedMarker)
  | failed (marker : FailedMarker)
  deriving DecidableEq, Repr

def Marker.phase : Marker → String
  | .started m => m.phase
  | .completed m => m.phase
  | .failed m => m.phase

/-- A started marker has its attempt in the file name, the terminal ones have not. -/
def Marker.fileName : Marker → String
  | .started m => m.phase ++ ".started." ++ m.attempt.repr
  | .completed m => m.phase ++ ".completed"
  | .failed m => m.phase ++ ".failed"

/-- A prompt on its way to a backend; `index` tells the concurrent ones apart. -/
structure Query where
  index : ℕ
  backend : String
  prompt : String
  model : Option String
  deriving DecidableEq, Repr

section Operations

variable (B : Type)

inductive Op where
  | createDirAll (p : Path)
  | writeFile (p : Path) (b : B)
  | readFile (p : Path)
  | isFile (p : Path)
  | isDir (p : Path)
  | occupied (p : Path)
  | rename (src dst : Path)
  | writeMarker (runDir : Path) (m : Marker)
  | loadManifest (runDir : Path)
  | writeManifest (runDir : Path) (m : Manifest)
  | query (q : Query)
  | race (pending : List Query)
  | verify (text : String)
  | lockBusy (p : Path)

/-- Errors of the file system carry the system's text. -/
def Answer : Op B → Type
  | .createDirAll _ => Except String Unit
  | .writeFile _ _ => Except String Unit
  | .readFile _ => Except String B
  | .isFile _ => Bool
  | .isDir _ => Bool
  | .occupied _ => Bool
  | .rename _ _ => Except String Unit
  | .writeMarker _ _ => Except String Unit
  | .loadManifest _ => Except ManifestError Manifest
  | .writeManifest _ _ => Except String Unit
  | .query _ => Except BackendError String
  | .race _ => ℕ × Except BackendError String
  | .verify _ => Except String HookResult
  | .lockBusy _ => Bool

abbrev RunSig : Signature := ⟨Op B, Answer B⟩

/-- A program of the phase runner that may end in an error. -/
abbrev Run (ε : Type) := ExceptT ε (Prog (RunSig B))

end Operations

/-- The disk with a log of the markers written so far. -/
structure World (B : Type) where
  disk : Disk B
  log : List Marker

variable {B : Type} [RunFormat B]

def Marker.bytes : Marker → B
  | .started m => RunFormat.ofStarted m
  | .completed m => RunFormat.ofCompleted m
  | .failed m => RunFormat.ofFailed m

def markerPath (runDir : Path) (m : Marker) : Path := join (markersDir runDir) m.fileName

/-- The change, or an error that leaves everything as it is; any operation may fail. -/
def Changed (next : Option (Disk B)) (log : List Marker) (w : World B)
    (a : Except String Unit) (w' : World B) : Prop :=
  (∃ t, next = some t ∧ w' = ⟨t, log⟩ ∧ a = .ok ()) ∨ w' = w ∧ ∃ message, a = .error message

def perform : Semantics (RunSig B) (World B)
  | .createDirAll p, w, a, w' => Changed (createDirAll w.disk p) w.log w a w'
  | .writeFile p b, w, a, w' => Changed (writeFile w.disk p b) w.log w a w'
  | .readFile p, w, a, w' => w' = w ∧ ∀ b, a = .ok b → fileAt w.disk p = some b
  | .isFile p, w, a, w' => w' = w ∧ a = (fileAt w.disk p).isSome
  | .isDir p, w, a, w' => w' = w ∧ a = isDir w.disk p
  | .occupied p, w, a, w' => w' = w ∧ a = occupied w.disk p
  | .rename src dst, w, a, w' => Changed (rename w.disk src dst) w.log w a w'
  | .writeMarker runDir m, w, a, w' =>
      Changed (writeFile w.disk (markerPath runDir m) m.bytes) (m :: w.log) w a w'
  | .loadManifest runDir, w, a, w' =>
      w' = w ∧ ∀ m, a = .ok m → manifestLoad w.disk runDir = .ok m
  | .writeManifest runDir m, w, a, w' =>
      Changed (writeFile w.disk (manifestPath runDir) (RunFormat.ofManifest m)) w.log w a w'
  | .query _, w, _, w' => w' = w
  | .race pending, w, a, w' => w' = w ∧ (pending ≠ [] → a.1 ∈ pending.map Query.index)
  | .verify _, w, _, w' => w' = w
  | .lockBusy _, w, _, w' => w' = w

/-- The world after an operation that changes it. -/
def effect : Op B → World B → Option (World B)
  | .createDirAll p, w => (createDirAll w.disk p).map (⟨·, w.log⟩)
  | .writeFile p b, w => (writeFile w.disk p b).map (⟨·, w.log⟩)
  | .rename src dst, w => (rename w.disk src dst).map (⟨·, w.log⟩)
  | .writeMarker runDir m, w =>
      (writeFile w.disk (markerPath runDir m) m.bytes).map (⟨·, m :: w.log⟩)
  | .writeManifest runDir m, w =>
      (writeFile w.disk (manifestPath runDir) (RunFormat.ofManifest m)).map (⟨·, w.log⟩)
  | _, _ => none

omit [RunFormat B] in
lemma Changed.eq_or_map {next : Option (Disk B)} {log : List Marker} {w w' : World B}
    {a : Except String Unit} (h : Changed next log w a w') :
    w' = w ∨ next.map (⟨·, log⟩) = some w' := by
  rcases h with ⟨t, rfl, rfl, _⟩ | ⟨rfl, _⟩
  · exact Or.inr rfl
  · exact Or.inl rfl

/-- An operation leaves the world as it is or has its effect. -/
lemma perform_effect {o : Op B} {w w' : World B} {a : Answer B o} (h : perform o w a w') :
    w' = w ∨ effect o w = some w' := by
  cases o with
  | createDirAll p => exact Changed.eq_or_map h
  | writeFile p b => exact Changed.eq_or_map h
  | rename src dst => exact Changed.eq_or_map h
  | writeMarker runDir m => exact Changed.eq_or_map h
  | writeManifest runDir m => exact Changed.eq_or_map h
  | readFile p => exact Or.inl h.1
  | isFile p => exact Or.inl h.1
  | isDir p => exact Or.inl h.1
  | occupied p => exact Or.inl h.1
  | loadManifest runDir => exact Or.inl h.1
  | query q => exact Or.inl h
  | race pending => exact Or.inl h.1
  | verify text => exact Or.inl h
  | lockBusy p => exact Or.inl h

/-- Only a marker is logged. -/
lemma log_step {o : Op B} {w w' : World B} {a : Answer B o} (h : perform o w a w') :
    w'.log = w.log ∨ ∃ dir m, o = .writeMarker dir m ∧ w'.log = m :: w.log := by
  rcases perform_effect h with rfl | heffect
  · exact Or.inl rfl
  cases o with
  | writeMarker dir m =>
      obtain ⟨t', _, rfl⟩ := Option.map_eq_some_iff.mp heffect
      exact Or.inr ⟨dir, m, rfl, rfl⟩
  | createDirAll p =>
      obtain ⟨t', _, rfl⟩ := Option.map_eq_some_iff.mp heffect
      exact Or.inl rfl
  | writeFile p b =>
      obtain ⟨t', _, rfl⟩ := Option.map_eq_some_iff.mp heffect
      exact Or.inl rfl
  | rename src dst =>
      obtain ⟨t', _, rfl⟩ := Option.map_eq_some_iff.mp heffect
      exact Or.inl rfl
  | writeManifest dir m =>
      obtain ⟨t', _, rfl⟩ := Option.map_eq_some_iff.mp heffect
      exact Or.inl rfl
  | _ => cases heffect

/-- The answers of the backends and the hook in a run that nothing fails and nobody locks. -/
structure Script where
  answer : Query → Except BackendError String
  verdict : String → Except String HookResult

def changed (next : Option (Disk B)) (log : List Marker) (w : World B) :
    Except String Unit × World B :=
  match next with
  | some t => (.ok (), ⟨t, log⟩)
  | none => (.error "", w)

/-- Every operation carried out, with the backends and the hook given by a script. -/
def handle (script : Script) : (o : Op B) → World B → Answer B o × World B
  | .createDirAll p, w => changed (createDirAll w.disk p) w.log w
  | .writeFile p b, w => changed (writeFile w.disk p b) w.log w
  | .readFile p, w =>
      match fileAt w.disk p with
      | some b => (.ok b, w)
      | none => (.error "", w)
  | .isFile p, w => ((fileAt w.disk p).isSome, w)
  | .isDir p, w => (isDir w.disk p, w)
  | .occupied p, w => (occupied w.disk p, w)
  | .rename src dst, w => changed (rename w.disk src dst) w.log w
  | .writeMarker runDir m, w =>
      changed (writeFile w.disk (markerPath runDir m) m.bytes) (m :: w.log) w
  | .loadManifest runDir, w => (manifestLoad w.disk runDir, w)
  | .writeManifest runDir m, w =>
      changed (writeFile w.disk (manifestPath runDir) (RunFormat.ofManifest m)) w.log w
  | .query q, w => (script.answer q, w)
  | .race [], w => ((0, .error (.config "no query")), w)
  | .race (q :: _), w => ((q.index, script.answer q), w)
  | .verify text, w => (script.verdict text, w)
  | .lockBusy _, w => (false, w)

omit [RunFormat B] in
lemma changed_holds (next : Option (Disk B)) (log : List Marker) (w : World B) :
    Changed next log w (changed next log w).1 (changed next log w).2 := by
  cases next with
  | none => exact Or.inr ⟨rfl, "", rfl⟩
  | some t => exact Or.inl ⟨t, rfl, rfl, rfl⟩

lemma handle_performs (script : Script) (o : Op B) (w : World B) :
    perform o w (handle script o w).1 (handle script o w).2 := by
  cases o with
  | createDirAll p => exact changed_holds _ _ w
  | writeFile p b => exact changed_holds _ _ w
  | rename src dst => exact changed_holds _ _ w
  | writeMarker runDir m => exact changed_holds _ _ w
  | writeManifest runDir m => exact changed_holds _ _ w
  | isFile p => exact ⟨rfl, rfl⟩
  | isDir p => exact ⟨rfl, rfl⟩
  | occupied p => exact ⟨rfl, rfl⟩
  | loadManifest runDir => exact ⟨rfl, fun _ h => h⟩
  | query q => rfl
  | verify text => rfl
  | lockBusy p => rfl
  | readFile p =>
      simp only [handle, perform]
      cases hfile : fileAt w.disk p with
      | none => exact ⟨rfl, fun b hb => by cases hb⟩
      | some b => exact ⟨rfl, fun b' hb' => by cases hb'; rfl⟩
  | race pending =>
      cases pending with
      | nil => exact ⟨rfl, fun h => absurd rfl h⟩
      | cons q pending => exact ⟨rfl, fun _ => List.mem_cons_self⟩

end Loker.RunOps
