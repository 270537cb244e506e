import Loker.GateHistory

/-! Posted decisions and resumed phases at the lock of one phase: any number of requests and of
processes, and the one response file between them. -/

namespace Loker.GatePosts

open TextOps HumanGate Transitions
open GateHistory (Server Post postResponse)
open PhaseLock (Bytes textBytes World Handle Env PhaseLockError LockFormat)

section Requests

structure PostGuardConfig where
  allowedOrigins : List String
  requiredContentType : Option String
  deriving DecidableEq, Repr

def PostGuardConfig.forLoopback (port : ℕ) : PostGuardConfig where
  allowedOrigins := ["http://127.0.0.1:" ++ port.repr, "http://localhost:" ++ port.repr]
  requiredContentType := some "application/x-www-form-urlencoded"

structure Headers where
  origin : Option String
  contentType : Option String
  deriving DecidableEq, Repr

/-- A header value is text when it is visible ASCII. -/
def headerText (value : String) : String :=
  if value.toList.all fun c => c = '\t' ∨ 32 ≤ c.toNat ∧ c.toNat < 127 then value else ""

def checkPostOrigin (headers : Headers) (config : PostGuardConfig) : Except (ℕ × String) Unit :=
  if headers.origin.any (config.allowedOrigins.contains ·) = false then
    .error (403, "Invalid or missing Origin header")
  else
    match config.requiredContentType with
    | none => .ok ()
    | some required =>
        if headers.contentType.any fun ct => startsWith (headerText ct) (headerText required) then
          .ok ()
        else .error (415, "Unsupported Content-Type")

inductive ResponseWriteError where
  | locked
  | alreadyExists
  | io (message : String)
  deriving DecidableEq, Repr

def writeError : PhaseLockError → ResponseWriteError
  | .lockInUse _ _ _ _ => .locked
  | .invalidPhaseName phase =>
      .io ("invalid phase name '" ++ phase ++ "': contains path separator or is empty")
  | .io message => .io ("io error: " ++ message)
  | .json message => .io ("json error: " ++ message)

/-- A request is turned away by its headers, or it comes back with what the write has come to. -/
inductive Reply where
  | refused (status : ℕ) (message : String)
  | done (result : Except ResponseWriteError Unit)

/-- The status that the one-shot server returns. -/
def Reply.status : Reply → ℕ
  | .refused status _ => status
  | .done (.ok ()) => 200
  | .done (.error .locked) => 423
  | .done (.error .alreadyExists) => 409
  | .done (.error (.io _)) => 500

/-- What a request does next. `dropping` gives the lock back. -/
inductive PostStage where
  | locking
  | look
  | prepare (bytes : Bytes)
  | write (bytes : Bytes)
  | sync
  | dropping (result : Except ResponseWriteError Unit)
  | replied (reply : Reply)

/-- A posted decision. It is kept after which consumption it has been written, and whether the
directory could not be synced then. -/
structure Ticket where
  post : Post
  stage : PostStage
  wrote : Option ℕ
  unsynced : Bool

inductive ResumeError where
  | phaseLocked (phase : String) (pid : UInt32) (host : String) (since : ℤ)
  | phaseLock (e : PhaseLockError)
  | phase (message : String)
  deriving DecidableEq, Repr

def resumeError : PhaseLockError → ResumeError
  | .lockInUse phase pid host since => .phaseLocked phase pid host since
  | e => .phaseLock e

/-- A phase that is resumed runs, and waits at its gate, while its lock is held. -/
inductive RunStage where
  | locking
  | running
  | dropping (result : Except ResumeError Unit)
  | returned (result : Except ResumeError Unit)

/-- The lock of the phase, its response file, the requests and the resumed runs by the handles of
their locks, and how many decisions have been consumed. -/
structure Desk where
  lock : World
  response : Option Bytes
  posts : ℕ → Option Ticket
  runs : ℕ → Option RunStage
  epoch : ℕ

end Requests

section Steps

/-- The next call of a request or a run: one of its lock, or one of its own. -/
inductive Move (α : Type) where
  | lock (act : PhaseLock.Act)
  | goto (stage : α)
  | put (bytes : Bytes)
  | lose (message : String)

variable [GateFormat] (cfg : HumanVerifierConfig) (id : ℕ) (env : Env)

def responseBytes (post : Post) (decidedAt : String) : Bytes :=
  textBytes (GateFormat.printResponse (postResponse cfg post decidedAt))

/-- `taken` tells whether the response file is there. The error of `write` may be that of any call
before the renaming; the directory is synced afterwards. -/
def Ticket.move (t : Ticket) (h : Handle) (taken : Bool) : Option (Move PostStage) :=
  if h.stage = .crashed then none
  else
    match t.stage with
    | .locking =>
        match h.stage with
        | .held => some (.goto .look)
        | .failed e => some (.goto (.replied (.done (.error (writeError e)))))
        | _ => some (.lock (.advance id env))
    | .look =>
        if taken then some (.goto (.dropping (.error .alreadyExists)))
        else some (.goto (.prepare (responseBytes cfg t.post (GateFormat.toRfc3339 env.now))))
    | .prepare bytes =>
        match env.error with
        | some message => some (.goto (.dropping (.error (.io message))))
        | none => some (.goto (.write bytes))
    | .write bytes =>
        match env.error with
        | some message => some (.goto (.dropping (.error (.io message))))
        | none => some (.put bytes)
    | .sync =>
        match env.error with
        | some message => some (.lose message)
        | none => some (.goto (.dropping (.ok ())))
    | .dropping result =>
        match h.stage with
        | .held => some (.lock (.drop id env))
        | .closed => some (.goto (.replied (.done result)))
        | _ => some (.lock (.advance id env))
    | .replied _ => none

/-- A run ends by itself while it is running. -/
def RunStage.move (stage : RunStage) (h : Handle) : Option (Move RunStage) :=
  if h.stage = .crashed then none
  else
    match stage with
    | .locking =>
        match h.stage with
        | .held => some (.goto .running)
        | .failed e => some (.goto (.returned (.error (resumeError e))))
        | _ => some (.lock (.advance id env))
    | .dropping result =>
        match h.stage with
        | .held => some (.lock (.drop id env))
        | .closed => some (.goto (.returned result))
        | _ => some (.lock (.advance id env))
    | .running | .returned _ => none

def Desk.setPost (d : Desk) (t : Ticket) : Desk :=
  { d with posts := Function.update d.posts id (some t) }

def Desk.setRun (d : Desk) (stage : RunStage) : Desk :=
  { d with runs := Function.update d.runs id (some stage) }

variable [LockFormat]

def Desk.lockStep (d : Desk) (act : PhaseLock.Act) : Option Desk :=
  (PhaseLock.step d.lock act).map fun lock => { d with lock }

def Desk.apply (d : Desk) (t : Ticket) : Move PostStage → Option Desk
  | .lock act => d.lockStep act
  | .goto stage => some (d.setPost id { t with stage })
  | .put bytes =>
      some ({ d with response := some bytes }.setPost id
        { t with stage := .sync, wrote := some d.epoch })
  | .lose message =>
      some (d.setPost id { t with stage := .dropping (.error (.io message)), unsynced := true })

def Desk.applyRun (d : Desk) : Move RunStage → Option Desk
  | .lock act => d.lockStep act
  | .goto stage => some (d.setRun id stage)
  | .put _ | .lose _ => none

inductive Act where
  | post (id process : ℕ) (pid : UInt32) (host : String) (guard : Option PostGuardConfig)
      (headers : Headers) (post : Post)
  | work (id : ℕ) (env : Env)
  | resume (id process : ℕ) (pid : UInt32) (host : String)
  | run (id : ℕ) (env : Env)
  | finish (id : ℕ) (result : Except ResumeError Unit)
  | other (act : PhaseLock.Act)
  | consume

def handleOf : PhaseLock.Act → Option ℕ
  | .acquire id _ _ _ _ _ _ | .advance id _ | .release id _ | .drop id _ => some id
  | .crash _ => none

def Desk.unused (d : Desk) (id : ℕ) : Prop :=
  d.posts id = none ∧ d.runs id = none

instance (d : Desk) (id : ℕ) : Decidable (d.unused id) :=
  inferInstanceAs (Decidable (d.posts id = none ∧ d.runs id = none))

/-- The verifier consumes a response without the lock. -/
def step (d : Desk) : Act → Option Desk
  | .post id process pid host guard headers post =>
      if d.unused id then
        match (guard.map (checkPostOrigin headers)).getD (.ok ()) with
        | .error (status, message) =>
            some (d.setPost id ⟨post, .replied (.refused status message), none, false⟩)
        | .ok () =>
            (d.lockStep (.acquire id process cfg.phase cfg.runId pid host none)).map
              (Desk.setPost id · ⟨post, .locking, none, false⟩)
      else none
  | .work id env => do
      let t ← d.posts id
      let h ← d.lock.handles id
      let move ← t.move cfg id env h d.response.isSome
      d.apply id t move
  | .resume id process pid host =>
      if d.unused id then
        (d.lockStep (.acquire id process cfg.phase cfg.runId pid host none)).map
          (Desk.setRun id · .locking)
      else none
  | .run id env => do
      let stage ← d.runs id
      let h ← d.lock.handles id
      let move ← stage.move id env h
      d.applyRun id move
  | .finish id result =>
      match d.runs id with
      | some .running => some (d.setRun id (.dropping result))
      | _ => none
  | .other act =>
      if ∀ id, handleOf act = some id → d.unused id then d.lockStep act else none
  | .consume => some { d with response := none, epoch := d.epoch + 1 }

/-- Nothing has been posted or resumed and no handle has been opened; there may be a response. -/
structure Initial (d : Desk) : Prop where
  lock : PhaseLock.Initial d.lock
  posts : ∀ id, d.posts id = none
  runs : ∀ id, d.runs id = none
  epoch : d.epoch = 0

end Steps

section Stages

/-- The request has not been replied to. -/
def PostStage.busy : PostStage → Bool
  | .replied _ => false
  | _ => true

/-- The request has the lock. -/
def PostStage.inside : PostStage → Bool
  | .look | .prepare _ | .write _ | .sync => true
  | _ => false

/-- The request has found no response and is about to write one. -/
def PostStage.ready : PostStage → Bool
  | .prepare _ | .write _ => true
  | _ => false

def RunStage.busy : RunStage → Bool
  | .returned _ => false
  | _ => true

def RunStage.inside : RunStage → Bool
  | .running => true
  | _ => false

lemma PostStage.inside_of_ready {stage : PostStage} (h : stage.ready = true) : stage.inside = true := by
  cases stage <;> simp [PostStage.ready] at h <;> rfl

lemma PostStage.busy_of_inside {stage : PostStage} (h : stage.inside = true) : stage.busy = true := by
  cases stage <;> simp [PostStage.inside] at h <;> rfl

lemma setPost_posts (d : Desk) (id id' : ℕ) (t : Ticket) :
    (d.setPost id t).posts id' = if id' = id then some t else d.posts id' := by
  simp [Desk.setPost, Function.update_apply]

lemma setRun_runs (d : Desk) (id id' : ℕ) (stage : RunStage) :
    (d.setRun id stage).runs id' = if id' = id then some stage else d.runs id' := by
  simp [Desk.setRun, Function.update_apply]

/-- A request or a run that is busy has a handle of the phase, and the lock while it is inside. -/
def Placed (cfg : HumanVerifierConfig) (w : World) (id : ℕ) (busy inside : Bool) : Prop :=
  busy = true → ∃ h, w.handles id = some h ∧ h.body.phase = cfg.phase ∧
    (inside = true → h.stage = .held ∨ h.stage = .crashed)

end Stages

section Frames

variable [LockFormat] {w w' : World} {act : PhaseLock.Act} {id : ℕ} {h : Handle}

/-- A step of the locks keeps the phase of a handle, and its stage unless the step is its own or its
process dies. -/
lemma lock_handle (hinv : PhaseLock.Inv w) (hstep : PhaseLock.step w act = some w')
    (hh : w.handles id = some h) : ∃ h', w'.handles id = some h' ∧ h'.body.phase = h.body.phase ∧
      (handleOf act ≠ some id → h'.stage = h.stage ∨ h'.stage = .crashed) := by
  have hstore : ∀ (i : ℕ) (v : PhaseLock.View), (i = id → v.handle.body.phase = h.body.phase) →
      ∃ h', (w.store i v).handles id = some h' ∧ h'.body.phase = h.body.phase ∧
        (some i ≠ some id → h'.stage = h.stage ∨ h'.stage = .crashed) := by
    intro i v hphase
    by_cases hi : i = id
    · subst hi
      exact ⟨_, PhaseLock.store_handles_self w i v, hphase rfl, fun hne => absurd rfl hne⟩
    · exact ⟨h, by rw [PhaseLock.store_handles_ne w v (Ne.symm hi), hh], rfl, fun _ => Or.inl rfl⟩
  cases act with
  | acquire i process phase runId pid host ttl =>
      simp only [PhaseLock.step] at hstep
      split at hstep
      · cases hstep
      · next hnew =>
        cases hstep
        have hne : id ≠ i := by
          rintro rfl
          rw [hh] at hnew
          cases hnew
        exact ⟨h, by simp [World.setHandle, hne, hh], rfl, fun _ => Or.inl rfl⟩
  | advance i env =>
      obtain ⟨g, hg, rfl⟩ := Option.map_eq_some_iff.mp hstep
      refine hstore i _ fun hi => ?_
      subst hi
      obtain rfl := Option.some.inj (hh.symm.trans hg)
      exact (PhaseLock.next_advances (hinv.fits i h hh)).phase
  | release i env =>
      obtain ⟨g, hg, rfl⟩ := Option.map_eq_some_iff.mp hstep
      obtain ⟨hg, hheld⟩ := Option.filter_eq_some_iff.mp hg
      refine hstore i _ fun hi => ?_
      subst hi
      obtain rfl := Option.some.inj (hh.symm.trans hg)
      exact (PhaseLock.release_advances (hinv.fits i h hh) (of_decide_eq_true hheld)).phase
  | drop i env =>
      obtain ⟨g, hg, rfl⟩ := Option.map_eq_some_iff.mp hstep
      obtain ⟨hg, hheld⟩ := Option.filter_eq_some_iff.mp hg
      refine hstore i _ fun hi => ?_
      subst hi
      obtain rfl := Option.some.inj (hh.symm.trans hg)
      exact (PhaseLock.drop_advances (hinv.fits i h hh) (of_decide_eq_true hheld)).phase
  | crash process =>
      cases hstep
      refine ⟨h.kill process, by simp [World.kill, hh], ?_, fun _ => ?_⟩
      · unfold Handle.kill
        split
        · rfl
        · rfl
      · unfold Handle.kill
        split
        · exact Or.inr rfl
        · exact Or.inl rfl

omit [LockFormat] in
/-- Two handles of a phase do not hold its lock at once. -/
lemma held_unique {id' : ℕ} {h' : Handle} (hinv : PhaseLock.Inv w) (hh : w.handles id = some h)
    (hh' : w.handles id' = some h') (hphase : h'.body.phase = h.body.phase) (hheld : h.stage = .held)
    (hheld' : h'.stage = .held) : id = id' := by
  have howner : PhaseLock.Holds w id h.body.phase := ⟨h, hh, rfl, by rw [hheld]; rfl⟩
  have howner' : PhaseLock.Holds w id' h.body.phase := ⟨h', hh', hphase, by rw [hheld']; rfl⟩
  exact Option.some.inj ((howner.owner hinv).symm.trans (howner'.owner hinv))

lemma lockStep_some {d d' : Desk} (h : d.lockStep act = some d') :
    ∃ lock, PhaseLock.step d.lock act = some lock ∧ d' = { d with lock } := by
  obtain ⟨lock, hlock, rfl⟩ := Option.map_eq_some_iff.mp h
  exact ⟨lock, hlock, rfl⟩

lemma placed_lock {cfg : HumanVerifierConfig} {busy inside : Bool} (hinv : PhaseLock.Inv w)
    (hstep : PhaseLock.step w act = some w') (hplaced : Placed cfg w id busy inside)
    (hact : handleOf act = some id → inside = false) : Placed cfg w' id busy inside := by
  intro hbusy
  obtain ⟨h, hh, hphase, hstages⟩ := hplaced hbusy
  obtain ⟨h', hh', hphase', hkept⟩ := lock_handle hinv hstep hh
  refine ⟨h', hh', hphase'.trans hphase, fun hinside => ?_⟩
  have hother : handleOf act ≠ some id := fun heq => absurd (hact heq) (by simp [hinside])
  rcases hkept hother with hsame | hcrashed
  · rw [hsame]
    exact hstages hinside
  · exact Or.inr hcrashed

end Frames

section Invariants

variable [GateFormat]

/-- What a request has written so far, and that it succeeds exactly with a write that was synced. -/
def Ticket.Fits (cfg : HumanVerifierConfig) (t : Ticket) : Prop :=
  match t.stage with
  | .locking | .look => t.wrote = none ∧ t.unsynced = false
  | .prepare bytes | .write bytes => t.wrote = none ∧ t.unsynced = false ∧
      ∃ decidedAt, bytes = responseBytes cfg t.post decidedAt
  | .sync => t.wrote.isSome ∧ t.unsynced = false
  | .dropping result | .replied (.done result) =>
      (result = .ok () ↔ t.wrote.isSome ∧ t.unsynced = false) ∧
        (t.unsynced → t.wrote.isSome ∧ ∃ message, result = .error (.io message))
  | .replied (.refused status _) =>
      t.wrote = none ∧ t.unsynced = false ∧ (status = 403 ∨ status = 415)

/-- The response is the one that a request has written since the last consumption, or no request has
written since. -/
def Current (cfg : HumanVerifierConfig) (before : Option Bytes) (d : Desk) : Prop :=
  (∃ id t decidedAt, d.posts id = some t ∧ t.wrote = some d.epoch ∧
    d.response = some (responseBytes cfg t.post decidedAt)) ∨
  (∀ id t, d.posts id = some t → t.wrote ≠ some d.epoch) ∧
    (d.response = none ∨ d.epoch = 0 ∧ d.response = before)

structure Sound (cfg : HumanVerifierConfig) (before : Option Bytes) (d : Desk) : Prop where
  lock : PhaseLock.Inv d.lock
  apart : ∀ id, d.posts id = none ∨ d.runs id = none
  posts : ∀ id t, d.posts id = some t → Placed cfg d.lock id t.stage.busy t.stage.inside
  runs : ∀ id stage, d.runs id = some stage → Placed cfg d.lock id stage.busy stage.inside
  fits : ∀ id t, d.posts id = some t → t.Fits cfg
  free : ∀ id t h, d.posts id = some t → t.stage.ready = true → d.lock.handles id = some h →
    h.stage = .held → d.response = none
  past : ∀ id t e, d.posts id = some t → t.wrote = some e → e ≤ d.epoch
  writers : ∀ id id' t t' e, d.posts id = some t → d.posts id' = some t' → t.wrote = some e →
    t'.wrote = some e → id = id'
  current : Current cfg before d

variable {cfg : HumanVerifierConfig} {before : Option Bytes} {d d' : Desk} {id : ℕ} {t : Ticket}
  {h : Handle} {bytes : Bytes}

lemma Initial.sound (hd : Initial d) : Sound cfg d.response d where
  lock := hd.lock.inv
  apart id := Or.inl (hd.posts id)
  posts id t ht := by simp [hd.posts id] at ht
  runs id stage hr := by simp [hd.runs id] at hr
  fits id t ht := by simp [hd.posts id] at ht
  free id t h ht := by simp [hd.posts id] at ht
  past id t e ht := by simp [hd.posts id] at ht
  writers id id' t t' e ht := by simp [hd.posts id] at ht
  current := Or.inr ⟨fun id t ht => by simp [hd.posts id] at ht, Or.inr ⟨hd.epoch, rfl⟩⟩

lemma Sound.running_ne {run : RunStage} {r : ℕ} (hs : Sound cfg before d) (ht : d.posts id = some t)
    (hrun : d.runs r = some run) : r ≠ id := by
  rintro rfl
  rcases hs.apart r with hnone | hnone
  · rw [ht] at hnone
    cases hnone
  · rw [hrun] at hnone
    cases hnone

/-- A ticket is replaced by one that has written as much, or a new one begins. -/
lemma sound_setPost (hs : Sound cfg before d) (hrun : d.runs id = none)
    (hplaced : Placed cfg d.lock id t.stage.busy t.stage.inside) (hfits : t.Fits cfg)
    (hfree : t.stage.ready = true → d.response = none)
    (hold : (d.posts id = none ∧ t.wrote = none) ∨
      ∃ t₀, d.posts id = some t₀ ∧ t.wrote = t₀.wrote ∧ t.post = t₀.post) :
    Sound cfg before (d.setPost id t) := by
  -- What a ticket has written, a ticket of the same number had written before.
  have hwrote : ∀ i t' e, (d.setPost id t).posts i = some t' → t'.wrote = some e →
      ∃ t₀, d.posts i = some t₀ ∧ t₀.wrote = some e := by
    intro i t' e ht' he
    rw [setPost_posts] at ht'
    split at ht'
    · next hi =>
      subst hi
      obtain rfl := Option.some.inj ht'
      rcases hold with ⟨-, hnone⟩ | ⟨t₀, ht₀, hsame, -⟩
      · rw [hnone] at he
        cases he
      · exact ⟨t₀, ht₀, hsame ▸ he⟩
    · exact ⟨t', ht', he⟩
  refine ⟨hs.lock, fun i => ?_, fun i t' ht' => ?_, hs.runs, fun i t' ht' => ?_,
    fun i t' g ht' hready hg hheld => ?_, fun i t' e ht' he => ?_, fun i i' t' t'' e ht' ht'' he he' => ?_,
    ?_⟩
  · by_cases hi : i = id
    · exact Or.inr (hi ▸ hrun)
    · rw [setPost_posts, if_neg hi]
      exact hs.apart i
  · rw [setPost_posts] at ht'
    split at ht'
    · next hi =>
      subst hi
      obtain rfl := Option.some.inj ht'
      exact hplaced
    · exact hs.posts i t' ht'
  · rw [setPost_posts] at ht'
    split at ht'
    · obtain rfl := Option.some.inj ht'
      exact hfits
    · exact hs.fits i t' ht'
  · rw [setPost_posts] at ht'
    split at ht'
    · obtain rfl := Option.some.inj ht'
      exact hfree hready
    · exact hs.free i t' g ht' hready hg hheld
  · obtain ⟨t₀, ht₀, he₀⟩ := hwrote i t' e ht' he
    exact hs.past i t₀ e ht₀ he₀
  · obtain ⟨t₀, ht₀, he₀⟩ := hwrote i t' e ht' he
    obtain ⟨t₁, ht₁, he₁⟩ := hwrote i' t'' e ht'' he'
    exact hs.writers i i' t₀ t₁ e ht₀ ht₁ he₀ he₁
  · rcases hs.current with ⟨i, t₀, decidedAt, ht₀, he, hresponse⟩ | ⟨hnone, hresponse⟩
    · left
      by_cases hi : i = id
      · subst hi
        rcases hold with ⟨hnew, -⟩ | ⟨t₁, ht₁, hsame, hpost⟩
        · rw [hnew] at ht₀
          cases ht₀
        · obtain rfl := Option.some.inj (ht₀.symm.trans ht₁)
          exact ⟨i, t, decidedAt, by simp [setPost_posts], hsame.trans he, by rw [hpost]; exact hresponse⟩
      · exact ⟨i, t₀, decidedAt, by simp [setPost_posts, hi, ht₀], he, hresponse⟩
    · refine Or.inr ⟨fun i t' ht' he => ?_, hresponse⟩
      obtain ⟨t₀, ht₀, he₀⟩ := hwrote i t' _ ht' he
      exact hnone i t₀ ht₀ he₀

lemma sound_setRun {stage : RunStage} (hs : Sound cfg before d) (hpost : d.posts id = none)
    (hplaced : Placed cfg d.lock id stage.busy stage.inside) :
    Sound cfg before (d.setRun id stage) := by
  refine ⟨hs.lock, fun i => ?_, hs.posts, fun i stage' hr => ?_, hs.fits, hs.free, hs.past, hs.writers,
    hs.current⟩
  · by_cases hi : i = id
    · exact Or.inl (hi ▸ hpost)
    · rw [setRun_runs, if_neg hi]
      exact hs.apart i
  · rw [setRun_runs] at hr
    split at hr
    · next hi =>
      subst hi
      obtain rfl := Option.some.inj hr
      exact hplaced
    · exact hs.runs i stage' hr

lemma sound_consume (hs : Sound cfg before d) :
    Sound cfg before { d with response := none, epoch := d.epoch + 1 } := by
  refine ⟨hs.lock, hs.apart, hs.posts, hs.runs, hs.fits, fun _ _ _ _ _ _ _ => rfl,
    fun i t e ht he => (hs.past i t e ht he).trans (Nat.le_succ _), hs.writers, Or.inr ⟨?_, Or.inl rfl⟩⟩
  intro i t ht he
  have hle := hs.past i t _ ht he
  exact absurd hle (Nat.not_succ_le_self d.epoch)

/-- The one request that has found no response and holds the lock writes one. -/
lemma sound_put (hs : Sound cfg before d) (ht : d.posts id = some t) (hstage : t.stage = .write bytes)
    (hh : d.lock.handles id = some h) (hlive : h.stage ≠ .crashed) :
    Sound cfg before ({ d with response := some bytes }.setPost id
      { t with stage := .sync, wrote := some d.epoch }) := by
  have hinside : t.stage.inside = true := by rw [hstage]; rfl
  obtain ⟨h₀, hh₀, hphase, hstages⟩ := hs.posts id t ht (PostStage.busy_of_inside hinside)
  obtain rfl := Option.some.inj (hh.symm.trans hh₀)
  have hheld : h.stage = .held := (hstages hinside).resolve_right hlive
  have hnone : d.response = none := hs.free id t h ht (by rw [hstage]; rfl) hh hheld
  -- Nobody has written since the last consumption.
  have hfresh : ∀ i t', d.posts i = some t' → t'.wrote ≠ some d.epoch := by
    rcases hs.current with ⟨i, t₀, decidedAt, -, -, hresponse⟩ | ⟨hfresh, -⟩
    · rw [hnone] at hresponse
      cases hresponse
    · exact hfresh
  obtain ⟨hwrote, hsynced, decidedAt, hbytes⟩ : t.wrote = none ∧ t.unsynced = false ∧
      ∃ decidedAt, bytes = responseBytes cfg t.post decidedAt := by
    simpa [Ticket.Fits, hstage] using hs.fits id t ht
  have hother : ∀ i t' e, i ≠ id → d.posts i = some t' → t'.wrote = some e → e ≠ d.epoch := by
    rintro i t' e - ht' he rfl
    exact hfresh i t' ht' he
  refine ⟨hs.lock, fun i => ?_, fun i t' ht' => ?_, hs.runs, fun i t' ht' => ?_,
    fun i t' g ht' hready hg hheld' => ?_, fun i t' e ht' he => ?_,
    fun i i' t' t'' e ht' ht'' he he' => ?_, 
    Or.inl ⟨id, { t with stage := .sync, wrote := some d.epoch }, decidedAt, ?_, rfl, ?_⟩⟩
  · by_cases hi : i = id
    · subst hi
      refine Or.inr ((hs.apart i).resolve_left ?_)
      simp [ht]
    · rw [setPost_posts, if_neg hi]
      exact hs.apart i
  · rw [setPost_posts] at ht'
    split at ht'
    · next hi =>
      subst hi
      obtain rfl := Option.some.inj ht'
      exact fun _ => ⟨h, hh, hphase, fun _ => Or.inl hheld⟩
    · exact hs.posts i t' ht'
  · rw [setPost_posts] at ht'
    split at ht'
    · obtain rfl := Option.some.inj ht'
      exact ⟨rfl, hsynced⟩
    · exact hs.fits i t' ht'
  · rw [setPost_posts] at ht'
    split at ht'
    · obtain rfl := Option.some.inj ht'
      cases hready
    · next hi =>
      obtain ⟨g', hg', hphase', -⟩ := hs.posts i t' ht'
        (PostStage.busy_of_inside (PostStage.inside_of_ready hready))
      obtain rfl := Option.some.inj (hg.symm.trans hg')
      exact absurd (held_unique hs.lock hg hh (hphase.trans hphase'.symm) hheld' hheld) hi
  · rw [setPost_posts] at ht'
    split at ht'
    · obtain rfl := Option.some.inj ht'
      exact (Option.some.inj he).symm.le
    · exact hs.past i t' e ht' he
  · rw [setPost_posts] at ht' ht''
    split at ht'
    · next hi =>
      split at ht''
      · next hi' => exact hi.trans hi'.symm
      · next hi' =>
        obtain rfl := Option.some.inj ht'
        exact absurd (Option.some.inj he).symm (hother i' t'' e hi' ht'' he')
    · next hi =>
      split at ht''
      · obtain rfl := Option.some.inj ht''
        exact absurd (Option.some.inj he').symm (hother i t' e hi ht' he)
      · exact hs.writers i i' t' t'' e ht' ht'' he he'
  · simp [setPost_posts]
  · show some bytes = some (responseBytes cfg t.post decidedAt)
    rw [hbytes]

variable [LockFormat] {act : PhaseLock.Act}

/-- A step of the locks by a handle that nobody works under. -/
lemma sound_lock (hs : Sound cfg before d) (hstep : d.lockStep act = some d')
    (hposts : ∀ id t, handleOf act = some id → d.posts id = some t → t.stage.inside = false)
    (hruns : ∀ id stage, handleOf act = some id → d.runs id = some stage → stage.inside = false) :
    Sound cfg before d' := by
  obtain ⟨lock, hlock, rfl⟩ := lockStep_some hstep
  refine ⟨PhaseLock.step_inv hs.lock hlock, hs.apart,
    fun i t ht => placed_lock hs.lock hlock (hs.posts i t ht) fun hact => hposts i t hact ht,
    fun i stage hr => placed_lock hs.lock hlock (hs.runs i stage hr) fun hact => hruns i stage hact hr,
    hs.fits, fun i t h' ht hready hh' hheld => ?_, hs.past, hs.writers, hs.current⟩
  have hinside := PostStage.inside_of_ready hready
  obtain ⟨h, hh, -, -⟩ := hs.posts i t ht (PostStage.busy_of_inside hinside)
  obtain ⟨h₁, hh₁, -, hkept⟩ := lock_handle hs.lock hlock hh
  obtain rfl := Option.some.inj (hh'.symm.trans hh₁)
  have hother : handleOf act ≠ some i := by
    intro heq
    rw [hposts i t heq ht] at hinside
    cases hinside
  rcases hkept hother with hsame | hcrashed
  · exact hs.free i t h ht hready hh (hsame.symm.trans hheld)
  · rw [hcrashed] at hheld
    cases hheld

end Invariants

section Moves

variable [GateFormat] {cfg : HumanVerifierConfig} {id : ℕ} {env : Env} {t : Ticket} {h : Handle}
  {taken : Bool} {stage : PostStage} {act : PhaseLock.Act} {bytes : Bytes} {message : String}

lemma Ticket.move_live {move : Move PostStage} (hmove : t.move cfg id env h taken = some move) :
    h.stage ≠ .crashed := by
  intro hcrashed
  simp [Ticket.move, hcrashed] at hmove

/-- Only a request outside the lock moves its handle. -/
lemma Ticket.move_lock (hmove : t.move cfg id env h taken = some (.lock act)) :
    t.stage.inside = false ∧ handleOf act = some id := by
  have hlive := Ticket.move_live hmove
  simp only [Ticket.move, if_neg hlive] at hmove
  split at hmove
  · next hs =>
    rw [hs]
    split at hmove
    · cases hmove
    · cases hmove
    · cases hmove
      exact ⟨rfl, rfl⟩
  · split at hmove
    all_goals cases hmove
  · split at hmove
    all_goals cases hmove
  · split at hmove
    all_goals cases hmove
  · split at hmove
    all_goals cases hmove
  · next hs =>
    rw [hs]
    split at hmove
    · cases hmove
      exact ⟨rfl, rfl⟩
    · cases hmove
    · cases hmove
      exact ⟨rfl, rfl⟩
  · cases hmove

lemma Ticket.move_put (hmove : t.move cfg id env h taken = some (.put bytes)) :
    t.stage = .write bytes := by
  have hlive := Ticket.move_live hmove
  simp only [Ticket.move, if_neg hlive] at hmove
  split at hmove
  case h_4 hs =>
    split at hmove
    · cases hmove
    · cases hmove
      exact hs
  case h_7 => cases hmove
  all_goals
    split at hmove
    all_goals cases hmove

lemma Ticket.move_lose (hmove : t.move cfg id env h taken = some (.lose message)) :
    t.stage = .sync := by
  have hlive := Ticket.move_live hmove
  simp only [Ticket.move, if_neg hlive] at hmove
  split at hmove
  case h_5 hs => exact hs
  case h_7 => cases hmove
  all_goals
    split at hmove
    all_goals cases hmove

/-- A request that moves on by itself comes to a stage that fits, inside the lock only when it holds
it, and is ready to write only when it has found no response. -/
lemma Ticket.move_goto (hfits : t.Fits cfg)
    (hinside : t.stage.inside = true → h.stage = .held ∨ h.stage = .crashed)
    (hmove : t.move cfg id env h taken = some (.goto stage)) :
    Ticket.Fits cfg { t with stage } ∧ (stage.inside = true → h.stage = .held) ∧
      (stage.ready = true → taken = false ∨ t.stage.ready = true) := by
  have hlive := Ticket.move_live hmove
  have hheld : t.stage.inside = true → h.stage = .held := fun hi => (hinside hi).resolve_right hlive
  simp only [Ticket.move, if_neg hlive] at hmove
  split at hmove
  · next hs =>
    obtain ⟨hwrote, hsynced⟩ : t.wrote = none ∧ t.unsynced = false := by
      simpa [Ticket.Fits, hs] using hfits
    split at hmove
    · next hheld =>
      cases hmove
      exact ⟨⟨hwrote, hsynced⟩, fun _ => hheld, nofun⟩
    · cases hmove
      exact ⟨by simp [Ticket.Fits, hwrote, hsynced], nofun, nofun⟩
    · cases hmove
  · next hs =>
    obtain ⟨hwrote, hsynced⟩ : t.wrote = none ∧ t.unsynced = false := by
      simpa [Ticket.Fits, hs] using hfits
    split at hmove
    · cases hmove
      exact ⟨by simp [Ticket.Fits, hwrote, hsynced], nofun, nofun⟩
    · next hfree =>
      cases hmove
      exact ⟨⟨hwrote, hsynced, _, rfl⟩, fun _ => hheld (by rw [hs]; rfl),
        fun _ => Or.inl (by simpa using hfree)⟩
  · next hs =>
    obtain ⟨hwrote, hsynced, hbytes⟩ := (by simpa [Ticket.Fits, hs] using hfits :
      t.wrote = none ∧ t.unsynced = false ∧ _)
    split at hmove
    · cases hmove
      exact ⟨by simp [Ticket.Fits, hwrote, hsynced], nofun, nofun⟩
    · cases hmove
      exact ⟨⟨hwrote, hsynced, hbytes⟩, fun _ => hheld (by rw [hs]; rfl), fun _ => Or.inr (by rw [hs]; rfl)⟩
  · next hs =>
    obtain ⟨hwrote, hsynced, -⟩ := (by simpa [Ticket.Fits, hs] using hfits :
      t.wrote = none ∧ t.unsynced = false ∧ _)
    split at hmove
    · cases hmove
      exact ⟨by simp [Ticket.Fits, hwrote, hsynced], nofun, nofun⟩
    · cases hmove
  · next hs =>
    obtain ⟨hwrote, hsynced⟩ : t.wrote.isSome ∧ t.unsynced = false := by
      simpa [Ticket.Fits, hs] using hfits
    split at hmove
    · cases hmove
    · cases hmove
      exact ⟨by simp [Ticket.Fits, hwrote, hsynced], nofun, nofun⟩
  · next hs =>
    split at hmove
    · cases hmove
    · cases hmove
      exact ⟨by simpa [Ticket.Fits, hs] using hfits, nofun, nofun⟩
    · cases hmove
  · cases hmove

variable {run stage' : RunStage}

omit [GateFormat] in
lemma RunStage.move_lock (hmove : run.move id env h = some (.lock act)) :
    run.inside = false ∧ handleOf act = some id := by
  unfold RunStage.move at hmove
  split at hmove
  · cases hmove
  split at hmove
  · split at hmove
    · cases hmove
    · cases hmove
    · cases hmove
      exact ⟨rfl, rfl⟩
  · split at hmove
    · cases hmove
      exact ⟨rfl, rfl⟩
    · cases hmove
    · cases hmove
      exact ⟨rfl, rfl⟩
  · cases hmove
  · cases hmove

omit [GateFormat] in
lemma RunStage.move_goto (hmove : run.move id env h = some (.goto stage')) :
    stage'.inside = true → h.stage = .held := by
  unfold RunStage.move at hmove
  split at hmove
  · cases hmove
  split at hmove
  · split at hmove
    · next hheld => exact fun _ => hheld
    · cases hmove
      exact nofun
    · cases hmove
  · split at hmove
    · cases hmove
    · cases hmove
      exact nofun
    · cases hmove
  · cases hmove
  · cases hmove

end Moves

section Reachable

variable [GateFormat] [LockFormat] {cfg : HumanVerifierConfig} {before : Option Bytes} {d d' d₀ : Desk}
  {id : ℕ} {t : Ticket} {act : Act} {meets : Desk → Act → Prop}

omit [GateFormat] [LockFormat] in
lemma checkPostOrigin_refused {headers : Headers} {guard : Option PostGuardConfig} {status : ℕ}
    {message : String}
    (h : (guard.map (checkPostOrigin headers)).getD (.ok ()) = .error (status, message)) :
    status = 403 ∨ status = 415 := by
  cases guard with
  | none => cases h
  | some config =>
      simp only [Option.map_some, Option.getD_some] at h
      unfold checkPostOrigin at h
      split at h
      · cases h
        exact Or.inl rfl
      · split at h
        · cases h
        · split at h
          · cases h
          · cases h
            exact Or.inr rfl

omit [GateFormat] in
/-- A lock that is asked for gets a handle of the phase. -/
lemma acquire_placed {process : ℕ} {pid : UInt32} {host : String} {busy : Bool}
    (hstep : d.lockStep (.acquire id process cfg.phase cfg.runId pid host none) = some d') :
    Placed cfg d'.lock id busy false := by
  obtain ⟨lock, hlock, rfl⟩ := lockStep_some hstep
  intro _
  simp only [PhaseLock.step] at hlock
  split at hlock
  · cases hlock
  · cases hlock
    exact ⟨_, by simp [World.setHandle]; rfl, rfl, by simp⟩

lemma acquire_sound {process : ℕ} {pid : UInt32} {host : String} (hs : Sound cfg before d)
    (hunused : d.unused id)
    (hstep : d.lockStep (.acquire id process cfg.phase cfg.runId pid host none) = some d') :
    Sound cfg before d' ∧ d'.posts id = none ∧ d'.runs id = none := by
  have hkept : d'.posts = d.posts ∧ d'.runs = d.runs := by
    obtain ⟨lock, -, rfl⟩ := lockStep_some hstep
    exact ⟨rfl, rfl⟩
  refine ⟨sound_lock hs hstep (fun i t hi ht => ?_) (fun i stage hi hr => ?_), ?_, ?_⟩
  · obtain rfl := Option.some.inj hi
    rw [hunused.1] at ht
    cases ht
  · obtain rfl := Option.some.inj hi
    rw [hunused.2] at hr
    cases hr
  · rw [hkept.1]
    exact hunused.1
  · rw [hkept.2]
    exact hunused.2

lemma work_sound {env : Env} {h : Handle} {move : Move PostStage} (hs : Sound cfg before d)
    (ht : d.posts id = some t) (hh : d.lock.handles id = some h)
    (hmove : t.move cfg id env h d.response.isSome = some move) (happly : d.apply id t move = some d') :
    Sound cfg before d' := by
  have hrun : d.runs id = none := (hs.apart id).resolve_left (by simp [ht])
  have hfits := hs.fits id t ht
  have hplaced : t.stage.busy = true → h.body.phase = cfg.phase ∧
      (t.stage.inside = true → h.stage = .held ∨ h.stage = .crashed) := by
    intro hbusy
    obtain ⟨h₀, hh₀, hphase, hstages⟩ := hs.posts id t ht hbusy
    obtain rfl := Option.some.inj (hh.symm.trans hh₀)
    exact ⟨hphase, hstages⟩
  have hbusy : t.stage.busy = true := by
    cases hstage : t.stage with
    | replied reply => simp [Ticket.move, hstage] at hmove
    | _ => rfl
  obtain ⟨hphase, hstages⟩ := hplaced hbusy
  cases move with
  | lock act =>
      obtain ⟨houtside, hact⟩ := Ticket.move_lock hmove
      refine sound_lock hs happly (fun i t' hi ht' => ?_) (fun i stage hi hr => ?_)
      · obtain rfl := Option.some.inj (hact.symm.trans hi)
        obtain rfl := Option.some.inj (ht.symm.trans ht')
        exact houtside
      · obtain rfl := Option.some.inj (hact.symm.trans hi)
        rw [hrun] at hr
        cases hr
  | goto stage =>
      obtain ⟨hfits', hheld, hready⟩ := Ticket.move_goto hfits hstages hmove
      cases happly
      refine sound_setPost hs hrun (fun _ => ⟨h, hh, hphase, fun hi => Or.inl (hheld hi)⟩) hfits'
        (fun hr => ?_) (Or.inr ⟨t, ht, rfl, rfl⟩)
      rcases hready hr with hfree | hwas
      · simpa using hfree
      · exact hs.free id t h ht hwas hh (hheld (PostStage.inside_of_ready hr))
  | put bytes =>
      cases happly
      exact sound_put hs ht (Ticket.move_put hmove) hh (Ticket.move_live hmove)
  | lose message =>
      cases happly
      obtain ⟨hwrote, -⟩ : t.wrote.isSome ∧ t.unsynced = false := by
        simpa [Ticket.Fits, Ticket.move_lose hmove] using hfits
      exact sound_setPost hs hrun (fun _ => ⟨h, hh, hphase, nofun⟩)
        ⟨by simp, fun _ => ⟨hwrote, message, rfl⟩⟩ nofun (Or.inr ⟨t, ht, rfl, rfl⟩)

lemma run_sound {env : Env} {h : Handle} {run : RunStage} {move : Move RunStage}
    (hs : Sound cfg before d) (hr : d.runs id = some run) (hh : d.lock.handles id = some h)
    (hmove : run.move id env h = some move) (happly : d.applyRun id move = some d') :
    Sound cfg before d' := by
  have hpost : d.posts id = none := (hs.apart id).resolve_right (by simp [hr])
  have hbusy : run.busy = true := by
    cases run with
    | returned result => simp [RunStage.move] at hmove
    | _ => rfl
  obtain ⟨h₀, hh₀, hphase, -⟩ := hs.runs id run hr hbusy
  obtain rfl := Option.some.inj (hh.symm.trans hh₀)
  cases move with
  | lock act =>
      obtain ⟨houtside, hact⟩ := RunStage.move_lock hmove
      refine sound_lock hs happly (fun i t' hi ht' => ?_) (fun i stage hi hr' => ?_)
      · obtain rfl := Option.some.inj (hact.symm.trans hi)
        rw [hpost] at ht'
        cases ht'
      · obtain rfl := Option.some.inj (hact.symm.trans hi)
        obtain rfl := Option.some.inj (hr.symm.trans hr')
        exact houtside
  | goto stage =>
      cases happly
      exact sound_setRun hs hpost fun _ => ⟨h, hh, hphase, fun hi => Or.inl (RunStage.move_goto hmove hi)⟩
  | put bytes => cases happly
  | lose message => cases happly

lemma step_sound (hs : Sound cfg before d) (hstep : step cfg d act = some d') : Sound cfg before d' := by
  cases act with
  | post id process pid host guard headers post =>
      simp only [step] at hstep
      split at hstep
      · next hunused =>
        split at hstep
        · next status message hrefused =>
          cases hstep
          exact sound_setPost hs hunused.2 nofun ⟨rfl, rfl, checkPostOrigin_refused hrefused⟩ nofun
            (Or.inl ⟨hunused.1, rfl⟩)
        · obtain ⟨d₁, hacquire, rfl⟩ := Option.map_eq_some_iff.mp hstep
          obtain ⟨hs₁, hposts, hruns⟩ := acquire_sound hs hunused hacquire
          exact sound_setPost hs₁ hruns (acquire_placed hacquire) ⟨rfl, rfl⟩ nofun
            (Or.inl ⟨hposts, rfl⟩)
      · cases hstep
  | work id env =>
      obtain ⟨t, ht, hstep⟩ := Option.bind_eq_some_iff.mp hstep
      obtain ⟨h, hh, hstep⟩ := Option.bind_eq_some_iff.mp hstep
      obtain ⟨move, hmove, happly⟩ := Option.bind_eq_some_iff.mp hstep
      exact work_sound hs ht hh hmove happly
  | resume id process pid host =>
      simp only [step] at hstep
      split at hstep
      · next hunused =>
        obtain ⟨d₁, hacquire, rfl⟩ := Option.map_eq_some_iff.mp hstep
        obtain ⟨hs₁, hposts, -⟩ := acquire_sound hs hunused hacquire
        exact sound_setRun hs₁ hposts (acquire_placed hacquire)
      · cases hstep
  | run id env =>
      obtain ⟨run, hr, hstep⟩ := Option.bind_eq_some_iff.mp hstep
      obtain ⟨h, hh, hstep⟩ := Option.bind_eq_some_iff.mp hstep
      obtain ⟨move, hmove, happly⟩ := Option.bind_eq_some_iff.mp hstep
      exact run_sound hs hr hh hmove happly
  | finish id result =>
      simp only [step] at hstep
      split at hstep
      · next hr =>
        cases hstep
        have hpost : d.posts id = none := (hs.apart id).resolve_right (by simp [hr])
        obtain ⟨h, hh, hphase, -⟩ := hs.runs id _ hr rfl
        exact sound_setRun hs hpost fun _ => ⟨h, hh, hphase, nofun⟩
      · cases hstep
  | other act =>
      simp only [step] at hstep
      split at hstep
      · next hunused =>
        refine sound_lock hs hstep (fun i t hi ht => ?_) (fun i stage hi hr => ?_)
        · rw [(hunused i hi).1] at ht
          cases ht
        · rw [(hunused i hi).2] at hr
          cases hr
      · cases hstep
  | consume =>
      cases hstep
      exact sound_consume hs

lemma run_sound_all (hd : Initial d₀) (hrun : Run (step cfg) meets d₀ d) : Sound cfg d₀.response d :=
  hrun.invariant hd.sound fun _ _ _ hs _ hstep => step_sound hs hstep

/-- Since each consumption at most one request writes; the response is what the request that has
written since the last one wrote; and a request succeeds exactly when it has written and its write
could be synced; when it could not, the request gets an internal error. -/
structure FirstWriteWins (cfg : HumanVerifierConfig) (before : Option Bytes) (d : Desk) : Prop where
  once : ∀ id id' t t' e, d.posts id = some t → d.posts id' = some t' → t.wrote = some e →
    t'.wrote = some e → id = id'
  content : Current cfg before d
  replies : ∀ id t reply, d.posts id = some t → t.stage = .replied reply →
    (reply.status = 200 ↔ t.wrote.isSome ∧ t.unsynced = false) ∧
      (t.unsynced = true → reply.status = 500) ∧ (reply.status = 200 ∨ 400 ≤ reply.status)

omit [LockFormat] in
lemma fits_replied {reply : Reply} (hfits : t.Fits cfg) (hstage : t.stage = .replied reply) :
    (reply.status = 200 ↔ t.wrote.isSome ∧ t.unsynced = false) ∧
      (t.unsynced = true → reply.status = 500) ∧ (reply.status = 200 ∨ 400 ≤ reply.status) := by
  cases reply with
  | refused status message =>
      obtain ⟨hwrote, hsynced, hstatus⟩ :
          t.wrote = none ∧ t.unsynced = false ∧ (status = 403 ∨ status = 415) := by
        simpa [Ticket.Fits, hstage] using hfits
      rcases hstatus with rfl | rfl
      · simp [Reply.status, hwrote, hsynced]
      · simp [Reply.status, hwrote, hsynced]
  | done result =>
      obtain ⟨hresult, hlost⟩ : (result = .ok () ↔ t.wrote.isSome ∧ t.unsynced = false) ∧
          (t.unsynced → t.wrote.isSome ∧ ∃ message, result = .error (.io message)) := by
        simpa [Ticket.Fits, hstage] using hfits
      refine ⟨?_, fun hunsynced => ?_, ?_⟩
      · rw [← hresult]
        match result with
        | .ok () => simp [Reply.status]
        | .error .locked | .error .alreadyExists | .error (.io _) => simp [Reply.status]
      · obtain ⟨-, message, rfl⟩ := hlost hunsynced
        rfl
      · match result with
        | .ok () => simp [Reply.status]
        | .error .locked | .error .alreadyExists | .error (.io _) => simp [Reply.status]

omit [LockFormat] in
lemma Sound.wins (hs : Sound cfg before d) : FirstWriteWins cfg before d where
  once := hs.writers
  content := hs.current
  replies id t _ ht hstage := fits_replied (hs.fits id t ht) hstage

/-- What a step leaves alone: the locks but for a step of their own, the requests of others, and the
response but for a consumption and a request that writes it. -/
structure Frame (act : Act) (d d' : Desk) : Prop where
  lock : d'.lock = d.lock ∨ ∃ move, PhaseLock.step d.lock move = some d'.lock
  posts : ∀ id t, d.posts id = some t → (∀ env, act ≠ .work id env) → d'.posts id = some t
  response : d'.response = d.response ∨ act = .consume ∨ ∃ id env t h bytes, act = .work id env ∧
    d.posts id = some t ∧ d.lock.handles id = some h ∧ h.stage ≠ .crashed ∧ t.stage = .write bytes ∧
    d'.posts id = some { t with stage := .sync, wrote := some d.epoch }

omit [GateFormat] in
lemma frame_lockStep {move : PhaseLock.Act} (h : d.lockStep move = some d') : Frame act d d' := by
  obtain ⟨lock, hlock, rfl⟩ := lockStep_some h
  exact ⟨Or.inr ⟨move, hlock⟩, fun _ _ ht _ => ht, Or.inl rfl⟩

omit [GateFormat] in
lemma frame_same : Frame act d d := ⟨Or.inl rfl, fun _ _ ht _ => ht, Or.inl rfl⟩

omit [GateFormat] in
/-- A request is put down that is new or is the one that works. -/
lemma Frame.setPost (h : Frame act d d') (hsame : d'.response = d.response)
    (hid : d.posts id = none ∨ ∃ env, act = .work id env) (t : Ticket) :
    Frame act d (d'.setPost id t) := by
  refine ⟨h.lock, fun i t' ht' hother => ?_, Or.inl hsame⟩
  have hne : i ≠ id := by
    rintro rfl
    rcases hid with hnone | ⟨env, hact⟩
    · rw [hnone] at ht'
      cases ht'
    · exact hother env hact
  rw [setPost_posts, if_neg hne]
  exact h.posts i t' ht' hother

lemma step_frame (hstep : step cfg d act = some d') : Frame act d d' := by
  cases act with
  | post id process pid host guard headers post =>
      simp only [step] at hstep
      split at hstep
      · next hunused =>
        split at hstep
        · cases hstep
          exact frame_same.setPost rfl (Or.inl hunused.1) _
        · obtain ⟨d₁, hacquire, rfl⟩ := Option.map_eq_some_iff.mp hstep
          have hsame : d₁.response = d.response := by
            obtain ⟨lock, -, rfl⟩ := lockStep_some hacquire
            rfl
          exact (frame_lockStep hacquire).setPost hsame (Or.inl hunused.1) _
      · cases hstep
  | work id env =>
      obtain ⟨t, ht, hstep⟩ := Option.bind_eq_some_iff.mp hstep
      obtain ⟨h, hh, hstep⟩ := Option.bind_eq_some_iff.mp hstep
      obtain ⟨move, hmove, happly⟩ := Option.bind_eq_some_iff.mp hstep
      cases move with
      | lock act => exact frame_lockStep happly
      | goto stage | lose message =>
          cases happly
          exact frame_same.setPost rfl (Or.inr ⟨env, rfl⟩) _
      | put bytes =>
          cases happly
          have hput : Frame (.work id env) d (d.setPost id { t with stage := .sync, wrote := some d.epoch }) :=
            frame_same.setPost rfl (Or.inr ⟨env, rfl⟩) _
          exact ⟨Or.inl rfl, hput.posts, Or.inr (Or.inr ⟨id, env, t, h, bytes, rfl, ht, hh,
            Ticket.move_live hmove, Ticket.move_put hmove, by simp [setPost_posts]⟩)⟩
  | resume id process pid host =>
      simp only [step] at hstep
      split at hstep
      · obtain ⟨d₁, hacquire, rfl⟩ := Option.map_eq_some_iff.mp hstep
        have hframe : Frame (.resume id process pid host) d d₁ := frame_lockStep hacquire
        exact ⟨hframe.lock, hframe.posts, hframe.response⟩
      · cases hstep
  | run id env =>
      obtain ⟨run, -, hstep⟩ := Option.bind_eq_some_iff.mp hstep
      obtain ⟨h, -, hstep⟩ := Option.bind_eq_some_iff.mp hstep
      obtain ⟨move, -, happly⟩ := Option.bind_eq_some_iff.mp hstep
      cases move with
      | lock act => exact frame_lockStep happly
      | goto stage =>
          cases happly
          exact ⟨Or.inl rfl, fun _ _ ht _ => ht, Or.inl rfl⟩
      | put bytes | lose message => cases happly
  | finish id result =>
      simp only [step] at hstep
      split at hstep
      · cases hstep
        exact ⟨Or.inl rfl, fun _ _ ht _ => ht, Or.inl rfl⟩
      · cases hstep
  | other act =>
      simp only [step] at hstep
      split at hstep
      · exact frame_lockStep hstep
      · cases hstep
  | consume =>
      cases hstep
      exact ⟨Or.inl rfl, fun _ _ ht _ => ht, Or.inr (Or.inl rfl)⟩

/-- Only a consumption and a request that writes where no response is change the response. -/
lemma step_response (hs : Sound cfg before d) (hstep : step cfg d act = some d') :
    d'.response = d.response ∨ act = .consume ∨ d.response = none ∧
      ∃ id env t, act = .work id env ∧ d'.posts id = some t ∧ t.wrote = some d.epoch := by
  rcases (step_frame hstep).response with hsame | hconsume |
    ⟨id, env, t, h, bytes, hact, ht, hh, hlive, hstage, ht'⟩
  · exact Or.inl hsame
  · exact Or.inr (Or.inl hconsume)
  · have hinside : t.stage.inside = true := by rw [hstage]; rfl
    obtain ⟨h₀, hh₀, -, hstages⟩ := hs.posts id t ht (PostStage.busy_of_inside hinside)
    obtain rfl := Option.some.inj (hh.symm.trans hh₀)
    have hnone := hs.free id t h ht (by rw [hstage]; rfl) hh ((hstages hinside).resolve_right hlive)
    exact Or.inr (Or.inr ⟨hnone, id, env, _, hact, ht', rfl⟩)

/-- However the requests interleave, each consumption is followed by at most one write, which is the
response until the next one; the request that writes succeeds, unless the directory could not be
synced after the write, and every other request gets an error and leaves the response alone. -/
theorem first_write_wins (hd : Initial d₀) (hrun : Run (step cfg) (fun _ _ => True) d₀ d) :
    FirstWriteWins cfg d₀.response d ∧ ∀ act d', step cfg d act = some d' →
      d'.response = d.response ∨ act = .consume ∨ d.response = none ∧
        ∃ id env t, act = .work id env ∧ d'.posts id = some t ∧ t.wrote = some d.epoch := by
  have hs := run_sound_all hd hrun
  exact ⟨hs.wins, fun act d' hstep => step_response hs hstep⟩

end Reachable

section Runs

variable [GateFormat] [LockFormat] {cfg : HumanVerifierConfig} {d₀ : Desk}
  {meets : Desk → Act → Prop} {w w₀ : World} {response : Option Bytes} {epoch : ℕ} {t : Ticket}
  {others : ℕ → Option Ticket} {id : ℕ}
  {h : Handle} {env : Env}

/-- A desk at which one request works and the others are done with. -/
def working (others : ℕ → Option Ticket) (id : ℕ) (w : World) (response : Option Bytes) (epoch : ℕ)
    (t : Ticket) : Desk :=
  ⟨w, response, Function.update others id (some t), fun _ => none, epoch⟩

lemma work_working {move : Move PostStage} (hh : w.handles id = some h)
    (hmove : t.move cfg id env h response.isSome = some move) :
    step cfg (working others id w response epoch t) (.work id env) =
      (working others id w response epoch t).apply id t move := by
  simp [step, working, hh, hmove]

omit [GateFormat] in
lemma goto_working {stage : PostStage} :
    (working others id w response epoch t).apply id t (.goto stage) =
      some (working others id w response epoch { t with stage }) := by
  simp [Desk.apply, Desk.setPost, working]

lemma run_goto (env : Env) (stage : PostStage)
    (hrun : Run (step cfg) meets d₀ (working others id w response epoch t)) (hmeets : meets (working others id w response epoch t) (.work id env)) (hh : w.handles id = some h)
    (hmove : t.move cfg id env h response.isSome = some (.goto stage)) :
    Run (step cfg) meets d₀ (working others id w response epoch { t with stage }) :=
  hrun.step hmeets ((work_working hh hmove).trans goto_working)

/-- A handle that has got its lock, or will not get it. -/
def AtRest (h : Handle) : Prop := h.stage = .held ∨ h.stage = .crashed ∨ ∃ e, h.stage = .failed e

omit [GateFormat] in
/-- The lock of a handle at rest stays as it is. -/
lemma advance_idle (hh : w.handles id = some h)
    (hrest : AtRest h) :
    PhaseLock.step w (.advance id env) = some w := by
  have hsame : PhaseLock.next env id (w.view h) = w.view h := by
    rcases hrest with hs | hs | ⟨e, hs⟩
    all_goals simp [PhaseLock.next, World.view, hs]
  have hkept : w.setHandle id h = w := by
    rw [World.setHandle, ← hh, Function.update_eq_self]
  simp only [PhaseLock.step, hh, Option.map_some, hsame, PhaseLock.store_view, hkept]

/-- The calls of a lock that is asked for are those of whoever asks for it. -/
lemma run_lifted (f : World → Desk) (call : Env → Act)
    (hcall : ∀ w w' h env, w.handles id = some h → ¬ AtRest h →
      PhaseLock.step w (.advance id env) = some w' → step cfg (f w) (call env) = some (f w'))
    (hmeets : ∀ w env, meets (f w) (call env)) (hrun : Run (step cfg) meets d₀ (f w₀))
    (hlock : Run PhaseLock.step (fun _ act => ∃ env, act = .advance id env) w₀ w) :
    Run (step cfg) meets d₀ (f w) := by
  induction hlock with
  | start => exact hrun
  | @step w₁ w₂ act hprefix hact hstep ih =>
      obtain ⟨env, rfl⟩ := hact
      obtain ⟨h, hh, -⟩ := Option.map_eq_some_iff.mp hstep
      by_cases hrest : AtRest h
      · obtain rfl := Option.some.inj (hstep.symm.trans (advance_idle hh hrest))
        exact ih
      · exact ih.step (hmeets w₁ env) (hcall w₁ w₂ h env hh hrest hstep)

lemma run_locking (hrun : Run (step cfg) meets d₀ (working others id w₀ response epoch t))
    (hstage : t.stage = .locking) (hmeets : ∀ w env, meets (working others id w response epoch t) (.work id env))
    (hlock : Run PhaseLock.step (fun _ act => ∃ env, act = .advance id env) w₀ w) :
    Run (step cfg) meets d₀ (working others id w response epoch t) := by
  refine run_lifted (fun w => working others id w response epoch t) (Act.work id)
    (fun w w' h env hh hrest hstep => ?_) hmeets hrun hlock
  obtain ⟨hheld, hcrashed, hfailed⟩ := by simpa [AtRest, not_or] using hrest
  have hmove : t.move cfg id env h response.isSome = some (.lock (.advance id env)) := by
    unfold Ticket.move
    rw [if_neg hcrashed, hstage]
    dsimp only
    split
    · next hs => exact absurd hs hheld
    · next e hs => exact absurd hs (hfailed e)
    · rfl
  refine (work_working hh hmove).trans ?_
  simp [Desk.apply, Desk.lockStep, working, hstep]

/-- A request that has the lock and finds no response writes one. -/
lemma run_written {post : Post} (hmeets : ∀ d env, meets d (.work id env))
    (hrun : Run (step cfg) meets d₀ (working others id w none epoch ⟨post, .locking, none, false⟩))
    (hh : w.handles id = some h) (hheld : h.stage = .held) :
    Run (step cfg) meets d₀ (working others id w (some (responseBytes cfg post (GateFormat.toRfc3339 0))) epoch
      ⟨post, .sync, some epoch, false⟩) := by
  let bytes := responseBytes cfg post (GateFormat.toRfc3339 0)
  have hlooks := run_goto (PhaseLock.calm 0) .look hrun (hmeets _ _) hh (by simp [Ticket.move, hheld])
  have hprepares := run_goto (PhaseLock.calm 0) (.prepare bytes) hlooks (hmeets _ _) hh
    (by simp [Ticket.move, hheld, PhaseLock.calm, bytes])
  have hwrites := run_goto (PhaseLock.calm 0) (.write bytes) hprepares (hmeets _ _) hh
    (by simp [Ticket.move, hheld, PhaseLock.calm])
  have hput : Ticket.move cfg id (PhaseLock.calm 0) ⟨post, .write bytes, none, false⟩ h
      (none : Option Bytes).isSome = some (.put bytes) := by
    simp [Ticket.move, hheld, PhaseLock.calm]
  refine hwrites.step (hmeets _ (PhaseLock.calm 0)) ((work_working hh hput).trans ?_)
  simp [Desk.apply, Desk.setPost, working, bytes]

/-- A request gives its lock back and replies. -/
lemma run_replied {post : Post} {result : Except ResponseWriteError Unit} {wrote : Option ℕ}
    {unsynced : Bool} {file : Option Bytes} (hmeets : ∀ d env, meets d (.work id env))
    (hrun : Run (step cfg) meets d₀ (working others id (w.store id ⟨file, some id, h.at .held⟩) response epoch
      ⟨post, .dropping result, wrote, unsynced⟩)) :
    Run (step cfg) meets d₀ (working others id (w.store id ⟨file.map fun _ => [], none, h.at .closed⟩) response epoch
      ⟨post, .replied (.done result), wrote, unsynced⟩) := by
  -- Every call of the lock changes only what is stored for the handle.
  have hcall : ∀ (v v' : PhaseLock.View) act, Run (step cfg) meets d₀ (working others id (w.store id v) response epoch
        ⟨post, .dropping result, wrote, unsynced⟩) →
      Ticket.move cfg id (PhaseLock.calm 0) ⟨post, .dropping result, wrote, unsynced⟩ v.handle
        response.isSome = some (.lock act) →
      PhaseLock.step (w.store id v) act = some (w.store id v') →
      Run (step cfg) meets d₀ (working others id (w.store id v') response epoch
        ⟨post, .dropping result, wrote, unsynced⟩) := by
    intro v v' act hrun hmove hstep
    have hh : (w.store id v).handles id = some v.handle := PhaseLock.store_handles_self w id v
    refine hrun.step (hmeets _ (PhaseLock.calm 0)) ((work_working hh hmove).trans ?_)
    simp [Desk.apply, Desk.lockStep, working, hstep]
  have hadvance : ∀ v v' : PhaseLock.View, PhaseLock.next (PhaseLock.calm 0) id v = v' →
      v'.handle.body.phase = v.handle.body.phase →
      PhaseLock.step (w.store id v) (.advance id (PhaseLock.calm 0)) = some (w.store id v') := by
    intro v v' hnext hphase
    simp only [PhaseLock.step, PhaseLock.store_handles_self, Option.map_some,
      PhaseLock.view_store_self, hnext, PhaseLock.store_store w id hphase]
  have hdrop : PhaseLock.step (w.store id ⟨file, some id, h.at .held⟩) (.drop id (PhaseLock.calm 0)) =
      some (w.store id ⟨file.map fun _ => [], some id, h.at (.dropSync false)⟩) := by
    rw [PhaseLock.step, PhaseLock.store_handles_self]
    simp only [Handle.at, Option.filter, decide_true, Option.map_some, if_true]
    rw [PhaseLock.view_store_self]
    exact congrArg some (PhaseLock.store_store w id rfl)
  have hdrops := hcall _ _ _ hrun (by simp [Ticket.move, Handle.at]) hdrop
  have hcloses := hcall _ ⟨file.map fun _ => [], some id, h.at (.close false)⟩ _ hdrops
    (by simp [Ticket.move, Handle.at]) (hadvance _ _ rfl rfl)
  have hclosed := hcall _ ⟨file.map fun _ => [], none, h.at .closed⟩ _ hcloses
    (by simp [Ticket.move, Handle.at])
    (hadvance _ _ (by simp [PhaseLock.next, Handle.at, PhaseLock.View.goto, PhaseLock.View.unlock]) rfl)
  exact run_goto (PhaseLock.calm 0) (.replied (.done result)) hclosed (hmeets _ _)
    (PhaseLock.store_handles_self w id _) (by simp [Ticket.move, Handle.at])

end Runs

section Design

variable [GateFormat]

attribute [local instance] PhaseLock.spelled

/-- A gate of the phase `design`. -/
def designGate : HumanVerifierConfig := { GateHistory.lowReview with phase := "design" }

def approval : Post := ⟨.oneShot, .approve, none⟩

/-- Nothing has happened yet. -/
def idle : Desk := ⟨PhaseLock.unlocked, none, fun _ => none, fun _ => none, 0⟩

omit [GateFormat] in
lemma idle_initial : Initial idle := ⟨PhaseLock.unlocked_initial, fun _ => rfl, fun _ => rfl, rfl⟩

def formHeaders : Headers := ⟨some "http://localhost:80", some "application/x-www-form-urlencoded"⟩

/-- A request with a form comes as far as to have written its response. -/
lemma run_designWritten {meets : Desk → Act → Prop} (hmeets : ∀ d env, meets d (.work 0 env))
    (hpost : ∀ guard headers post, meets idle (.post 0 0 1 "host" guard headers post)) :
    Run (step designGate) meets idle (working (fun _ => none) 0 PhaseLock.designHeld
      (some (responseBytes designGate approval (GateFormat.toRfc3339 0))) 0
      ⟨approval, .sync, some 0, false⟩) := by
  have hguard : checkPostOrigin formHeaders (PostGuardConfig.forLoopback 80) = .ok () := by decide
  have hposted : step designGate idle (.post 0 0 1 "host" (some (.forLoopback 80)) formHeaders approval) =
      some (working (fun _ => none) 0 (PhaseLock.unlocked.setHandle 0 (PhaseLock.designer 0 1)) none 0
        ⟨approval, .locking, none, false⟩) := by
    simp only [step, Option.map_some, Option.getD_some, hguard]
    rfl
  have hlock : Run PhaseLock.step (fun _ act => ∃ env, act = .advance 0 env)
      (PhaseLock.unlocked.setHandle 0 (PhaseLock.designer 0 1)) PhaseLock.designHeld :=
    PhaseLock.run_acquired .start (by decide) rfl rfl rfl fun _ _ env => ⟨env, rfl⟩
  have hlocking := run_locking (Run.start.step (hpost _ _ _) hposted) rfl (fun _ _ => hmeets _ _) hlock
  exact run_written hmeets hlocking (PhaseLock.store_handles_self _ _ _) rfl

end Design

section Example

attribute [local instance] PhaseLock.spelled talliedFormat

/-- The response to the first request. -/
def approvedBytes : Bytes := responseBytes designGate approval (GateFormat.toRfc3339 0)

/-- The first request has been approved. -/
def approved : ℕ → Option Ticket :=
  Function.update (fun _ => none) 0 (some ⟨approval, .replied (.done (.ok ())), some 0, false⟩)

/-- The lock's file after the first request. -/
def releasedOnce : World := PhaseLock.unlocked.store 0 ⟨some [], none, (PhaseLock.designer 0 1).at .closed⟩

def rejection : Post := ⟨.oneShot, .reject, none⟩

/-- Two requests have come, one after the other, and the second one found the first one's response. -/
def rejectedLate : Desk :=
  working approved 1 (releasedOnce.store 1 ⟨some [], none, (PhaseLock.designer 1 2).at .closed⟩)
    (some approvedBytes) 0 ⟨rejection, .replied (.done (.error .alreadyExists)), none, false⟩

lemma run_approved : Run (step designGate) (fun _ _ => True) idle
    ⟨releasedOnce, some approvedBytes, approved, fun _ => none, 0⟩ := by
  have hwritten : Run (step designGate) (fun _ _ => True) idle _ :=
    run_designWritten (fun _ _ => trivial) fun _ _ _ => trivial
  have hsynced := run_goto (PhaseLock.calm 0) (.dropping (.ok ())) hwritten trivial
    (PhaseLock.store_handles_self _ _ _) (by simp [Ticket.move, Handle.at, PhaseLock.calm])
  exact run_replied (fun _ _ => trivial) hsynced

theorem first_write_wins_approved : FirstWriteWins designGate none rejectedLate := by
  have hguard : checkPostOrigin formHeaders (PostGuardConfig.forLoopback 80) = .ok () := by decide
  have hposted : step designGate ⟨releasedOnce, some approvedBytes, approved, fun _ => none, 0⟩
      (.post 1 1 2 "host" (some (.forLoopback 80)) formHeaders rejection) =
      some (working approved 1 (releasedOnce.setHandle 1 (PhaseLock.designer 1 2)) (some approvedBytes) 0
        ⟨rejection, .locking, none, false⟩) := by
    simp only [step, Option.map_some, Option.getD_some, hguard]
    rfl
  have hlock : Run PhaseLock.step (fun _ act => ∃ env, act = .advance 1 env)
      (releasedOnce.setHandle 1 (PhaseLock.designer 1 2))
      (releasedOnce.store 1 ⟨some (PhaseLock.designer 1 2).json, some 1,
        (PhaseLock.designer 1 2).at .held⟩) :=
    PhaseLock.run_acquired .start (by decide) rfl rfl rfl fun _ _ env => ⟨env, rfl⟩
  have hlocked := run_locking (run_approved.step trivial hposted) rfl (fun _ _ => trivial) hlock
  have hlooks := run_goto (PhaseLock.calm 0) .look hlocked trivial
    (PhaseLock.store_handles_self _ _ _) (by simp [Ticket.move, Handle.at])
  have hfound := run_goto (PhaseLock.calm 0) (.dropping (.error .alreadyExists)) hlooks trivial
    (PhaseLock.store_handles_self _ _ _) (by simp [Ticket.move, Handle.at])
  exact (first_write_wins idle_initial (run_replied (fun _ _ => trivial) hfound)).1

/-- The directory cannot be synced after the response has been written: the request whose decision is
in the file gets an error. -/
def unsyncedReply : Desk :=
  working (fun _ => none) 0 (PhaseLock.unlocked.store 0 ⟨some [], none, (PhaseLock.designer 0 1).at .closed⟩)
    (some (responseBytes designGate approval (GateFormat.toRfc3339 0))) 0
    ⟨approval, .replied (.done (.error (.io "Input/output error"))), some 0, true⟩

theorem written_decision_fails : Run (step designGate) (fun _ _ => True) idle unsyncedReply ∧
    unsyncedReply.response = some (responseBytes designGate approval (GateFormat.toRfc3339 0)) ∧
    ∃ t reply, unsyncedReply.posts 0 = some t ∧ t.post = approval ∧ t.stage = .replied reply ∧
      reply.status = 500 := by
  refine ⟨?_, rfl, _, _, rfl, rfl, rfl, rfl⟩
  have hwritten : Run (step designGate) (fun _ _ => True) idle _ :=
    run_designWritten (fun _ _ => trivial) fun _ _ _ => trivial
  let env : Env := { PhaseLock.calm 0 with error := some "Input/output error" }
  have hheld : PhaseLock.designHeld.handles 0 = some ((PhaseLock.designer 0 1).at .held) :=
    PhaseLock.store_handles_self _ _ _
  have hlose : step designGate (working (fun _ => none) 0 PhaseLock.designHeld
        (some (responseBytes designGate approval (GateFormat.toRfc3339 0))) 0
        ⟨approval, .sync, some 0, false⟩) (.work 0 env) =
      some (working (fun _ => none) 0 PhaseLock.designHeld
        (some (responseBytes designGate approval (GateFormat.toRfc3339 0))) 0
        ⟨approval, .dropping (.error (.io "Input/output error")), some 0, true⟩) := by
    have hmove : Ticket.move designGate 0 env ⟨approval, .sync, some 0, false⟩
        ((PhaseLock.designer 0 1).at .held) true = some (.lose "Input/output error") := by
      simp [Ticket.move, Handle.at, env]
    refine (work_working hheld hmove).trans ?_
    simp [Desk.apply, Desk.setPost, working]
  exact run_replied (fun _ _ => trivial) (hwritten.step (a := .work 0 env) trivial hlose)

end Example

end Loker.GatePosts
