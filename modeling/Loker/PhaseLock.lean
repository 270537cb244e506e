import Loker.TextOps
import Loker.Transitions

/-! The lock of a phase: a file whose bytes tell who holds it, under an advisory lock of the
operating system that the handles of any number of processes take and give back. -/

namespace Loker.PhaseLock

open TextOps Transitions

section Body

/-- `acquiredAt` is in nanoseconds. -/
structure LockBody where
  phase : String
  runId : String
  writerPid : UInt32
  writerHost : String
  acquiredAt : ℤ
  ttlSeconds : UInt64
  deriving DecidableEq, Repr

inductive PhaseLockError where
  | lockInUse (phase : String) (pid : UInt32) (host : String) (since : ℤ)
  | invalidPhaseName (phase : String)
  | io (message : String)
  | json (message : String)
  deriving DecidableEq, Repr

/-- The JSON text of a lock body and its parser. -/
class LockFormat where
  toStringPretty : LockBody → String
  fromStr : String → Except String LockBody
  fromStr_toStringPretty : ∀ body, fromStr (toStringPretty body) = .ok body
  toStringPretty_dark : ∀ body, trim (toStringPretty body) ≠ ""

abbrev Bytes := List UInt8

def textBytes (s : String) : Bytes := s.toUTF8.data.toList

def readToString (bytes : Bytes) : Option String := String.fromUTF8? ⟨bytes.toArray⟩

lemma readToString_textBytes (s : String) : readToString (textBytes s) = some s := by
  have hbytes : (⟨(textBytes s).toArray⟩ : ByteArray) = s.toByteArray := by simp [textBytes]
  rw [readToString, hbytes, String.fromUTF8?, dif_pos s.isValidUTF8]
  rfl

def defaultTtlSeconds : UInt64 := 60

/-- Rejects empty names, path separators, null bytes and directory traps. -/
def validatePhaseName (phase : String) : Bool :=
  phase ≠ "" ∧ '/' ∉ phase.toList ∧ '\\' ∉ phase.toList ∧ Char.ofNat 0 ∉ phase.toList ∧
    trim phase ≠ "." ∧ trim phase ≠ ".."

/-- What a call sees of the rest of the system: the clock, which processes a signal finds, whether
the run directory is a real one, whether the call fails and how much of a write it takes. -/
structure Env where
  now : ℤ
  found : Int32 → Bool
  isDir : Bool
  error : Option String
  accepted : ℕ

/-- Both the age and the writer must speak for the lock. A body from the future has not expired. -/
def isLockBodyLive (env : Env) (body : LockBody) : Bool :=
  let ageSecs := (env.now - body.acquiredAt).tdiv 1000000000
  if body.ttlSeconds.toInt64.toInt ≤ ageSecs then false
  else env.found body.writerPid.toInt32

variable [LockFormat]

def readLockBody (bytes : Bytes) : Except PhaseLockError (Option LockBody) :=
  match readToString bytes with
  | none => .error (.io "stream did not contain valid UTF-8")
  | some contents =>
      if trim contents = "" then .ok none
      else
        match LockFormat.fromStr contents with
        | .ok body => .ok (some body)
        | .error message => .error (.json message)

lemma readLockBody_nil : readLockBody [] = .ok none := by
  have hread : readToString [] = some "" := readToString_textBytes ""
  have htrim : trim "" = "" := rfl
  simp only [readLockBody, hread, htrim, if_true]

lemma readLockBody_text (body : LockBody) :
    readLockBody (textBytes (LockFormat.toStringPretty body)) = .ok (some body) := by
  simp only [readLockBody, readToString_textBytes, LockFormat.toStringPretty_dark,
    LockFormat.fromStr_toStringPretty, if_false]

/-- The look at the body before the operating system is asked. Bytes that are no body are as good
as stale. -/
def checkBody (env : Env) (phase : String) (file : Option Bytes) : Option PhaseLockError :=
  match file with
  | none => none
  | some bytes =>
      match readLockBody bytes with
      | .ok (some body) =>
          if isLockBodyLive env body then
            some (.lockInUse phase body.writerPid body.writerHost body.acquiredAt)
          else none
      | _ => none

/-- The error when the operating system's lock is taken: it names the writer of the body that the
file has by now. -/
def lockTaken (env : Env) (phase : String) (file : Option Bytes) : PhaseLockError :=
  match file.map readLockBody with
  | some (.ok (some body)) => .lockInUse phase body.writerPid body.writerHost body.acquiredAt
  | _ => .lockInUse phase 0 "unknown" env.now

end Body

section Handles

/-- What a handle does next: `enter` to `sync` are the calls of `acquire`, `releaseSync` and
`unlock` those of `release`, and from `dropTruncate` on it is being dropped. Whether `release` came
before the drop is kept. -/
inductive Stage where
  | enter
  | check
  | prepare
  | openFile
  | lock
  | truncate
  | write (pos : ℕ) (rest : Bytes)
  | sync
  | held
  | releaseSync
  | unlock
  | dropTruncate
  | dropSync (released : Bool)
  | close (released : Bool)
  | closed
  | failed (e : PhaseLockError)
  | crashed
  deriving DecidableEq, Repr

structure Handle where
  process : ℕ
  body : LockBody
  stage : Stage
  deriving DecidableEq, Repr

/-- A handle with the lock file of its phase and the handle that has the file locked. -/
structure View where
  file : Option Bytes
  owner : Option ℕ
  handle : Handle

/-- Bytes written past the end leave a gap of zeros. -/
def writeAt (bytes : Bytes) (pos : ℕ) (chunk : Bytes) : Bytes :=
  bytes.take pos ++ List.replicate (pos - bytes.length) 0 ++ chunk ++ bytes.drop (pos + chunk.length)

def View.goto (v : View) (stage : Stage) : View := { v with handle := { v.handle with stage } }

/-- The file is unlocked or closed; another handle's lock stays. -/
def View.unlock (v : View) (id : ℕ) : View := { v with owner := v.owner.filter (· ≠ id) }

/-- An error of `acquire` closes its file. -/
def View.fail (v : View) (id : ℕ) (e : PhaseLockError) : View := (v.unlock id).goto (.failed e)

def View.attempt (v : View) (env : Env) (id : ℕ) (done : View) : View :=
  match env.error with
  | some message => v.fail id (.io message)
  | none => done

def View.setLen (v : View) : View := { v with file := v.file.map fun _ => [] }

/-- Truncation when its error is ignored. -/
def View.clear (v : View) (env : Env) : View :=
  match env.error with
  | some _ => v
  | none => v.setLen

variable [LockFormat]

def Handle.json (h : Handle) : Bytes := textBytes (LockFormat.toStringPretty h.body)

lemma Handle.json_ne_nil (h : Handle) : h.json ≠ [] := by
  intro hnil
  have hread := readLockBody_text h.body
  rw [show textBytes (LockFormat.toStringPretty h.body) = [] from hnil, readLockBody_nil] at hread
  cases hread

/-- The next call of a handle. One that is held waits to be released or dropped. -/
def next (env : Env) (id : ℕ) (v : View) : View :=
  match v.handle.stage with
  | .enter =>
      if validatePhaseName v.handle.body.phase = false then
        v.fail id (.invalidPhaseName v.handle.body.phase)
      else if env.isDir = false then
        v.fail id (.io "run directory not found or is a symlink")
      else v.goto .check
  | .check =>
      match checkBody env v.handle.body.phase v.file with
      | some e => v.fail id e
      | none => v.goto .prepare
  | .prepare => v.attempt env id (v.goto .openFile)
  | .openFile => v.attempt env id ({ v with file := some (v.file.getD []) }.goto .lock)
  | .lock => v.attempt env id
      (match v.owner with
      | some _ => v.fail id (lockTaken env v.handle.body.phase v.file)
      | none =>
          { v with
            owner := some id
            handle := { v.handle with
              body := { v.handle.body with acquiredAt := env.now }
              stage := .truncate } })
  | .truncate => v.attempt env id (v.setLen.goto (.write 0 v.handle.json))
  | .write _ [] => v.goto .sync
  | .write pos rest =>
      let n := min (max 1 env.accepted) rest.length
      v.attempt env id
        ({ v with file := v.file.map fun bytes => writeAt bytes pos (rest.take n) }.goto
          (.write (pos + n) (rest.drop n)))
  | .sync => v.attempt env id (v.goto .held)
  | .releaseSync => v.goto .unlock
  | .unlock => (v.unlock id).goto .dropTruncate
  | .dropTruncate => (v.clear env).goto (.dropSync true)
  | .dropSync released => v.goto (.close released)
  | .close _ => (v.unlock id).goto .closed
  | .held | .closed | .failed _ | .crashed => v

def release (env : Env) (v : View) : View := (v.clear env).goto .releaseSync

def drop (env : Env) (v : View) : View := (v.clear env).goto (.dropSync false)

end Handles

section Runs

/-- The lock file of each phase, the handle that has it locked and all handles so far. -/
structure World where
  file : String → Option Bytes
  owner : String → Option ℕ
  handles : ℕ → Option Handle

def World.view (w : World) (h : Handle) : View := ⟨w.file h.body.phase, w.owner h.body.phase, h⟩

def World.store (w : World) (id : ℕ) (v : View) : World where
  file := Function.update w.file v.handle.body.phase v.file
  owner := Function.update w.owner v.handle.body.phase v.owner
  handles := Function.update w.handles id (some v.handle)

def World.setHandle (w : World) (id : ℕ) (h : Handle) : World :=
  { w with handles := Function.update w.handles id (some h) }

def Handle.kill (h : Handle) (process : ℕ) : Handle :=
  if h.process = process then { h with stage := .crashed } else h

/-- The system closes the files of a process that dies. -/
def World.kill (w : World) (process : ℕ) : World where
  file := w.file
  owner phase := (w.owner phase).filter fun id => (w.handles id).map Handle.process ≠ some process
  handles id := (w.handles id).map fun h => h.kill process

inductive Act where
  | acquire (id process : ℕ) (phase runId : String) (pid : UInt32) (host : String)
      (ttlSeconds : Option UInt64)
  | advance (id : ℕ) (env : Env)
  | release (id : ℕ) (env : Env)
  | drop (id : ℕ) (env : Env)
  | crash (process : ℕ)

/-- `acquire` is called. -/
def newHandle (process : ℕ) (phase runId : String) (pid : UInt32) (host : String)
    (ttlSeconds : Option UInt64) : Handle :=
  ⟨process, ⟨phase, runId, pid, host, 0, ttlSeconds.getD defaultTtlSeconds⟩, .enter⟩

variable [LockFormat]

def step (w : World) : Act → Option World
  | .acquire id process phase runId pid host ttlSeconds =>
      match w.handles id with
      | some _ => none
      | none => some (w.setHandle id (newHandle process phase runId pid host ttlSeconds))
  | .advance id env => (w.handles id).map fun h => w.store id (next env id (w.view h))
  | .release id env =>
      ((w.handles id).filter (·.stage = .held)).map fun h => w.store id (release env (w.view h))
  | .drop id env =>
      ((w.handles id).filter (·.stage = .held)).map fun h => w.store id (drop env (w.view h))
  | .crash process => some (w.kill process)

/-- No handle has been opened; the lock files have any bytes. -/
structure Initial (w : World) : Prop where
  handles : ∀ id, w.handles id = none
  owner : ∀ phase, w.owner phase = none

def inspect (w : World) (phase : String) : Except PhaseLockError (Option LockBody) :=
  if validatePhaseName phase = false then .error (.invalidPhaseName phase)
  else
    match w.file phase with
    | none => .ok none
    | some bytes => readLockBody bytes

end Runs

section Exclusion

variable {env : Env} {id : ℕ} {v done : View} {w w₀ w' : World} {h : Handle} {stage : Stage}

def Stage.locked : Stage → Bool
  | .truncate | .write _ _ | .sync | .held | .releaseSync | .unlock | .dropSync false
  | .close false => true
  | _ => false

/-- Between a successful `acquire` and the end of its hold. -/
def Stage.holds : Stage → Bool
  | .held | .releaseSync | .unlock | .dropSync false | .close false => true
  | _ => false

/-- How many calls `acquire` makes up to the one that asks for the lock. -/
def Stage.left : Stage → ℕ
  | .enter => 5
  | .check => 4
  | .prepare => 3
  | .openFile => 2
  | .lock => 1
  | _ => 0

def Stage.opened (stage : Stage) : Bool := stage = .lock || stage.locked

lemma Stage.locked_of_holds (h : stage.holds = true) : stage.locked = true := by
  unfold Stage.holds at h
  split at h
  all_goals first | rfl | cases h

lemma Stage.opened_of_locked (h : stage.locked = true) : stage.opened = true := by
  simp [Stage.opened, h]

/-- The handle has its file locked exactly in the stages that hold the lock, and a file that has
been opened is there. -/
structure Fits (id : ℕ) (v : View) : Prop where
  locked : v.handle.stage.locked = true ↔ v.owner = some id
  opened : v.handle.stage.opened = true → v.file.isSome

/-- What a call of a handle leaves as it is. -/
structure Advances (id : ℕ) (v v' : View) : Prop where
  phase : v'.handle.body.phase = v.handle.body.phase
  fits : Fits id v'
  others : ∀ other, other ≠ id → (v'.owner = some other ↔ v.owner = some other)
  file : v.file.isSome → v'.file.isSome

lemma unlock_owner (v : View) (id other : ℕ) :
    (v.unlock id).owner = some other ↔ v.owner = some other ∧ other ≠ id := by
  simp [View.unlock, Option.filter_eq_some_iff]

lemma unlock_advances (v : View) (hstage : stage.opened = false) :
    Advances id v ((v.unlock id).goto stage) where
  phase := rfl
  fits := by
    have hlocked : stage.locked = false := by
      cases hl : stage.locked with
      | false => rfl
      | true => simp [Stage.opened, hl] at hstage
    refine ⟨?_, fun hopened => ?_⟩
    · show stage.locked = true ↔ (v.unlock id).owner = some id
      simp [unlock_owner, hlocked]
    · exact absurd (hstage.symm.trans hopened) nofun
  others other hne := by
    show (v.unlock id).owner = some other ↔ v.owner = some other
    simp [unlock_owner, hne]
  file hsome := hsome

lemma fail_advances (v : View) (e : PhaseLockError) : Advances id v (v.fail id e) :=
  unlock_advances v rfl

lemma attempt_advances (h : Advances id v done) : Advances id v (v.attempt env id done) := by
  unfold View.attempt
  split
  · exact fail_advances v _
  · exact h

/-- The next stage has the file locked as the last one had; the bytes may be others. -/
lemma goto_advances (h : Fits id v) (hlocked : stage.locked = v.handle.stage.locked)
    {file : Option Bytes} (hfile : v.file.isSome → file.isSome)
    (hopened : stage.opened = true → file.isSome) :
    Advances id v ({ v with file }.goto stage) where
  phase := rfl
  fits := by
    refine ⟨?_, hopened⟩
    show stage.locked = true ↔ v.owner = some id
    rw [hlocked, h.locked]
  others _ _ := Iff.rfl
  file := hfile

lemma stage_advances (h : Fits id v) (hlocked : stage.locked = v.handle.stage.locked)
    (hopened : stage.opened = true → v.handle.stage.opened = true) :
    Advances id v (v.goto stage) :=
  goto_advances h hlocked (fun hsome => hsome) fun ho => h.opened (hopened ho)

lemma clear_advances (h : Fits id v) (hlocked : stage.locked = v.handle.stage.locked)
    (hopened : stage.opened = true → v.handle.stage.opened = true) :
    Advances id v ((v.clear env).goto stage) := by
  unfold View.clear
  split
  · exact stage_advances h hlocked hopened
  · exact goto_advances h hlocked (by simp) fun ho => by simpa using h.opened (hopened ho)

lemma lock_advances (h : Fits id v) (hs : v.handle.stage = .lock) (hfree : v.owner = none) :
    Advances id v { v with
      owner := some id
      handle := { v.handle with
        body := { v.handle.body with acquiredAt := env.now }
        stage := .truncate } } where
  phase := rfl
  fits := ⟨by simp [Stage.locked], fun _ => h.opened (by simp [hs, Stage.opened])⟩
  others other hne := by simp [hfree, Ne.symm hne]
  file hsome := hsome

lemma release_advances (h : Fits id v) (hs : v.handle.stage = .held) :
    Advances id v (release env v) :=
  clear_advances h (by rw [hs]; rfl) fun _ => by rw [hs]; rfl

lemma drop_advances (h : Fits id v) (hs : v.handle.stage = .held) : Advances id v (drop env v) :=
  clear_advances h (by rw [hs]; rfl) fun _ => by rw [hs]; rfl

variable [LockFormat]

/-- A call of a handle keeps the lock and the file in step with its stage and leaves other
handles' locks. -/
lemma next_advances (h : Fits id v) : Advances id v (next env id v) := by
  unfold next
  split
  · next hs =>
    split
    · exact fail_advances v _
    split
    · exact fail_advances v _
    · exact stage_advances h (by rw [hs]; rfl) nofun
  · next hs =>
    split
    · exact fail_advances v _
    · exact stage_advances h (by rw [hs]; rfl) nofun
  · next hs => exact attempt_advances (stage_advances h (by rw [hs]; rfl) nofun)
  · next hs => exact attempt_advances (goto_advances h (by rw [hs]; rfl) (by simp) (by simp))
  · next hs =>
    apply attempt_advances
    split
    · exact fail_advances v _
    · next hfree => exact lock_advances h hs hfree
  · next hs =>
    have hsome := h.opened (by rw [hs]; rfl)
    exact attempt_advances (goto_advances h (by rw [hs]; rfl) (by simp) fun _ => by simpa using hsome)
  · next hs => exact stage_advances h (by rw [hs]; rfl) fun _ => by rw [hs]; rfl
  · next hs =>
    have hsome := h.opened (by rw [hs]; rfl)
    exact attempt_advances (goto_advances h (by rw [hs]; rfl) (by simp) fun _ => by simpa using hsome)
  · next hs => exact attempt_advances (stage_advances h (by rw [hs]; rfl) fun _ => by rw [hs]; rfl)
  · next hs => exact stage_advances h (by rw [hs]; rfl) fun _ => by rw [hs]; rfl
  · exact unlock_advances v rfl
  · next hs => exact clear_advances h (by rw [hs]; rfl) nofun
  · next released hs =>
    refine stage_advances h (by rw [hs]; cases released <;> rfl) fun ho => ?_
    rw [hs]
    cases released with
    | true => cases ho
    | false => rfl
  · exact unlock_advances v rfl
  all_goals exact ⟨rfl, h, fun _ _ => Iff.rfl, fun hsome => hsome⟩

end Exclusion

section Reachable

variable {id a b : ℕ} {v : View} {w w₀ w' : World} {h : Handle} {env : Env} {phase : String}

/-- Each handle fits its lock file, and a lock belongs to a handle. -/
structure Inv (w : World) : Prop where
  fits : ∀ id h, w.handles id = some h → Fits id (w.view h)
  owned : ∀ phase id, w.owner phase = some id → (w.handles id).isSome

lemma view_store_self (w : World) (id : ℕ) (v : View) : (w.store id v).view v.handle = v := by
  simp [World.store, World.view]

lemma view_store_same (h' : h.body.phase = v.handle.body.phase) :
    (w.store id v).view h = ⟨v.file, v.owner, h⟩ := by
  simp [World.store, World.view, h']

lemma view_store_ne (h' : h.body.phase ≠ v.handle.body.phase) :
    (w.store id v).view h = w.view h := by
  simp [World.store, World.view, h']

lemma store_handles_self (w : World) (id : ℕ) (v : View) :
    (w.store id v).handles id = some v.handle := by simp [World.store]

lemma store_handles_ne (w : World) {id other : ℕ} (v : View) (hne : other ≠ id) :
    (w.store id v).handles other = w.handles other := by simp [World.store, hne]

lemma store_inv (hinv : Inv w) (hh : w.handles id = some h) (hadv : Advances id (w.view h) v) :
    Inv (w.store id v) := by
  have hphase : v.handle.body.phase = h.body.phase := hadv.phase
  constructor
  · intro id' h' hh'
    by_cases hid : id' = id
    · subst hid
      obtain rfl : v.handle = h' := Option.some.inj ((store_handles_self w _ v).symm.trans hh')
      rw [view_store_self]
      exact hadv.fits
    · rw [store_handles_ne w v hid] at hh'
      have hfits := hinv.fits id' h' hh'
      by_cases hp : h'.body.phase = v.handle.body.phase
      · have hview : w.view h' = ⟨(w.view h).file, (w.view h).owner, h'⟩ := by
          simp [World.view, hp, hphase]
        rw [hview] at hfits
        rw [view_store_same hp]
        exact ⟨hfits.locked.trans (hadv.others id' hid).symm, fun ho => hadv.file (hfits.opened ho)⟩
      · rw [view_store_ne hp]
        exact hfits
  · intro phase id' howner
    by_cases hid : id' = id
    · rw [hid, store_handles_self]
      rfl
    · rw [store_handles_ne w v hid]
      by_cases hp : phase = v.handle.body.phase
      · have hv : v.owner = some id' := by simpa [World.store, hp] using howner
        exact hinv.owned _ id' ((hadv.others id' hid).mp hv)
      · exact hinv.owned phase id' (by simpa [World.store, hp] using howner)

lemma kill_inv (hinv : Inv w) (process : ℕ) : Inv (w.kill process) := by
  constructor
  · intro id h' hh'
    obtain ⟨h, hh, rfl⟩ := Option.map_eq_some_iff.mp hh'
    have hfits := hinv.fits id h hh
    have howner : ∀ p, (w.kill process).owner p = some id ↔
        w.owner p = some id ∧ h.process ≠ process := by
      intro p
      simp [World.kill, Option.filter_eq_some_iff, hh]
    unfold Handle.kill
    split
    · next hsame =>
      refine ⟨?_, nofun⟩
      show Stage.locked .crashed = true ↔ (w.kill process).owner h.body.phase = some id
      simp [howner, hsame, Stage.locked]
    · next hother =>
      refine ⟨?_, hfits.opened⟩
      show h.stage.locked = true ↔ (w.kill process).owner h.body.phase = some id
      rw [howner]
      exact hfits.locked.trans (and_iff_left hother).symm
  · intro phase id howner
    obtain ⟨hw, -⟩ := Option.filter_eq_some_iff.mp howner
    simpa [World.kill] using hinv.owned phase id hw

lemma acquire_inv (hinv : Inv w) (hnew : w.handles id = none) (hh : h.stage = .enter) :
    Inv (w.setHandle id h) := by
  constructor
  · intro id' h' hh'
    by_cases hid : id' = id
    · subst hid
      obtain rfl : h = h' := by simpa [World.setHandle] using hh'
      refine ⟨?_, fun ho => ?_⟩
      · have hnone : w.owner h.body.phase ≠ some id' := by
          intro howner
          simpa [hnew] using hinv.owned _ _ howner
        show h.stage.locked = true ↔ w.owner h.body.phase = some id'
        simp [hh, hnone, Stage.locked]
      · have hclosed : h.stage.opened = true := ho
        rw [hh] at hclosed
        cases hclosed
    · exact hinv.fits id' h' (by simpa [World.setHandle, hid] using hh')
  · intro phase id' howner
    by_cases hid : id' = id
    · simp [World.setHandle, hid]
    · simpa [World.setHandle, hid] using hinv.owned phase id' howner

lemma Initial.inv (h : Initial w₀) : Inv w₀ :=
  ⟨fun id _ hh => absurd (hh.symm.trans (h.handles id)) nofun,
    fun phase _ howner => absurd (howner.symm.trans (h.owner phase)) nofun⟩

variable [LockFormat] {meets : World → Act → Prop} {act : Act}

lemma step_inv (hinv : Inv w) (hstep : step w act = some w') : Inv w' := by
  cases act with
  | acquire id process phase runId pid host ttl =>
      simp only [step] at hstep
      split at hstep
      · cases hstep
      · next hnew =>
        cases hstep
        exact acquire_inv hinv hnew rfl
  | advance id env =>
      obtain ⟨h, hh, rfl⟩ := Option.map_eq_some_iff.mp hstep
      exact store_inv hinv hh (next_advances (hinv.fits id h hh))
  | release id env =>
      obtain ⟨h, hh, rfl⟩ := Option.map_eq_some_iff.mp hstep
      obtain ⟨hh, hheld⟩ := Option.filter_eq_some_iff.mp hh
      exact store_inv hinv hh (release_advances (hinv.fits id h hh) (of_decide_eq_true hheld))
  | drop id env =>
      obtain ⟨h, hh, rfl⟩ := Option.map_eq_some_iff.mp hstep
      obtain ⟨hh, hheld⟩ := Option.filter_eq_some_iff.mp hh
      exact store_inv hinv hh (drop_advances (hinv.fits id h hh) (of_decide_eq_true hheld))
  | crash process =>
      cases hstep
      exact kill_inv hinv process

lemma run_inv (hinit : Initial w₀) (hrun : Run step meets w₀ w) : Inv w :=
  hrun.invariant hinit.inv fun _ _ _ hinv _ hstep => step_inv hinv hstep

/-- The handle is between its successful `acquire` and the end of its hold on the phase. -/
def Holds (w : World) (id : ℕ) (phase : String) : Prop :=
  ∃ h, w.handles id = some h ∧ h.body.phase = phase ∧ h.stage.holds = true

omit [LockFormat] in
lemma Holds.owner (hinv : Inv w) (h : Holds w id phase) : w.owner phase = some id := by
  obtain ⟨h, hh, rfl, hholds⟩ := h
  exact (hinv.fits id h hh).locked.mp (Stage.locked_of_holds hholds)

/-- Who finds the lock taken leaves the file as it is, and is refused or one call nearer to it. -/
lemma next_refused (env : Env) (hleft : 0 < v.handle.stage.left) (howner : v.owner = some a) (hne : a ≠ id)
    (hfile : v.file.isSome) :
    (next env id v).file = v.file ∧ (next env id v).owner = some a ∧
      ((∃ e, (next env id v).handle.stage = .failed e) ∨
        0 < (next env id v).handle.stage.left ∧
          (next env id v).handle.stage.left < v.handle.stage.left) := by
  have hfail : ∀ e, (v.fail id e).file = v.file ∧ (v.fail id e).owner = some a ∧
      ((∃ e', (v.fail id e).handle.stage = .failed e') ∨ 0 < (v.fail id e).handle.stage.left ∧
        (v.fail id e).handle.stage.left < v.handle.stage.left) := fun e =>
    ⟨rfl, (unlock_owner v id a).mpr ⟨howner, hne⟩, Or.inl ⟨e, rfl⟩⟩
  unfold next
  split
  · next hs =>
    split
    · exact hfail _
    split
    · exact hfail _
    · exact ⟨rfl, howner, Or.inr (by simp [View.goto, hs, Stage.left])⟩
  · next hs =>
    split
    · exact hfail _
    · exact ⟨rfl, howner, Or.inr (by simp [View.goto, hs, Stage.left])⟩
  · next hs =>
    unfold View.attempt
    split
    · exact hfail _
    · exact ⟨rfl, howner, Or.inr (by simp [View.goto, hs, Stage.left])⟩
  · next hs =>
    obtain ⟨bytes, hbytes⟩ := Option.isSome_iff_exists.mp hfile
    unfold View.attempt
    split
    · exact hfail _
    · exact ⟨by simp [View.goto, hbytes], howner, Or.inr (by simp [View.goto, hs, Stage.left])⟩
  · unfold View.attempt
    split
    · exact hfail _
    split
    · exact hfail _
    · next hfree =>
      rw [howner] at hfree
      cases hfree
  all_goals next hs => simp [hs, Stage.left] at hleft

/-- In every run at most one handle holds the lock of a phase, and while one does, any other that
asks for it leaves the file as it is, makes no more than the calls that are left before the one that
asks the system, and is refused. -/
theorem phase_lock_exclusive (hinit : Initial w₀) (hrun : Run step (fun _ _ => True) w₀ w) :
    (∀ a b phase, Holds w a phase → Holds w b phase → a = b) ∧
      ∀ a phase, Holds w a phase → ∀ b h, w.handles b = some h → h.body.phase = phase →
        0 < h.stage.left → ∀ env, ∃ w' h', step w (.advance b env) = some w' ∧
          w'.handles b = some h' ∧ w'.file phase = w.file phase ∧ Holds w' a phase ∧
          ((∃ e, h'.stage = .failed e) ∨ 0 < h'.stage.left ∧ h'.stage.left < h.stage.left) := by
  have hinv := run_inv hinit hrun
  constructor
  · intro a b phase ha hb
    exact Option.some.inj ((ha.owner hinv).symm.trans (hb.owner hinv))
  · rintro a phase ha b h hh rfl hleft env
    have howner := ha.owner hinv
    obtain ⟨ha', hha, hsame, hholds⟩ := ha
    have hne : a ≠ b := by
      rintro rfl
      obtain rfl : ha' = h := Option.some.inj (hha.symm.trans hh)
      have hlocked := Stage.locked_of_holds hholds
      cases hs : ha'.stage <;> simp [hs, Stage.left, Stage.locked] at hleft hlocked
    have hsome : (w.file h.body.phase).isSome := by
      have hopened := (hinv.fits a ha' hha).opened
        (Stage.opened_of_locked (Stage.locked_of_holds hholds))
      rwa [← hsame]
    have hadv : Advances b (w.view h) (next env b (w.view h)) := next_advances (hinv.fits b h hh)
    obtain ⟨hfile, howner', hresult⟩ := next_refused (v := w.view h) env hleft howner hne hsome
    refine ⟨w.store b (next env b (w.view h)), (next env b (w.view h)).handle, ?_,
      store_handles_self w b _, ?_, ⟨ha', ?_, hsame, hholds⟩, hresult⟩
    · simp [step, hh]
    · have hphase : (next env b (w.view h)).handle.body.phase = h.body.phase := hadv.phase
      simp only [World.store, hphase, Function.update_self]
      exact hfile
    · rw [store_handles_ne w _ hne, hha]

end Reachable

section Acquired

variable {id : ℕ} {v v' : View} {w w₀ : World} {env : Env} {h : Handle}

lemma store_view (w : World) (id : ℕ) (h : Handle) : w.store id (w.view h) = w.setHandle id h := by
  simp [World.store, World.view, World.setHandle]

lemma store_store (w : World) (id : ℕ) (hphase : v'.handle.body.phase = v.handle.body.phase) :
    (w.store id v).store id v' = w.store id v' := by
  simp [World.store, hphase]

/-- Nothing fails, and a write takes what it is given. -/
def calm (accepted : ℕ) : Env := ⟨0, fun _ => true, true, none, accepted⟩

def Handle.at (h : Handle) (stage : Stage) : Handle := { h with stage }

variable [LockFormat] {meets : World → Act → Prop}

lemma run_advance (hrun : Run step meets w₀ (w.store id v))
    (hmeets : meets (w.store id v) (.advance id env)) (hnext : next env id v = v')
    (hphase : v'.handle.body.phase = v.handle.body.phase) : Run step meets w₀ (w.store id v') := by
  refine hrun.step hmeets ?_
  simp only [PhaseLock.step, store_handles_self, Option.map_some, view_store_self, hnext,
    store_store w id hphase]

lemma next_write (h : Handle) :
    next (calm h.json.length) id ⟨some [], some id, h.at (.write 0 h.json)⟩ =
      ⟨some h.json, some id, h.at (.write h.json.length [])⟩ := by
  obtain ⟨b, bs, hjson⟩ := List.exists_cons_of_ne_nil h.json_ne_nil
  rw [hjson]
  simp [next, Handle.at, calm, View.attempt, View.goto, writeAt]

/-- The calls of an `acquire` that nothing stands in the way of. -/
lemma run_acquired (hrun : Run step meets w₀ (w.setHandle id (h.at .enter)))
    (hname : validatePhaseName h.body.phase = true) (hat : h.body.acquiredAt = 0)
    (hfree : w.owner h.body.phase = none)
    (hcheck : checkBody (calm h.json.length) h.body.phase (w.file h.body.phase) = none)
    (hmeets : ∀ v : View, v.handle.stage ≠ .dropTruncate →
      ∀ env, meets (w.store id v) (.advance id env)) :
    Run step meets w₀ (w.store id ⟨some h.json, some id, h.at .held⟩) := by
  have hbody : { h.body with acquiredAt := 0 } = h.body := by rw [← hat]
  rw [← store_view] at hrun
  have hcall : ∀ v v', Run step meets w₀ (w.store id v) → v.handle.stage ≠ .dropTruncate →
      next (calm h.json.length) id v = v' → v'.handle.body.phase = v.handle.body.phase →
      Run step meets w₀ (w.store id v') := fun v v' hrun hne hnext hphase =>
    run_advance hrun (hmeets v hne _) hnext hphase
  have hchecked := hcall _ ⟨w.file h.body.phase, none, h.at .check⟩ hrun nofun
    (by simp [next, World.view, Handle.at, hname, calm, View.goto, hfree]) rfl
  have hprepared := hcall _ ⟨w.file h.body.phase, none, h.at .prepare⟩ hchecked nofun
    (by simp [next, Handle.at, hcheck, View.goto]) rfl
  have hready := hcall _ ⟨w.file h.body.phase, none, h.at .openFile⟩ hprepared nofun
    (by simp [next, Handle.at, calm, View.attempt, View.goto]) rfl
  have hopened := hcall _ ⟨some ((w.file h.body.phase).getD []), none, h.at .lock⟩ hready nofun
    (by simp [next, Handle.at, calm, View.attempt, View.goto]) rfl
  have hlocked := hcall _ ⟨some ((w.file h.body.phase).getD []), some id, h.at .truncate⟩ hopened
    nofun (by simp [next, Handle.at, calm, View.attempt, hbody]) rfl
  have hempty := hcall _ ⟨some [], some id, h.at (.write 0 h.json)⟩ hlocked nofun
    (by simp [next, Handle.at, calm, View.attempt, View.goto, View.setLen, Handle.json]) rfl
  have hwritten := hcall _ ⟨some h.json, some id, h.at (.write h.json.length [])⟩ hempty nofun
    (next_write h) rfl
  have hsynced := hcall _ ⟨some h.json, some id, h.at .sync⟩ hwritten nofun
    (by simp [next, Handle.at, View.goto]) rfl
  exact hcall _ _ hsynced nofun (by simp [next, Handle.at, calm, View.attempt, View.goto]) rfl

/-- A release up to the unlocking, before the handle is dropped. -/
lemma run_released {file : Option Bytes}
    (hrun : Run step meets w₀ (w.store id ⟨file, some id, h.at .held⟩))
    (hrelease : ∀ w env, meets w (.release id env))
    (hmeets : ∀ v : View, v.handle.stage ≠ .dropTruncate →
      ∀ env, meets (w.store id v) (.advance id env)) :
    Run step meets w₀ (w.store id ⟨file.map fun _ => [], none, h.at .dropTruncate⟩) := by
  have hcleared : Run step meets w₀
      (w.store id ⟨file.map fun _ => [], some id, h.at .releaseSync⟩) := by
    refine hrun.step (hrelease _ (calm 0)) ?_
    rw [PhaseLock.step, store_handles_self]
    simp only [Handle.at, Option.filter, decide_true, Option.map_some, if_true]
    rw [view_store_self]
    exact congrArg some (store_store w id rfl)
  have hsynced : Run step meets w₀ (w.store id ⟨file.map fun _ => [], some id, h.at .unlock⟩) :=
    run_advance hcleared (hmeets ⟨_, _, h.at .releaseSync⟩ nofun (calm 0)) rfl rfl
  refine run_advance hsynced (hmeets ⟨_, _, h.at .unlock⟩ nofun (calm 0)) ?_ rfl
  simp [next, Handle.at, View.goto, View.unlock]

end Acquired

section Spelled

/-- A text with a mark before each of its characters and one at its end. -/
def spell (cs : List Char) : List Char := cs.flatMap (fun c => ['+', c]) ++ ['-']

def unspell : List Char → Option (List Char × List Char)
  | '+' :: c :: rest => (unspell rest).map fun r => (c :: r.1, r.2)
  | '-' :: rest => some ([], rest)
  | _ => none

lemma unspell_spell (cs rest : List Char) : unspell (spell cs ++ rest) = some (cs, rest) := by
  induction cs with
  | nil => rfl
  | cons c cs ih =>
      have htail : unspell (cs.flatMap (fun c => ['+', c]) ++ '-' :: rest) = some (cs, rest) := by
        simpa [spell] using ih
      simp [spell, unspell, htail]

def tally (n : ℕ) : List Char := List.replicate n '|'

def spellBody (body : LockBody) : String :=
  String.ofList (spell body.phase.toList ++ (spell body.runId.toList ++
    (spell (tally body.writerPid.toNat) ++ (spell body.writerHost.toList ++
      (spell (tally body.acquiredAt.toNat) ++ (spell (tally (-body.acquiredAt).toNat) ++
        (spell (tally body.ttlSeconds.toNat) ++ [])))))))

def unspellBody (s : String) : Option LockBody := do
  let (phase, rest) ← unspell s.toList
  let (runId, rest) ← unspell rest
  let (pid, rest) ← unspell rest
  let (host, rest) ← unspell rest
  let (after, rest) ← unspell rest
  let (before, rest) ← unspell rest
  let (ttl, _) ← unspell rest
  pure ⟨String.ofList phase, String.ofList runId, UInt32.ofNat pid.length, String.ofList host,
    after.length - before.length, UInt64.ofNat ttl.length⟩

lemma unspellBody_spellBody (body : LockBody) : unspellBody (spellBody body) = some body := by
  have hat : ((body.acquiredAt.toNat : ℤ) - ((-body.acquiredAt).toNat : ℤ)) = body.acquiredAt := by
    omega
  simp only [unspellBody, spellBody, String.toList_ofList, unspell_spell, Option.bind_eq_bind,
    Option.bind_some, tally, List.length_replicate, String.ofList_toList, UInt32.ofNat_toNat,
    UInt64.ofNat_toNat, hat]
  rfl

/-- One way to write a lock body. -/
@[reducible] def spelled : LockFormat where
  toStringPretty := spellBody
  fromStr s :=
    match unspellBody s with
    | some body => .ok body
    | none => .error "expected value"
  fromStr_toStringPretty body := by rw [unspellBody_spellBody]
  toStringPretty_dark body := by
    have hmark : '-' ∈ (spellBody body).toList := by
      simp [spellBody, spell]
    exact trim_ne_empty hmark (by decide)

attribute [local instance] spelled

def unlocked : World := ⟨fun _ => none, fun _ => none, fun _ => none⟩

lemma unlocked_initial : Initial unlocked := ⟨fun _ => rfl, fun _ => rfl⟩

/-- `acquire` on the phase `design` in the process of this number. -/
def designer (process : ℕ) (pid : UInt32) : Handle := newHandle process "design" "run" pid "host" none

/-- The first handle holds the lock. -/
def designHeld : World :=
  unlocked.store 0 ⟨some (designer 0 1).json, some 0, (designer 0 1).at .held⟩

lemma run_designHeld {meets : World → Act → Prop}
    (hacquire : ∀ w id process phase runId pid host ttl,
      meets w (.acquire id process phase runId pid host ttl))
    (hmeets : ∀ v : View, v.handle.stage ≠ .dropTruncate →
      ∀ env, meets (unlocked.store 0 v) (.advance 0 env)) : Run step meets unlocked designHeld := by
  have hcalled : Run step meets unlocked (unlocked.setHandle 0 ((designer 0 1).at .enter)) :=
    Run.start.step (hacquire _ 0 0 "design" "run" 1 "host" none) rfl
  exact run_acquired hcalled (by decide) rfl rfl rfl hmeets

theorem phase_lock_exclusive_design : ∃ w' h',
    step (designHeld.setHandle 1 (designer 1 2)) (.advance 1 (calm 0)) = some w' ∧
      w'.handles 1 = some h' ∧ w'.file "design" = designHeld.file "design" ∧
      Holds w' 0 "design" ∧ ((∃ e, h'.stage = .failed e) ∨ 0 < h'.stage.left ∧ h'.stage.left < 5) := by
  have hcalled : step designHeld (.acquire 1 1 "design" "run" 2 "host" none) =
      some (designHeld.setHandle 1 (designer 1 2)) := rfl
  have hheld : Run step (fun _ _ => True) unlocked designHeld :=
    run_designHeld (fun _ _ _ _ _ _ _ _ => trivial) fun _ _ _ => trivial
  have hrun := hheld.step trivial hcalled
  have hholds : Holds (designHeld.setHandle 1 (designer 1 2)) 0 "design" :=
    ⟨(designer 0 1).at .held, rfl, rfl, rfl⟩
  exact (phase_lock_exclusive unlocked_initial hrun).2 0 "design" hholds 1 (designer 1 2) rfl rfl
    (by decide) (calm 0)

end Spelled

end Loker.PhaseLock
