import Loker.GatePosts
import Loker.LockVisibility

/-! A resumed phase that waits at its gate keeps the lock of the phase, which every posted decision
needs. -/

namespace Loker.ResumedGates

open HumanGate Transitions GatePosts
open PhaseLock (Bytes World View Handle Env Stage LockFormat validatePhaseName)
open LockVisibility (Stage.named)

section Names

variable [LockFormat] {v done : View} {env : Env} {id : ℕ} {w w' : World} {act : PhaseLock.Act}

/-- The phase of a handle that has gone past the look at its name has a valid one. -/
def Named (h : Handle) : Prop :=
  Stage.named h.stage = true → validatePhaseName h.body.phase = true

omit [LockFormat] in
lemma attempt_named (h : Named done.handle) : Named (v.attempt env id done).handle := by
  unfold View.attempt
  split
  · exact nofun
  · exact h

omit [LockFormat] in
lemma clear_named {stage : Stage} (h : Named v.handle) (hstage : Stage.named v.handle.stage = true) :
    Named ((v.clear env).goto stage).handle := by
  intro _
  show validatePhaseName (v.clear env).handle.body.phase = true
  rw [LockVisibility.clear_handle]
  exact h hstage

lemma next_named (h : Named v.handle) : Named (PhaseLock.next env id v).handle := by
  have hkept : ∀ {stage}, v.handle.stage = stage → Stage.named stage = true →
      validatePhaseName v.handle.body.phase = true := by
    intro stage hs hnamed
    exact h (by rw [hs, hnamed])
  unfold PhaseLock.next
  split
  · next hs =>
    split
    · exact nofun
    next hvalid =>
    split
    · exact nofun
    · exact fun _ => eq_true_of_ne_false hvalid
  · next hs =>
    split
    · exact nofun
    · exact fun _ => hkept hs rfl
  · next hs => exact attempt_named fun _ => hkept hs rfl
  · next hs => exact attempt_named fun _ => hkept hs rfl
  · next hs =>
    apply attempt_named
    split
    · exact nofun
    · exact fun _ => hkept hs rfl
  · next hs => exact attempt_named fun _ => hkept hs rfl
  · next hs => exact fun _ => hkept hs rfl
  · next hs => exact attempt_named fun _ => hkept hs rfl
  · next hs => exact attempt_named fun _ => hkept hs rfl
  · next hs => exact fun _ => hkept hs rfl
  · next hs => exact fun _ => hkept hs rfl
  · next hs => exact clear_named h (by rw [hs]; rfl)
  · next hs => exact fun _ => hkept hs rfl
  · exact nofun
  all_goals exact h

def AllNamed (w : World) : Prop := ∀ id h, w.handles id = some h → Named h

omit [LockFormat] in
lemma store_named (hnamed : AllNamed w) (hv : Named v.handle) : AllNamed (w.store id v) := by
  intro i h hh
  by_cases hi : i = id
  · subst hi
    obtain rfl := Option.some.inj ((PhaseLock.store_handles_self w i v).symm.trans hh)
    exact hv
  · rw [PhaseLock.store_handles_ne w v hi] at hh
    exact hnamed i h hh

lemma lock_named (hnamed : AllNamed w) (hstep : PhaseLock.step w act = some w') : AllNamed w' := by
  cases act with
  | acquire i process phase runId pid host ttl =>
      simp only [PhaseLock.step] at hstep
      split at hstep
      · cases hstep
      · cases hstep
        intro j h hh
        by_cases hj : j = i
        · subst hj
          obtain rfl : _ = h := by simpa [World.setHandle] using hh
          exact fun hfalse => absurd hfalse Bool.false_ne_true
        · exact hnamed j h (by simpa [World.setHandle, hj] using hh)
  | advance i env =>
      obtain ⟨h, hh, rfl⟩ := Option.map_eq_some_iff.mp hstep
      have hnext : Named (PhaseLock.next env i (w.view h)).handle := next_named (hnamed i h hh)
      exact store_named hnamed hnext
  | release i env =>
      obtain ⟨h, hh, rfl⟩ := Option.map_eq_some_iff.mp hstep
      obtain ⟨hh, hheld⟩ := Option.filter_eq_some_iff.mp hh
      have hheld : h.stage = .held := of_decide_eq_true hheld
      have hview : Named (w.view h).handle := hnamed i h hh
      exact store_named hnamed (clear_named hview (by show Stage.named h.stage = true; rw [hheld]; rfl))
  | drop i env =>
      obtain ⟨h, hh, rfl⟩ := Option.map_eq_some_iff.mp hstep
      obtain ⟨hh, hheld⟩ := Option.filter_eq_some_iff.mp hh
      have hheld : h.stage = .held := of_decide_eq_true hheld
      have hview : Named (w.view h).handle := hnamed i h hh
      exact store_named hnamed (clear_named hview (by show Stage.named h.stage = true; rw [hheld]; rfl))
  | crash process =>
      cases hstep
      intro j h' hh'
      obtain ⟨h, hh, rfl⟩ := Option.map_eq_some_iff.mp hh'
      unfold Handle.kill
      split
      · exact fun hfalse => absurd hfalse Bool.false_ne_true
      · exact hnamed j h hh

end Names

section Waiting

variable [GateFormat] [LockFormat] {cfg : HumanVerifierConfig} {before : Option Bytes}
  {d d' d₀ d₁ : Desk} {r id : ℕ} {t : Ticket} {act : Act} {h : Handle}

/-- The resumed phase runs, so it has its lock, and its gate may be waiting. -/
def Waits (d : Desk) (r : ℕ) : Prop :=
  d.runs r = some .running ∧ ∃ h, d.lock.handles r = some h ∧ h.stage = .held

lemma step_named (hnamed : AllNamed d.lock) (hstep : step cfg d act = some d') : AllNamed d'.lock := by
  rcases (step_frame hstep).lock with hsame | ⟨move, hmove⟩
  · rw [hsame]
    exact hnamed
  · exact lock_named hnamed hmove

omit [LockFormat] in
/-- The lock of the phase belongs to the run that waits, and the phase has a valid name. -/
lemma Waits.owner (hwaits : Waits d r) (hs : Sound cfg before d) (hnamed : AllNamed d.lock) :
    d.lock.owner cfg.phase = some r ∧ validatePhaseName cfg.phase = true := by
  obtain ⟨hrunning, h, hh, hheld⟩ := hwaits
  obtain ⟨h', hh', hphase, -⟩ := hs.runs r _ hrunning rfl
  obtain rfl := Option.some.inj (hh.symm.trans hh')
  have hholds : PhaseLock.Holds d.lock r h.body.phase := ⟨h, hh, rfl, by rw [hheld]; rfl⟩
  rw [← hphase]
  exact ⟨hholds.owner hs.lock, hnamed r h hh (by rw [hheld]; rfl)⟩

/-- The request has not got the lock, or it has been refused it. -/
structure Refused (d : Desk) (id : ℕ) (t : Ticket) : Prop where
  posted : d.posts id = some t
  wrote : t.wrote = none
  stage : t.stage = .locking ∨ ∃ e, t.stage = .replied (.done (.error (writeError e)))

/-- A request never gets the lock from a run that waits. -/
lemma refused_step (hs : Sound cfg before d) (hwaits : Waits d r) (hrefused : Refused d id t)
    (hstep : step cfg d act = some d') : ∃ t', Refused d' id t' := by
  by_cases hown : ∃ env, act = .work id env
  · obtain ⟨env, rfl⟩ := hown
    obtain ⟨t₀, ht₀, hstep⟩ := Option.bind_eq_some_iff.mp hstep
    obtain rfl := Option.some.inj (hrefused.posted.symm.trans ht₀)
    obtain ⟨h, hh, hstep⟩ := Option.bind_eq_some_iff.mp hstep
    obtain ⟨move, hmove, happly⟩ := Option.bind_eq_some_iff.mp hstep
    have hlive := Ticket.move_live hmove
    rcases hrefused.stage with hlocking | ⟨e, hreplied⟩
    · -- The handle of the request is not held, since the handle of the run is.
      have hnot : h.stage ≠ .held := by
        intro hheld
        obtain ⟨hrun, hr, hhr, hheld'⟩ := hwaits
        obtain ⟨h₁, hh₁, hphase, -⟩ := hs.posts id t hrefused.posted (by rw [hlocking]; rfl)
        obtain rfl := Option.some.inj (hh.symm.trans hh₁)
        obtain ⟨h₂, hh₂, hphase', -⟩ := hs.runs r _ hrun rfl
        obtain rfl := Option.some.inj (hhr.symm.trans hh₂)
        have hsame := held_unique hs.lock hh hhr (hphase'.trans hphase.symm) hheld hheld'
        exact hs.running_ne hrefused.posted hrun hsame.symm
      simp only [Ticket.move, if_neg hlive, hlocking] at hmove
      split at hmove
      · next hheld => exact absurd hheld hnot
      · next e hfailed =>
        cases hmove
        cases happly
        exact ⟨{ t with stage := .replied (.done (.error (writeError e))) },
          by simp [setPost_posts], hrefused.wrote, Or.inr ⟨e, rfl⟩⟩
      · cases hmove
        have hposted : d'.posts id = some t := by
          obtain ⟨lock, -, rfl⟩ := lockStep_some happly
          exact hrefused.posted
        exact ⟨t, hposted, hrefused.wrote, Or.inl hlocking⟩
    · simp [Ticket.move, hreplied] at hmove
  · have hother : ∀ env, act ≠ .work id env := fun env heq => hown ⟨env, heq⟩
    exact ⟨t, (step_frame hstep).posts id t hrefused.posted hother, hrefused.wrote, hrefused.stage⟩

omit [GateFormat] in
lemma checkBody_inUse {env : Env} {phase : String} {file : Option Bytes} {e : PhaseLock.PhaseLockError}
    (hcheck : PhaseLock.checkBody env phase file = some e) :
    ∃ phase pid host since, e = .lockInUse phase pid host since := by
  unfold PhaseLock.checkBody at hcheck
  split at hcheck
  · cases hcheck
  · split at hcheck
    · split at hcheck
      · cases hcheck
        exact ⟨_, _, _, _, rfl⟩
      · cases hcheck
    · cases hcheck

omit [GateFormat] in
lemma lockTaken_inUse (env : Env) (phase : String) (file : Option Bytes) :
    ∃ phase' pid host since, PhaseLock.lockTaken env phase file = .lockInUse phase' pid host since := by
  unfold PhaseLock.lockTaken
  split
  · exact ⟨_, _, _, _, rfl⟩
  · exact ⟨_, _, _, _, rfl⟩

omit [GateFormat] in
/-- Who finds the lock of a valid phase taken is told so, or is one call nearer to be. -/
lemma next_in_use {v : View} {a : ℕ} (hname : validatePhaseName v.handle.body.phase = true)
    (hleft : 0 < v.handle.stage.left) (howner : v.owner = some a) :
    (∃ phase pid host since,
      (PhaseLock.next (PhaseLock.calm 0) id v).handle.stage =
        .failed (.lockInUse phase pid host since)) ∨
      0 < (PhaseLock.next (PhaseLock.calm 0) id v).handle.stage.left ∧
        (PhaseLock.next (PhaseLock.calm 0) id v).handle.stage.left < v.handle.stage.left := by
  cases hs : v.handle.stage with
  | enter =>
      right
      simp [PhaseLock.next, hs, hname, PhaseLock.calm, View.goto, Stage.left]
  | check =>
      cases hcheck : PhaseLock.checkBody (PhaseLock.calm 0) v.handle.body.phase v.file with
      | none =>
          right
          simp [PhaseLock.next, hs, hcheck, View.goto, Stage.left]
      | some e =>
          left
          obtain ⟨phase, pid, host, since, rfl⟩ := checkBody_inUse hcheck
          exact ⟨phase, pid, host, since, by simp [PhaseLock.next, hs, hcheck, View.fail, View.goto]⟩
  | prepare | openFile =>
      right
      simp [PhaseLock.next, hs, PhaseLock.calm, View.attempt, View.goto, Stage.left]
  | lock =>
      left
      obtain ⟨phase, pid, host, since, htaken⟩ :=
        lockTaken_inUse (PhaseLock.calm 0) v.handle.body.phase v.file
      refine ⟨phase, pid, host, since, ?_⟩
      simp only [PhaseLock.next, hs, View.attempt, PhaseLock.calm, howner]
      exact congrArg Stage.failed htaken
  | _ => simp [hs, Stage.left] at hleft

omit [LockFormat] in
lemma move_locking {env : Env} {taken : Bool} (hstage : t.stage = .locking) (hleft : 0 < h.stage.left) :
    t.move cfg id env h taken = some (.lock (.advance id env)) := by
  unfold Ticket.move
  rw [hstage]
  cases hs : h.stage with
  | held | crashed | failed e => simp [hs, Stage.left] at hleft
  | _ => simp

/-- A request that finds nothing but the lock in its way is told that it is locked. -/
lemma run_refused {h : Handle} (hs : Sound cfg before d) (hnamed : AllNamed d.lock) (hwaits : Waits d r)
    (ht : d.posts id = some t) (hstage : t.stage = .locking) (hh : d.lock.handles id = some h)
    (hleft : 0 < h.stage.left)
    (hrun : Run (step cfg) (fun d act => Waits d r ∧ act = .work id (PhaseLock.calm 0)) d₁ d) :
    ∃ d', Run (step cfg) (fun d act => Waits d r ∧ act = .work id (PhaseLock.calm 0)) d₁ d' ∧
      Waits d' r ∧ d'.posts id = some { t with stage := .replied (.done (.error .locked)) } := by
  induction hn : h.stage.left using Nat.strong_induction_on generalizing d h with
  | _ n ih =>
      subst hn
      obtain ⟨h₁, hh₁, hphase, -⟩ := hs.posts id t ht (by rw [hstage]; rfl)
      obtain rfl := Option.some.inj (hh.symm.trans hh₁)
      obtain ⟨howner, hname⟩ := hwaits.owner hs hnamed
      rw [← hphase] at howner hname
      let v := PhaseLock.next (PhaseLock.calm 0) id (d.lock.view h)
      let d₂ : Desk := { d with lock := d.lock.store id v }
      have hh₂ : d₂.lock.handles id = some v.handle := PhaseLock.store_handles_self d.lock id v
      have hstep : step cfg d (.work id (PhaseLock.calm 0)) = some d₂ := by
        have hmove : t.move cfg id (PhaseLock.calm 0) h d.response.isSome =
            some (.lock (.advance id (PhaseLock.calm 0))) := move_locking hstage hleft
        simp [step, ht, hh, hmove, Desk.apply, Desk.lockStep, PhaseLock.step, v, d₂]
      have hwaits₂ : Waits d₂ r := by
        obtain ⟨hrunning, hr, hhr, hheld⟩ := hwaits
        have hne : r ≠ id := hs.running_ne ht hrunning
        exact ⟨hrunning, hr, (PhaseLock.store_handles_ne d.lock v hne).trans hhr, hheld⟩
      have hrun₂ := hrun.step ⟨hwaits, rfl⟩ hstep
      rcases next_in_use (v := d.lock.view h) hname hleft howner with
        ⟨phase, pid, host, since, hfailed⟩ | ⟨hleft', hlt⟩
      · have hfailed : v.handle.stage = .failed (.lockInUse phase pid host since) := hfailed
        have hreply : step cfg d₂ (.work id (PhaseLock.calm 0)) =
            some (d₂.setPost id { t with stage := .replied (.done (.error .locked)) }) := by
          have hmove : t.move cfg id (PhaseLock.calm 0) v.handle d₂.response.isSome =
              some (.goto (.replied (.done (.error .locked)))) := by
            simp [Ticket.move, hfailed, hstage, writeError]
          have ht₂ : d₂.posts id = some t := ht
          simp [step, ht₂, hh₂, hmove, Desk.apply]
        exact ⟨_, hrun₂.step ⟨hwaits₂, rfl⟩ hreply, hwaits₂, by simp [setPost_posts]⟩
      · exact ih _ hlt (step_sound hs hstep) (step_named hnamed hstep) hwaits₂ ht hh₂ hleft' hrun₂ rfl

/-- A request whose headers are in order asks for the lock. -/
lemma post_started {process : ℕ} {pid : UInt32} {host : String} {guard : Option PostGuardConfig}
    {headers : Headers} {post : GateHistory.Post}
    (hguard : (guard.map (checkPostOrigin headers)).getD (.ok ()) = .ok ())
    (hpost : step cfg d (.post id process pid host guard headers post) = some d₁) :
    d.unused id ∧ d.lock.handles id = none ∧
      d₁ = Desk.setPost id
        (⟨d.lock.setHandle id (PhaseLock.newHandle process cfg.phase cfg.runId pid host none),
          d.response, d.posts, d.runs, d.epoch⟩) ⟨post, .locking, none, false⟩ := by
  simp only [step, hguard] at hpost
  split at hpost
  · next hunused =>
    obtain ⟨d₂, hacquire, rfl⟩ := Option.map_eq_some_iff.mp hpost
    obtain ⟨lock, hlock, rfl⟩ := lockStep_some hacquire
    simp only [PhaseLock.step] at hlock
    split at hlock
    · cases hlock
    · next hnew =>
      cases hlock
      exact ⟨hunused, hnew, rfl⟩
  · cases hpost

/-- While a resumed phase waits at its gate, no request with headers in order gets the lock, however
the system goes on; none writes a response, and every one of them that is replied to gets an error.
One that meets with no other error is told that the gate is locked. -/
theorem waiting_gate_locked {process : ℕ} {pid : UInt32} {host : String}
    {guard : Option PostGuardConfig} {headers : Headers} {post : GateHistory.Post} (hd : Initial d₀)
    (hrun : Run (step cfg) (fun _ _ => True) d₀ d) (hwaits : Waits d r)
    (hguard : (guard.map (checkPostOrigin headers)).getD (.ok ()) = .ok ())
    (hpost : step cfg d (.post id process pid host guard headers post) = some d₁) :
    (∀ d', Run (step cfg) (fun d _ => Waits d r) d₁ d' → ∃ t, d'.posts id = some t ∧
      t.stage.inside = false ∧ t.wrote = none ∧
      ∀ reply, t.stage = .replied reply → reply.status = 423 ∨ reply.status = 500) ∧
    ∃ d', Run (step cfg) (fun d act => Waits d r ∧ act = .work id (PhaseLock.calm 0)) d₁ d' ∧
      Waits d' r ∧ d'.posts id = some ⟨post, .replied (.done (.error .locked)), none, false⟩ := by
  have hs := run_sound_all hd hrun
  have hnamed : AllNamed d.lock := hrun.invariant (I := fun d => AllNamed d.lock)
    (fun i h hh => absurd (hh.symm.trans (hd.lock.handles i)) nofun)
    fun _ _ _ hnamed _ hstep => step_named hnamed hstep
  have hs₁ : Sound cfg d₀.response d₁ := step_sound hs hpost
  obtain ⟨hunused, hnew, rfl⟩ := post_started hguard hpost
  let t : Ticket := ⟨post, .locking, none, false⟩
  let h : Handle := PhaseLock.newHandle process cfg.phase cfg.runId pid host none
  constructor
  · intro d' hrun'
    have hposted : Refused (Desk.setPost id ⟨d.lock.setHandle id h, d.response, d.posts, d.runs,
        d.epoch⟩ t) id t := ⟨by simp [setPost_posts], rfl, Or.inl rfl⟩
    obtain ⟨-, t', hrefused⟩ := hrun'.invariant
      (I := fun d => Sound cfg d₀.response d ∧ ∃ t, Refused d id t) ⟨hs₁, t, hposted⟩
      fun _ _ _ hkept hwaits hstep =>
        ⟨step_sound hkept.1 hstep, refused_step hkept.1 hwaits hkept.2.choose_spec hstep⟩
    refine ⟨t', hrefused.posted, ?_, hrefused.wrote, fun reply hreply => ?_⟩
    · rcases hrefused.stage with hlocking | ⟨e, hreplied⟩
      · rw [hlocking]
        rfl
      · rw [hreplied]
        rfl
    · rcases hrefused.stage with hlocking | ⟨e, hreplied⟩
      · rw [hlocking] at hreply
        cases hreply
      · rw [hreplied] at hreply
        cases hreply
        cases e <;> simp [writeError, Reply.status]
  · obtain ⟨hrunning, hr, hhr, hheld⟩ := hwaits
    have hne : r ≠ id := by
      rintro rfl
      rw [hnew] at hhr
      cases hhr
    have hhandle : (d.lock.setHandle id h).handles id = some h := by simp [World.setHandle]
    have hwaits₁ : Waits (Desk.setPost id ⟨d.lock.setHandle id h, d.response, d.posts, d.runs,
        d.epoch⟩ t) r := ⟨hrunning, hr, by simp [World.setHandle, Desk.setPost, hne, hhr], hheld⟩
    have hnamed₁ := step_named hnamed hpost
    have hposted : (Desk.setPost id ⟨d.lock.setHandle id h, d.response, d.posts, d.runs,
        d.epoch⟩ t).posts id = some t := by simp [setPost_posts]
    exact run_refused hs₁ hnamed₁ hwaits₁ hposted rfl hhandle (Nat.succ_pos 4) .start

end Waiting

section Example

attribute [local instance] PhaseLock.spelled talliedFormat

/-- A run of the phase `design` that is the only one. -/
def resumed (w : World) (stage : RunStage) : Desk :=
  ⟨w, none, fun _ => none, Function.update (fun _ => none) 0 (some stage), 0⟩

def waiting : Desk := resumed PhaseLock.designHeld .running

lemma waiting_waits : Waits waiting 0 :=
  ⟨rfl, (PhaseLock.designer 0 1).at .held, PhaseLock.store_handles_self _ _ _, rfl⟩

lemma move_run {w w' : World} {stage : RunStage} {h : Handle} {env : Env} (hh : w.handles 0 = some h)
    (hmove : stage.move 0 env h = some (.lock (.advance 0 env)))
    (hstep : PhaseLock.step w (.advance 0 env) = some w') :
    step designGate (resumed w stage) (.run 0 env) = some (resumed w' stage) := by
  simp [step, resumed, hh, hmove, Desk.applyRun, Desk.lockStep, hstep]

/-- The phase is resumed and waits. -/
lemma run_waiting : Run (step designGate) (fun _ _ => True) idle waiting := by
  have hresumed : step designGate idle (.resume 0 0 1 "host") =
      some (resumed (PhaseLock.unlocked.setHandle 0 (PhaseLock.designer 0 1)) .locking) := rfl
  have hlock : Run PhaseLock.step (fun _ act => ∃ env, act = .advance 0 env)
      (PhaseLock.unlocked.setHandle 0 (PhaseLock.designer 0 1)) PhaseLock.designHeld :=
    PhaseLock.run_acquired .start (by decide) rfl rfl rfl fun _ _ env => ⟨env, rfl⟩
  have hheld : Run (step designGate) (fun _ _ => True) idle (resumed PhaseLock.designHeld .locking) := by
    refine run_lifted (fun w => resumed w .locking) (Act.run 0) (fun w w' h env hh hrest hstep => ?_)
      (fun _ _ => trivial) (Run.start.step trivial hresumed) hlock
    obtain ⟨hheld, hcrashed, hfailed⟩ := by simpa [AtRest, not_or] using hrest
    refine move_run hh ?_ hstep
    unfold RunStage.move
    rw [if_neg hcrashed]
    dsimp only
    split
    · next hs => exact absurd hs hheld
    · next e hs => exact absurd hs (hfailed e)
    · rfl
  have hruns : step designGate (resumed PhaseLock.designHeld .locking) (.run 0 (PhaseLock.calm 0)) =
      some waiting := by
    have hh : PhaseLock.designHeld.handles 0 = some ((PhaseLock.designer 0 1).at .held) :=
      PhaseLock.store_handles_self _ _ _
    simp [step, resumed, hh, RunStage.move, Handle.at, Desk.applyRun, Desk.setRun, waiting]
  exact hheld.step (a := Act.run 0 _) trivial hruns

/-- The approval is posted. -/
def answered : Desk :=
  Desk.setPost 1 ⟨PhaseLock.designHeld.setHandle 1 (PhaseLock.designer 1 2), none, fun _ => none,
    waiting.runs, 0⟩ ⟨approval, .locking, none, false⟩

lemma step_answered : step designGate waiting
    (.post 1 1 2 "host" (some (.forLoopback 80)) formHeaders approval) = some answered := by
  have hguard : checkPostOrigin formHeaders (PostGuardConfig.forLoopback 80) = .ok () := by decide
  simp only [step, Option.map_some, Option.getD_some, hguard]
  rfl

theorem waiting_gate_locked_design :
    ∃ d', Run (step designGate) (fun d act => Waits d 0 ∧ act = .work 1 (PhaseLock.calm 0)) answered d' ∧
      Waits d' 0 ∧ d'.posts 1 = some ⟨approval, .replied (.done (.error .locked)), none, false⟩ := by
  have hguard : ((some (PostGuardConfig.forLoopback 80)).map (checkPostOrigin formHeaders)).getD
      (.ok ()) = .ok () := by decide
  exact (waiting_gate_locked idle_initial run_waiting waiting_waits hguard step_answered).2

/-- An approval that is posted while the resumed phase waits is answered by `LOCKED`. -/
theorem waiting_gate_refuses : ∃ d', Run (step designGate) (fun _ _ => True) idle d' ∧ Waits d' 0 ∧
    d'.posts 1 = some ⟨approval, .replied (.done (.error .locked)), none, false⟩ ∧
    Reply.status (.done (.error .locked)) = 423 := by
  have hrun : Run (step designGate) (fun _ _ => True) idle answered :=
    run_waiting.step trivial step_answered
  have hnamed : AllNamed answered.lock := hrun.invariant (I := fun d => AllNamed d.lock)
    (fun i h hh => absurd (hh.symm.trans (idle_initial.lock.handles i)) nofun)
    fun _ _ _ hnamed _ hstep => step_named hnamed hstep
  have hwaits : Waits answered 0 := ⟨rfl, (PhaseLock.designer 0 1).at .held, rfl, rfl⟩
  have hposted : answered.posts 1 = some ⟨approval, .locking, none, false⟩ := rfl
  have hhandle : answered.lock.handles 1 = some (PhaseLock.designer 1 2) := rfl
  obtain ⟨d', hrefused, hwaits', hreplied⟩ := run_refused (run_sound_all idle_initial hrun) hnamed hwaits
    hposted rfl hhandle (Nat.succ_pos 4) .start
  exact ⟨d', hrun.trans (hrefused.mono fun _ _ _ => trivial), hwaits', hreplied, rfl⟩

end Example

end Loker.ResumedGates
