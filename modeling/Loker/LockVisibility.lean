import Loker.PhaseLock

/-! What the lock file of a phase shows while a handle holds the lock. -/

namespace Loker.LockVisibility

open PhaseLock Transitions

section Shows

variable [LockFormat] {env : Env} {id : ℕ} {v : View} {h : Handle} {stage : Stage}

/-- What a handle that writes or has written its body finds in the file. -/
def Shows (v : View) : Prop :=
  match v.handle.stage with
  | .write pos rest => ∃ bytes, v.file = some bytes ∧ bytes.length = pos ∧ bytes ++ rest = v.handle.json
  | .sync | .held => v.file = some v.handle.json
  | _ => True

/-- Some of the body is in the file, and the handle has not begun to take it out. -/
def Stage.shown : Stage → Bool
  | .write pos _ => 0 < pos
  | .sync | .held => true
  | _ => false

/-- The name of the phase has been looked at. -/
def Stage.named : Stage → Bool
  | .enter | .closed | .failed _ | .crashed => false
  | _ => true

structure Visible (v : View) : Prop where
  named : Stage.named v.handle.stage = true → validatePhaseName v.handle.body.phase = true
  shows : Shows v

lemma shows_of_unlocked (h : v.handle.stage.locked = false) : Shows v := by
  unfold Shows
  split
  · next hs => simp [hs, Stage.locked] at h
  · next hs => simp [hs, Stage.locked] at h
  · next hs => simp [hs, Stage.locked] at h
  · trivial

lemma unlocked_visible (hnamed : Stage.named v.handle.stage = true →
    validatePhaseName v.handle.body.phase = true) (h : v.handle.stage.locked = false) : Visible v :=
  ⟨hnamed, shows_of_unlocked h⟩

lemma fail_visible (v : View) (id : ℕ) (e : PhaseLockError) : Visible (v.fail id e) :=
  unlocked_visible nofun rfl

lemma attempt_visible {done : View} (h : Visible done) : Visible (v.attempt env id done) := by
  unfold View.attempt
  split
  · exact fail_visible v id _
  · exact h

omit [LockFormat] in
lemma clear_handle (v : View) (env : Env) : (v.clear env).handle = v.handle := by
  unfold View.clear
  split
  · rfl
  · rfl

lemma clear_visible (hname : validatePhaseName v.handle.body.phase = true)
    (hshows : ∀ v : View, Shows (v.goto stage)) : Visible ((v.clear env).goto stage) := by
  refine ⟨fun _ => ?_, hshows _⟩
  show validatePhaseName (v.clear env).handle.body.phase = true
  rw [clear_handle]
  exact hname

omit [LockFormat] in
lemma writeAt_end (bytes chunk : Bytes) : writeAt bytes bytes.length chunk = bytes ++ chunk := by
  simp [writeAt]

/-- A handle's own calls put its body into the file. -/
lemma next_visible (hfits : Fits id v) (h : Visible v) : Visible (next env id v) := by
  have hname := h.named
  have hshows := h.shows
  unfold next
  split
  · next hs =>
    split
    · exact fail_visible v id _
    next hvalid =>
    split
    · exact fail_visible v id _
    · exact unlocked_visible (fun _ => eq_true_of_ne_false hvalid) rfl
  · next hs =>
    rw [hs] at hname
    split
    · exact fail_visible v id _
    · exact unlocked_visible (fun _ => hname rfl) rfl
  · next hs =>
    rw [hs] at hname
    exact attempt_visible (unlocked_visible (fun _ => hname rfl) rfl)
  · next hs =>
    rw [hs] at hname
    exact attempt_visible (unlocked_visible (fun _ => hname rfl) rfl)
  · next hs =>
    rw [hs] at hname
    apply attempt_visible
    split
    · exact fail_visible v id _
    · exact ⟨fun _ => hname rfl, trivial⟩
  · next hs =>
    rw [hs] at hname
    obtain ⟨bytes, hbytes⟩ := Option.isSome_iff_exists.mp (hfits.opened (by rw [hs]; rfl))
    have hempty : v.setLen.file = some [] := by simp [View.setLen, hbytes]
    exact attempt_visible ⟨fun _ => hname rfl, [], hempty, rfl, rfl⟩
  · next hs =>
    rw [hs] at hname
    unfold Shows at hshows
    rw [hs] at hshows
    obtain ⟨bytes, hbytes, -, hjson⟩ := hshows
    rw [List.append_nil] at hjson
    rw [hjson] at hbytes
    exact ⟨fun _ => hname rfl, hbytes⟩
  · next pos rest _ hs =>
    rw [hs] at hname
    unfold Shows at hshows
    rw [hs] at hshows
    obtain ⟨bytes, hbytes, rfl, hjson⟩ := hshows
    apply attempt_visible
    refine ⟨fun _ => hname rfl, bytes ++ rest.take (min (max 1 env.accepted) rest.length), ?_, ?_, ?_⟩
    · simp [View.goto, hbytes, writeAt_end]
    · simp
    · rw [List.append_assoc, List.take_append_drop]
      exact hjson
  · next hs =>
    rw [hs] at hname
    unfold Shows at hshows
    rw [hs] at hshows
    exact attempt_visible ⟨fun _ => hname rfl, hshows⟩
  · next hs => exact ⟨fun _ => hname (by rw [hs]; rfl), trivial⟩
  · next hs => exact ⟨fun _ => hname (by rw [hs]; rfl), trivial⟩
  · next hs => exact clear_visible (hname (by rw [hs]; rfl)) fun _ => trivial
  · next hs => exact ⟨fun _ => hname (by rw [hs]; rfl), trivial⟩
  · exact ⟨fun hfalse => absurd hfalse Bool.false_ne_true, trivial⟩
  all_goals exact h

lemma release_visible (h : Visible v) (hs : v.handle.stage = .held) : Visible (release env v) :=
  clear_visible (h.named (by rw [hs]; rfl)) fun _ => trivial

lemma drop_visible (h : Visible v) (hs : v.handle.stage = .held) : Visible (drop env v) :=
  clear_visible (h.named (by rw [hs]; rfl)) fun _ => trivial

omit [LockFormat] in
lemma attempt_file {done : View} (h : done.file = v.file) :
    (v.attempt env id done).file = v.file := by
  unfold View.attempt
  split
  · rfl
  · exact h

/-- Whoever does not have the file locked leaves it as it is, unless it is dropped after its
release. -/
lemma next_file (hunlocked : v.handle.stage.locked = false) (hne : v.handle.stage ≠ .dropTruncate)
    (hsome : v.file.isSome) : (next env id v).file = v.file := by
  obtain ⟨bytes, hbytes⟩ := Option.isSome_iff_exists.mp hsome
  unfold next
  split
  · split
    · rfl
    split
    · rfl
    · rfl
  · split
    · rfl
    · rfl
  · exact attempt_file rfl
  · exact attempt_file (by simp [View.goto, hbytes])
  · apply attempt_file
    split
    · rfl
    · rfl
  · next hs => simp [hs, Stage.locked] at hunlocked
  · rfl
  · next hs => simp [hs, Stage.locked] at hunlocked
  · exact attempt_file rfl
  · rfl
  · rfl
  · next hs => exact absurd hs hne
  all_goals rfl

end Shows

section Visibility

variable [LockFormat] {id : ℕ} {v : View} {w w₀ w' : World} {h : Handle} {act : Act}

/-- A handle that is dropped after its release clears the file only when no other handle has begun
to write its body and still shows it. -/
def Harmless (w : World) (act : Act) : Prop :=
  ∀ id env h, act = .advance id env → w.handles id = some h → h.stage = .dropTruncate →
    ∀ other h', w.handles other = some h' → h'.body.phase = h.body.phase →
      Stage.shown h'.stage = false

def AllVisible (w : World) : Prop := ∀ id h, w.handles id = some h → Visible (w.view h)

lemma store_visible (hvis : AllVisible w) (hh : w.handles id = some h)
    (hadv : Advances id (w.view h) v) (hv : Visible v)
    (hothers : ∀ other h', other ≠ id → w.handles other = some h' →
      h'.body.phase = h.body.phase → h'.stage.locked = true → Shows ⟨v.file, v.owner, h'⟩) :
    AllVisible (w.store id v) := by
  intro id' h' hh'
  by_cases hid : id' = id
  · subst hid
    obtain rfl : v.handle = h' := Option.some.inj ((store_handles_self w _ v).symm.trans hh')
    rw [view_store_self]
    exact hv
  · rw [store_handles_ne w v hid] at hh'
    by_cases hp : h'.body.phase = v.handle.body.phase
    · rw [view_store_same hp]
      refine ⟨(hvis id' h' hh').named, ?_⟩
      cases hlocked : h'.stage.locked with
      | false => exact shows_of_unlocked hlocked
      | true => exact hothers id' h' hid hh' (hp.trans hadv.phase) hlocked
    · rw [view_store_ne hp]
      exact hvis id' h' hh'

/-- A body of which nothing is in the file yet is not touched by a truncation. -/
lemma shows_cleared {env : Env} (hshown : Stage.shown h.stage = false)
    (hshows : Shows ⟨v.file, v.owner, h⟩) : Shows ⟨(v.clear env).file, v.owner, h⟩ := by
  unfold View.clear
  split
  · exact hshows
  · unfold Shows at hshows ⊢
    dsimp only at hshows ⊢
    split at hshows
    · next pos rest hs =>
      obtain ⟨bytes, hbytes, hpos, hjson⟩ := hshows
      have hzero : pos = 0 := by simpa [hs, Stage.shown] using hshown
      have hempty : bytes = [] := List.length_eq_zero_iff.mp (hpos.trans hzero)
      refine ⟨[], ?_, hzero.symm, by rwa [hempty] at hjson⟩
      simp [View.setLen, hbytes]
    · next hs => simp [hs, Stage.shown] at hshown
    · next hs => simp [hs, Stage.shown] at hshown
    · trivial

lemma advance_visible {env : Env} (hinv : Inv w) (hvis : AllVisible w)
    (hok : Harmless w (.advance id env)) (hh : w.handles id = some h) :
    AllVisible (w.store id (next env id (w.view h))) := by
  have hfits := hinv.fits id h hh
  refine store_visible hvis hh (next_advances hfits) (next_visible hfits (hvis id h hh)) ?_
  intro other h' hne hh' hp hlocked
  have hfits' := hinv.fits other h' hh'
  have hview : w.view h' = ⟨(w.view h).file, (w.view h).owner, h'⟩ := by simp [World.view, hp]
  rw [hview] at hfits'
  have hshows : Shows ⟨(w.view h).file, (w.view h).owner, h'⟩ := by
    rw [← hview]
    exact (hvis other h' hh').shows
  have hunlocked : (w.view h).handle.stage.locked = false := by
    by_contra hl
    have howner := hfits.locked.mp (eq_true_of_ne_false hl)
    have howner' := hfits'.locked.mp hlocked
    exact hne (Option.some.inj (howner'.symm.trans howner))
  have hsome : (w.view h).file.isSome := hfits'.opened (Stage.opened_of_locked hlocked)
  by_cases hdrop : h.stage = .dropTruncate
  · have hnext : next env id (w.view h) = ((w.view h).clear env).goto (.dropSync true) := by
      unfold next
      simp [World.view, hdrop]
    rw [hnext]
    exact shows_cleared (hok id env h rfl hh hdrop other h' hh' hp) hshows
  · rw [next_file hunlocked hdrop hsome]
    exact hshows

/-- The handle that gives up the lock is the only one that shows its body. -/
lemma held_visible (hinv : Inv w) (hvis : AllVisible w) (hh : w.handles id = some h)
    (hheld : h.stage = .held) (hadv : Advances id (w.view h) v) (hv : Visible v) :
    AllVisible (w.store id v) := by
  refine store_visible hvis hh hadv hv fun other h' hne hh' hp hlocked => ?_
  have howner := (hinv.fits id h hh).locked.mp (by rw [World.view, hheld]; rfl)
  have howner' := (hinv.fits other h' hh').locked.mp hlocked
  refine absurd (Option.some.inj (howner'.symm.trans ?_)) hne
  simpa [World.view, hp] using howner

lemma kill_visible (hvis : AllVisible w) (process : ℕ) : AllVisible (w.kill process) := by
  intro id h' hh'
  obtain ⟨h, hh, rfl⟩ := Option.map_eq_some_iff.mp hh'
  unfold Handle.kill
  split
  · exact unlocked_visible nofun rfl
  · exact ⟨(hvis id h hh).named, (hvis id h hh).shows⟩

lemma acquire_visible (hvis : AllVisible w) (hh : h.stage = .enter) :
    AllVisible (w.setHandle id h) := by
  intro id' h' hh'
  by_cases hid : id' = id
  · subst hid
    obtain rfl : h = h' := by simpa [World.setHandle] using hh'
    refine unlocked_visible (fun hn => ?_) (by simp [World.view, hh, Stage.locked])
    simp [World.view, hh, Stage.named] at hn
  · exact hvis id' h' (by simpa [World.setHandle, hid] using hh')

lemma step_visible (hinv : Inv w) (hvis : AllVisible w) (hok : Harmless w act)
    (hstep : step w act = some w') : AllVisible w' := by
  cases act with
  | acquire id process phase runId pid host ttl =>
      simp only [step] at hstep
      split at hstep
      · cases hstep
      · cases hstep
        exact acquire_visible hvis rfl
  | advance id env =>
      obtain ⟨h, hh, rfl⟩ := Option.map_eq_some_iff.mp hstep
      exact advance_visible hinv hvis hok hh
  | release id env =>
      obtain ⟨h, hh, rfl⟩ := Option.map_eq_some_iff.mp hstep
      obtain ⟨hh, hheld⟩ := Option.filter_eq_some_iff.mp hh
      have hs := of_decide_eq_true hheld
      exact held_visible hinv hvis hh hs (release_advances (hinv.fits id h hh) hs)
        (release_visible (hvis id h hh) hs)
  | drop id env =>
      obtain ⟨h, hh, rfl⟩ := Option.map_eq_some_iff.mp hstep
      obtain ⟨hh, hheld⟩ := Option.filter_eq_some_iff.mp hh
      have hs := of_decide_eq_true hheld
      exact held_visible hinv hvis hh hs (drop_advances (hinv.fits id h hh) hs)
        (drop_visible (hvis id h hh) hs)
  | crash process =>
      cases hstep
      exact kill_visible hvis process

lemma run_visible (hinit : Initial w₀) (hrun : Run step Harmless w₀ w) : AllVisible w := by
  have hstart : AllVisible w₀ := fun id h hh => absurd (hh.symm.trans (hinit.handles id)) nofun
  have hboth := hrun.invariant (I := fun w => Inv w ∧ AllVisible w) ⟨hinit.inv, hstart⟩
    fun _ _ _ hkept hok hstep =>
      ⟨step_inv hkept.1 hstep, step_visible hkept.1 hkept.2 hok hstep⟩
  exact hboth.2

/-- The truncation that the condition leaves out takes a body out of the file. -/
lemma harmful_erases {env : Env} {other : ℕ} {h' : Handle} (hvis : AllVisible w)
    (hh : w.handles id = some h) (hdrop : h.stage = .dropTruncate) (herror : env.error = none)
    (hh' : w.handles other = some h') (hp : h'.body.phase = h.body.phase)
    (hheld : h'.stage = .held) : ∃ w', step w (.advance id env) = some w' ∧
      w'.handles other = some h' ∧ inspect w' h'.body.phase = .ok none := by
  have hnext : next env id (w.view h) = (w.view h).setLen.goto (.dropSync true) := by
    unfold next
    simp [World.view, hdrop, View.clear, herror]
  have hne : other ≠ id := by
    rintro rfl
    obtain rfl : h = h' := Option.some.inj (hh.symm.trans hh')
    rw [hdrop] at hheld
    cases hheld
  have hvisible := hvis other h' hh'
  have hname := hvisible.named (by rw [World.view, hheld]; rfl)
  have hshows := hvisible.shows
  unfold Shows at hshows
  simp only [World.view, hheld, hp] at hname hshows
  refine ⟨w.store id (next env id (w.view h)), by simp [step, hh], ?_, ?_⟩
  · rw [store_handles_ne w _ hne, hh']
  · rw [hnext]
    simp [inspect, hp, hname, World.store, View.goto, View.setLen, World.view, hshows,
      readLockBody_nil]

/-- From the return of its `acquire` until it is released or dropped, `inspect` shows a handle's
body, in every run in which no handle is dropped after its release while another shows its. -/
theorem body_visible (hinit : Initial w₀) (hrun : Run step Harmless w₀ w) (hh : w.handles id = some h)
    (hheld : h.stage = .held) : inspect w h.body.phase = .ok (some h.body) := by
  have hvis := run_visible hinit hrun id h hh
  have hname := hvis.named (by rw [World.view, hheld]; rfl)
  have hshows := hvis.shows
  unfold Shows at hshows
  simp only [World.view, hheld] at hname hshows
  simp [inspect, hname, hshows, Handle.json, readLockBody_text]

end Visibility

section Design

attribute [local instance] spelled

/-- The first handle has been released and not dropped yet. -/
def designReleased : World := unlocked.store 0 ⟨some [], none, (designer 0 1).at .dropTruncate⟩

lemma run_designReleased {meets : World → Act → Prop}
    (hacquire : ∀ w id process phase runId pid host ttl,
      meets w (.acquire id process phase runId pid host ttl))
    (hrelease : ∀ w env, meets w (.release 0 env))
    (hmeets : ∀ v : View, v.handle.stage ≠ .dropTruncate →
      ∀ env, meets (unlocked.store 0 v) (.advance 0 env)) : Run step meets unlocked designReleased :=
  run_released (run_designHeld hacquire hmeets) hrelease hmeets

lemma harmless_of_ne {w : World} {act : Act} (h : ∀ id env, act ≠ .advance id env) :
    Harmless w act := fun id env _ hact => absurd hact (h id env)

lemma harmless_advance {w : World} {id : ℕ} {v : View} (hv : v.handle.stage ≠ .dropTruncate)
    (env : Env) : Harmless (w.store id v) (.advance id env) := by
  intro id' env' h hact hh hdrop
  cases hact
  obtain rfl : v.handle = h := Option.some.inj ((store_handles_self w _ v).symm.trans hh)
  exact absurd hdrop hv

/-- The second handle acquires the lock after the first has been released. -/
def secondHeld (w : World) : World :=
  w.store 1 ⟨some (designer 1 2).json, some 1, (designer 1 2).at .held⟩

lemma run_secondHeld {meets : World → Act → Prop} {w : World}
    (hrun : Run step meets unlocked w) (hacquire : ∀ w id process phase runId pid host ttl,
      meets w (.acquire id process phase runId pid host ttl))
    (hmeets : ∀ v : View, v.handle.stage ≠ .dropTruncate →
      ∀ env, meets (w.store 1 v) (.advance 1 env))
    (hnew : w.handles 1 = none) (hfree : w.owner "design" = none)
    (hempty : w.file "design" = some []) : Run step meets unlocked (secondHeld w) := by
  have hcalled : Run step meets unlocked (w.setHandle 1 ((designer 1 2).at .enter)) := by
    refine hrun.step (hacquire _ 1 1 "design" "run" 2 "host" none) ?_
    simp only [step, hnew]
    rfl
  refine run_acquired hcalled (by decide) rfl hfree ?_ hmeets
  simp only [designer, newHandle, hempty, checkBody, readLockBody_nil]

/-- The first handle has been released and dropped. -/
def designDropped : World := unlocked.store 0 ⟨some [], none, (designer 0 1).at .closed⟩

lemma run_designDropped : Run step Harmless unlocked designDropped := by
  have hreleased : Run step Harmless unlocked designReleased :=
    run_designReleased (fun _ _ _ _ _ _ _ _ => harmless_of_ne nofun)
      (fun _ _ => harmless_of_ne nofun) fun v hv env => harmless_advance hv env
  have hharmless : Harmless designReleased (.advance 0 (calm 0)) := by
    intro id env h hact hh hdrop other h' hh' hp
    by_cases hother : other = 0
    · subst hother
      cases hh'
      rfl
    · rw [designReleased, store_handles_ne _ _ hother] at hh'
      cases hh'
  have hcleared : Run step Harmless unlocked
      (unlocked.store 0 ⟨some [], none, (designer 0 1).at (.dropSync true)⟩) :=
    run_advance hreleased hharmless rfl rfl
  have hsynced : Run step Harmless unlocked
      (unlocked.store 0 ⟨some [], none, (designer 0 1).at (.close true)⟩) :=
    run_advance hcleared (harmless_advance (v := ⟨_, _, (designer 0 1).at (.dropSync true)⟩) nofun
      (calm 0)) rfl rfl
  exact run_advance hsynced (harmless_advance (v := ⟨_, _, (designer 0 1).at (.close true)⟩) nofun
    (calm 0)) rfl rfl

theorem body_visible_design :
    inspect (secondHeld designDropped) "design" = .ok (some (designer 1 2).body) := by
  have hrun : Run step Harmless unlocked (secondHeld designDropped) :=
    run_secondHeld run_designDropped (fun _ _ _ _ _ _ _ _ => harmless_of_ne nofun)
      (fun v hv env => harmless_advance hv env) rfl rfl rfl
  have hh : (secondHeld designDropped).handles 1 = some ((designer 1 2).at .held) := rfl
  have hvisible := body_visible unlocked_initial hrun hh rfl
  simpa only [Handle.at, designer, newHandle] using hvisible

/-- The first handle is dropped while the second holds the lock. -/
def designErased : World :=
  (secondHeld designReleased).store 0 ⟨some [], some 1, (designer 0 1).at (.dropSync true)⟩

/-- The drop of the released first handle takes the body of the second out of the file. -/
theorem body_erased : Run step (fun _ _ => True) unlocked designErased ∧
    designErased.handles 1 = some ((designer 1 2).at .held) ∧
    designErased.owner "design" = some 1 ∧ inspect designErased "design" = .ok none := by
  have hreleased : Run step (fun _ _ => True) unlocked designReleased :=
    run_designReleased (fun _ _ _ _ _ _ _ _ => trivial) (fun _ _ => trivial) fun _ _ _ => trivial
  have hheld := run_secondHeld hreleased (fun _ _ _ _ _ _ _ _ => trivial) (fun _ _ _ => trivial)
    rfl rfl rfl
  have herased : step (secondHeld designReleased) (.advance 0 (calm 0)) = some designErased := rfl
  refine ⟨hheld.step trivial herased, rfl, rfl, ?_⟩
  have hname : validatePhaseName "design" = true := by decide
  have hfile : designErased.file "design" = some [] := rfl
  simp only [inspect, hname, hfile, readLockBody_nil]
  rfl

end Design

end Loker.LockVisibility
