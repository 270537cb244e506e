import Loker.Summary
import Loker.UnorderedLists

/-! The times of a summary, as they are read from the marker directory in the order in which it is
listed. -/

namespace Loker.SummaryTimes

open FileTree TextOps RunFiles Summary UnorderedLists

/-- The time in a body that reads as a marker, in nanoseconds. -/
class TimedFormat (B : Type) extends SummaryFormat B where
  startedTime : B → ℤ
  completedTime : B → ℤ
  failedTime : B → ℤ

section Bodies

variable {B : Type} [TimedFormat B]

def startedAt (bytes : B) : Option ℤ :=
  (RunFormat.readStarted bytes).map fun _ => TimedFormat.startedTime bytes

def completedAt (bytes : B) : Option ℤ :=
  (SummaryFormat.readCompletedMarker bytes).map fun _ => TimedFormat.completedTime bytes

def failedAt (bytes : B) : Option ℤ :=
  (SummaryFormat.readFailedMarker bytes).map fun _ => TimedFormat.failedTime bytes

end Bodies

section Times

def earlier (x y : ℤ) : Bool := x < y

def later (x y : ℤ) : Bool := y < x

/-- Milliseconds towards zero, and none for a time that runs backwards. -/
def durationMs (start stop : ℤ) : ℕ := ((stop - start).tdiv 1000000).toNat

/-- What a marker file says about the run. -/
inductive Stamp where
  | started (time : ℤ)
  | terminal (time : ℤ)
  deriving DecidableEq, Repr

def Stamp.startTime : Stamp → Option ℤ
  | .started time => some time
  | .terminal _ => none

def Stamp.endTime : Stamp → Option ℤ
  | .started _ => none
  | .terminal time => some time

def starts (stamps : List Stamp) : List ℤ := stamps.filterMap Stamp.startTime

def ends (stamps : List Stamp) : List ℤ := stamps.filterMap Stamp.endTime

/-- A started marker counts only as long as nothing has been found. -/
def recordFinish (latest : Option ℤ) : Stamp → Option ℤ
  | .terminal time => improve later latest time
  | .started time => if latest.isNone then improve later latest time else latest

def recordEnds (found : Option ℤ × Option ℤ) : Stamp → Option ℤ × Option ℤ
  | .started time => (improve earlier found.1 time, found.2)
  | .terminal time => (found.1, improve later found.2 time)

lemma earlier_eq (x y : ℤ) : earlier x y = decide (-y < -x) := by
  rw [earlier, decide_eq_decide]
  omega

lemma earliest_iff {l : List ℤ} {m : ℤ} :
    bestOf earlier l = some m ↔ m ∈ l ∧ ∀ y ∈ l, m ≤ y := by
  rw [bestOf_eq_some_iff earlier_eq fun _ _ => Int.neg_inj.mp]
  apply and_congr_right
  intro _
  apply forall₂_congr
  intro y _
  omega

lemma latest_iff {l : List ℤ} {m : ℤ} :
    bestOf later l = some m ↔ m ∈ l ∧ ∀ y ∈ l, y ≤ m :=
  bestOf_eq_some_iff (f := id) (fun _ _ => rfl) Function.injective_id

lemma exists_latest {l : List ℤ} (hne : l ≠ []) : ∃ m, bestOf later l = some m :=
  exists_bestOf (f := id) (fun _ _ => rfl) hne

lemma earliest_perm {l l' : List ℤ} (h : l.Perm l') : bestOf earlier l = bestOf earlier l' :=
  bestOf_congr earlier_eq (fun _ _ => Int.neg_inj.mp) fun _ => h.mem_iff

lemma latest_perm {l l' : List ℤ} (h : l.Perm l') : bestOf later l = bestOf later l' :=
  bestOf_congr (f := id) (fun _ _ => rfl) Function.injective_id fun _ => h.mem_iff

lemma durationMs_mono {start stop stop' : ℤ} (h : stop ≤ stop') :
    durationMs start stop ≤ durationMs start stop' := by
  unfold durationMs
  have hdiff : stop - start ≤ stop' - start := by omega
  have hdiv := Int.tdiv_le_tdiv (by decide : (0 : ℤ) < 1000000) hdiff
  omega

lemma durationMs_of_lt {start stop : ℤ} (h : stop < start) : durationMs start stop = 0 := by
  unfold durationMs
  have hdiv := Int.tdiv_le_tdiv (by decide : (0 : ℤ) < 1000000) (by omega : stop - start ≤ 0)
  rw [Int.zero_tdiv] at hdiv
  omega

lemma recordFinish_some (stamps : List Stamp) (x : ℤ) :
    stamps.foldl recordFinish (some x) = (ends stamps).foldl (improve later) (some x) := by
  induction stamps generalizing x with
  | nil => rfl
  | cons stamp stamps ih =>
    cases stamp with
    | started time => exact ih x
    | terminal time =>
      have hstep : improve later (some x) time = some (if x < time then time else x) := by
        rw [improve, Option.all_some, later]
        by_cases hlt : x < time <;> simp [hlt]
      change stamps.foldl recordFinish (improve later (some x) time) =
        (ends stamps).foldl (improve later) (improve later (some x) time)
      rw [hstep]
      exact ih _

/-- A first started marker competes with the ends, the other started markers do not. -/
lemma finish_started (x : ℤ) (stamps : List Stamp) :
    (Stamp.started x :: stamps).foldl recordFinish none = bestOf later (x :: ends stamps) :=
  recordFinish_some stamps x

lemma finish_terminal (x : ℤ) (stamps : List Stamp) :
    (Stamp.terminal x :: stamps).foldl recordFinish none = bestOf later (x :: ends stamps) :=
  recordFinish_some stamps x

lemma recordEnds_eq (stamps : List Stamp) (first last : Option ℤ) :
    stamps.foldl recordEnds (first, last) =
      ((starts stamps).foldl (improve earlier) first,
        (ends stamps).foldl (improve later) last) := by
  induction stamps generalizing first last with
  | nil => rfl
  | cons stamp stamps ih =>
    cases stamp with
    | started time => exact ih _ _
    | terminal time => exact ih _ _

/-- What the documentation takes the finish from: the ends, or the starts if there is no end. -/
def finishing (stamps : List Stamp) : List ℤ :=
  if ends stamps = [] then starts stamps else ends stamps

/-- Without an end all starts are one time, with ends no start is later than all of them. -/
structure Covered (stamps : List Stamp) : Prop where
  unended : ends stamps = [] → ∀ x ∈ starts stamps, ∀ y ∈ starts stamps, x = y
  ended : ends stamps ≠ [] → ∀ x ∈ starts stamps, ∃ y ∈ ends stamps, x ≤ y

lemma Covered.finish_eq {stamps : List Stamp} (h : Covered stamps) :
    stamps.foldl recordFinish none = bestOf later (finishing stamps) := by
  cases stamps with
  | nil => rfl
  | cons stamp stamps =>
    cases stamp with
    | terminal x =>
      have hends : finishing (Stamp.terminal x :: stamps) = x :: ends stamps := rfl
      rw [finish_terminal, hends]
    | started x =>
      rw [finish_started]
      have hx : x ∈ starts (Stamp.started x :: stamps) := List.mem_cons_self
      have hends : ends (Stamp.started x :: stamps) = ends stamps := rfl
      by_cases hnone : ends stamps = []
      · rw [finishing, if_pos (hends.trans hnone), hnone]
        have hbest : bestOf later [x] = some x := rfl
        rw [hbest]
        symm
        apply latest_iff.mpr
        exact ⟨hx, fun y hy => le_of_eq (h.unended (hends.trans hnone) y hy x hx)⟩
      · rw [finishing, if_neg (fun hnil => hnone (hends.symm.trans hnil)), hends]
        obtain ⟨m, hm⟩ := exists_latest hnone
        rw [hm]
        obtain ⟨hmem, hmax⟩ := latest_iff.mp hm
        obtain ⟨y, hy, hle⟩ := h.ended (fun hnil => hnone (hends.symm.trans hnil)) x hx
        rw [hends] at hy
        apply latest_iff.mpr
        refine ⟨List.mem_cons_of_mem _ hmem, fun z hz => ?_⟩
        rcases List.mem_cons.mp hz with rfl | hz
        · exact hle.trans (hmax y hy)
        · exact hmax z hz

/-- Every end is taken into account. -/
lemma exists_finish {stamps : List Stamp} {x : ℤ} (h : x ∈ ends stamps) :
    ∃ m, stamps.foldl recordFinish none = some m ∧ x ≤ m := by
  cases stamps with
  | nil => cases h
  | cons stamp stamps =>
    cases stamp with
    | terminal y =>
      obtain ⟨m, hm⟩ := exists_latest (List.cons_ne_nil y (ends stamps))
      exact ⟨m, (finish_terminal y stamps).trans hm, (latest_iff.mp hm).2 x h⟩
    | started y =>
      obtain ⟨m, hm⟩ := exists_latest (List.cons_ne_nil y (ends stamps))
      exact ⟨m, (finish_started y stamps).trans hm,
        (latest_iff.mp hm).2 x (List.mem_cons_of_mem _ h)⟩

/-- The earliest start to the latest end. -/
def elapsedOf (stamps : List Stamp) : ℕ :=
  match (bestOf earlier (starts stamps), bestOf later (ends stamps)) with
  | (some start, some stop) => durationMs start stop
  | _ => 0

/-- A duration that counts all the ends, up to what is below a millisecond. -/
def Spanned (dur fin : List Stamp) : Prop :=
  ∀ start ∈ starts dur, (∀ y ∈ starts dur, start ≤ y) → ∀ x ∈ finishing fin,
    durationMs start x = 0 ∨ ∃ y ∈ ends dur, durationMs start x ≤ durationMs start y

lemma mem_finishing {dur fin : List Stamp} (hends : ∀ x ∈ ends dur, x ∈ ends fin) {x : ℤ}
    (hx : x ∈ ends dur) : x ∈ finishing fin := by
  rw [finishing, if_neg (List.ne_nil_of_mem (hends x hx))]
  exact hends x hx

lemma elapsed_iff {dur fin : List Stamp} (hends : ∀ x ∈ ends dur, x ∈ ends fin) :
    (∀ start finish, bestOf earlier (starts dur) = some start →
      bestOf later (finishing fin) = some finish → start ≤ finish →
      elapsedOf dur = durationMs start finish) ↔ Spanned dur fin := by
  constructor
  · intro h start hstart hfirst x hx
    have hearliest := earliest_iff.mpr ⟨hstart, hfirst⟩
    obtain ⟨finish, hlatest⟩ := exists_latest (List.ne_nil_of_mem hx)
    have hle : x ≤ finish := (latest_iff.mp hlatest).2 x hx
    by_cases hlt : finish < start
    · exact Or.inl (durationMs_of_lt (hle.trans_lt hlt))
    · have helapsed := h start finish hearliest hlatest (not_lt.mp hlt)
      have hmono : durationMs start x ≤ durationMs start finish := durationMs_mono hle
      rw [elapsedOf, hearliest] at helapsed
      cases hlast : bestOf later (ends dur) with
      | none =>
        rw [hlast] at helapsed
        have hzero : (0 : ℕ) = durationMs start finish := helapsed
        left
        omega
      | some last =>
        rw [hlast] at helapsed
        have hsame : durationMs start last = durationMs start finish := helapsed
        right
        refine ⟨last, (latest_iff.mp hlast).1, ?_⟩
        omega
  · intro h start finish hearliest hlatest _
    obtain ⟨hstart, hfirst⟩ := earliest_iff.mp hearliest
    obtain ⟨hfinish, hmax⟩ := latest_iff.mp hlatest
    rw [elapsedOf, hearliest]
    have hspan := h start hstart hfirst finish hfinish
    cases hlast : bestOf later (ends dur) with
    | none =>
      have hnil : ends dur = [] := by
        by_contra hne
        obtain ⟨m, hm⟩ := exists_latest hne
        rw [hlast] at hm
        cases hm
      rcases hspan with hzero | ⟨y, hy, _⟩
      · exact hzero.symm
      · rw [hnil] at hy
        cases hy
    | some last =>
      obtain ⟨hmem, hlargest⟩ := latest_iff.mp hlast
      have hle : durationMs start last ≤ durationMs start finish :=
        durationMs_mono (hmax last (mem_finishing hends hmem))
      change durationMs start last = durationMs start finish
      rcases hspan with hzero | ⟨y, hy, hspan⟩
      · omega
      · have hge : durationMs start y ≤ durationMs start last := durationMs_mono (hlargest y hy)
        omega

end Times

/-- A terminal marker: its phase, what it shows of it and when the phase ended. -/
structure Terminal where
  phase : String
  status : PhaseStatus
  attempts : ℕ
  finish : Option ℤ
  deriving DecidableEq, Repr

structure TimedPhase extends PhaseSummary where
  durationMs : ℕ
  deriving DecidableEq, Repr

section Listings

variable {B : Type} [TimedFormat B] (t : Disk B) (dir : Path)

/-- The phase and the time of a started marker, if it can be read. -/
def startedEntry (fileName : String) : Option (String × ℤ) := do
  let (phase, _) ← startedName fileName
  let bytes ← fileAt t (dir ++ [fileName])
  let time ← startedAt bytes
  pure (phase, time)

def terminalEntry (fileName : String) : Option Terminal :=
  (terminalName fileName).map fun x =>
    let bytes := fileAt t (dir ++ [fileName])
    ⟨x.1, x.2, attemptsOf x.2 bytes,
      bytes.bind fun b => if x.2 = .completed then completedAt b else failedAt b⟩

/-- From the earliest start of the phase to its end. -/
def phaseDuration (started : List (String × ℤ)) (phase : String) (finish : Option ℤ) : ℕ :=
  (finish.bind fun stop =>
    (bestOf earlier ((started.filter fun x => x.1 = phase).map Prod.snd)).map fun start =>
      durationMs start stop).getD 0

def timedPhase (started : List (String × ℤ)) (x : Terminal) : TimedPhase :=
  ⟨⟨x.phase, x.status, x.attempts⟩, phaseDuration started x.phase x.finish⟩

/-- The directory is listed twice, for the started markers and for the terminal ones. -/
def collectPhases (first second : List String) : List TimedPhase :=
  ((second.filterMap fun name =>
      (terminalEntry t dir name).map (timedPhase (first.filterMap (startedEntry t dir))))
    ).insertionSort fun a b => a.phase ≤ b.phase

def startStamp (fileName : String) : Option ℤ :=
  if contains fileName ".started." then (fileAt t (dir ++ [fileName])).bind startedAt else none

def getRunStartTime (names : List String) : Option ℤ :=
  bestOf earlier (names.filterMap (startStamp t dir))

/-- The ending of the name decides first. -/
def finishStamp (fileName : String) : Option Stamp := do
  let bytes ← fileAt t (dir ++ [fileName])
  if endsWith fileName ".completed" then (completedAt bytes).map .terminal
  else if endsWith fileName ".failed" then (failedAt bytes).map .terminal
  else if contains fileName ".started." then (startedAt bytes).map .started
  else none

def computeFinishedAt (names : List String) : Option ℤ :=
  (names.filterMap (finishStamp t dir)).foldl recordFinish none

/-- The started part of the name decides first. -/
def durationStamp (fileName : String) : Option Stamp := do
  let bytes ← fileAt t (dir ++ [fileName])
  if contains fileName ".started." then (startedAt bytes).map .started
  else if endsWith fileName ".completed" then (completedAt bytes).map .terminal
  else if endsWith fileName ".failed" then (failedAt bytes).map .terminal
  else none

def computeDurationMs (names : List String) : ℕ :=
  match (names.filterMap (durationStamp t dir)).foldl recordEnds (none, none) with
  | (some start, some stop) => durationMs start stop
  | _ => 0

end Listings

section Orders

variable {B : Type} [TimedFormat B] {t : Disk B} {dir : Path} {names names' : List String}

/-- An order in which the directory may be listed. -/
def Listing (t : Disk B) (dir : Path) (names : List String) : Prop := names.Perm (readDir t dir)

def finishStamps (t : Disk B) (dir : Path) : List Stamp :=
  (readDir t dir).filterMap (finishStamp t dir)

def durationStamps (t : Disk B) (dir : Path) : List Stamp :=
  (readDir t dir).filterMap (durationStamp t dir)

def startedEntries (t : Disk B) (dir : Path) : List (String × ℤ) :=
  (readDir t dir).filterMap (startedEntry t dir)

lemma startStamp_eq (name : String) :
    (durationStamp t dir name).bind Stamp.startTime = startStamp t dir name := by
  unfold durationStamp startStamp
  cases fileAt t (dir ++ [name]) with
  | none => cases contains name ".started." <;> rfl
  | some bytes =>
    change (if contains name ".started." then (startedAt bytes).map Stamp.started
      else if endsWith name ".completed" then (completedAt bytes).map Stamp.terminal
      else if endsWith name ".failed" then (failedAt bytes).map Stamp.terminal
      else none).bind Stamp.startTime =
        if contains name ".started." then startedAt bytes else none
    split
    · cases startedAt bytes <;> rfl
    · split
      · cases completedAt bytes <;> rfl
      · split
        · cases failedAt bytes <;> rfl
        · rfl

lemma startStamps_eq (names : List String) :
    names.filterMap (startStamp t dir) = starts (names.filterMap (durationStamp t dir)) := by
  rw [starts, List.filterMap_filterMap]
  exact congrArg (List.filterMap · names) (funext fun name => (startStamp_eq name).symm)

lemma getRunStartTime_eq (h : Listing t dir names) :
    getRunStartTime t dir names = bestOf earlier (starts (durationStamps t dir)) := by
  rw [getRunStartTime, startStamps_eq]
  exact earliest_perm ((h.filterMap _).filterMap _)

lemma computeDurationMs_eq (h : Listing t dir names) :
    computeDurationMs t dir names = elapsedOf (durationStamps t dir) := by
  have hstarts : bestOf earlier (starts (names.filterMap (durationStamp t dir))) =
      bestOf earlier (starts (durationStamps t dir)) := earliest_perm ((h.filterMap _).filterMap _)
  have hends : bestOf later (ends (names.filterMap (durationStamp t dir))) =
      bestOf later (ends (durationStamps t dir)) := latest_perm ((h.filterMap _).filterMap _)
  rw [computeDurationMs, recordEnds_eq, elapsedOf, ← hstarts, ← hends]
  rfl

lemma Covered.perm {stamps stamps' : List Stamp} (h : Covered stamps)
    (hperm : stamps'.Perm stamps) : Covered stamps' := by
  have hstarts : (starts stamps').Perm (starts stamps) := hperm.filterMap _
  have hends : (ends stamps').Perm (ends stamps) := hperm.filterMap _
  constructor
  · intro hnil x hx y hy
    rw [hnil] at hends
    exact h.unended hends.symm.eq_nil x (hstarts.mem_iff.mp hx) y (hstarts.mem_iff.mp hy)
  · intro hne x hx
    have hne' : ends stamps ≠ [] := fun hnil => hne (List.Perm.eq_nil (hnil ▸ hends))
    obtain ⟨y, hy, hle⟩ := h.ended hne' x (hstarts.mem_iff.mp hx)
    exact ⟨y, hends.mem_iff.mpr hy, hle⟩

lemma finishing_perm {stamps stamps' : List Stamp} (hperm : stamps'.Perm stamps) :
    (finishing stamps').Perm (finishing stamps) := by
  have hends : (ends stamps').Perm (ends stamps) := hperm.filterMap _
  unfold finishing
  by_cases hnil : ends stamps = []
  · rw [hnil] at hends
    rw [if_pos hends.eq_nil, if_pos hnil]
    exact hperm.filterMap _
  · have hnil' : ends stamps' ≠ [] := fun hnil' => hnil (List.Perm.eq_nil (hnil' ▸ hends.symm))
    rw [if_neg hnil', if_neg hnil]
    exact hends

lemma computeFinishedAt_eq (hcovered : Covered (finishStamps t dir)) (h : Listing t dir names) :
    computeFinishedAt t dir names = bestOf later (finishing (finishStamps t dir)) := by
  have hperm : (names.filterMap (finishStamp t dir)).Perm (finishStamps t dir) := h.filterMap _
  rw [computeFinishedAt, (hcovered.perm hperm).finish_eq]
  exact latest_perm (finishing_perm hperm)

omit [TimedFormat B] in
lemma exists_listing {name : String} (h : name ∈ readDir t dir) :
    ∃ rest, Listing t dir (name :: rest) := by
  obtain ⟨s, u, hsplit⟩ := List.append_of_mem h
  refine ⟨s ++ u, ?_⟩
  rw [Listing, hsplit]
  exact List.perm_middle.symm

/-- Any stamp may be met first. -/
lemma exists_finish_first {stamp : Stamp} (h : stamp ∈ finishStamps t dir) :
    ∃ names stamps, Listing t dir names ∧ (stamp :: stamps).Perm (finishStamps t dir) ∧
      computeFinishedAt t dir names = (stamp :: stamps).foldl recordFinish none := by
  obtain ⟨name, hname, hstamp⟩ := List.mem_filterMap.mp h
  obtain ⟨rest, hlisting⟩ := exists_listing hname
  have hstamps : (name :: rest).filterMap (finishStamp t dir) =
      stamp :: rest.filterMap (finishStamp t dir) := List.filterMap_cons_some hstamp
  refine ⟨name :: rest, rest.filterMap (finishStamp t dir), hlisting, ?_, ?_⟩
  · rw [← hstamps]
    exact hlisting.filterMap _
  · rw [computeFinishedAt, hstamps]

lemma mem_starts {stamps : List Stamp} {x : ℤ} : x ∈ starts stamps ↔ Stamp.started x ∈ stamps := by
  rw [starts, List.mem_filterMap]
  constructor
  · rintro ⟨stamp, hmem, hstamp⟩
    cases stamp with
    | started time =>
      obtain rfl := Option.some.inj hstamp
      exact hmem
    | terminal time => cases hstamp
  · exact fun h => ⟨_, h, rfl⟩

lemma mem_ends {stamps : List Stamp} {x : ℤ} : x ∈ ends stamps ↔ Stamp.terminal x ∈ stamps := by
  rw [ends, List.mem_filterMap]
  constructor
  · rintro ⟨stamp, hmem, hstamp⟩
    cases stamp with
    | started time => cases hstamp
    | terminal time =>
      obtain rfl := Option.some.inj hstamp
      exact hmem
  · exact fun h => ⟨_, h, rfl⟩

lemma covered_of_fixed (h : ∀ names names', Listing t dir names → Listing t dir names' →
    computeFinishedAt t dir names = computeFinishedAt t dir names') :
    Covered (finishStamps t dir) := by
  constructor
  · intro hnil x hx y hy
    obtain ⟨names, stamps, hlisting, hperm, hfinish⟩ := exists_finish_first (mem_starts.mp hx)
    obtain ⟨names', stamps', hlisting', hperm', hfinish'⟩ :=
      exists_finish_first (mem_starts.mp hy)
    have hends : ends stamps = [] := List.Perm.eq_nil (hnil ▸ hperm.filterMap Stamp.endTime)
    have hends' : ends stamps' = [] := List.Perm.eq_nil (hnil ▸ hperm'.filterMap Stamp.endTime)
    rw [finish_started, hends] at hfinish
    rw [finish_started, hends'] at hfinish'
    have hsame := h names names' hlisting hlisting'
    rw [hfinish, hfinish'] at hsame
    exact Option.some.inj hsame
  · intro hne x hx
    obtain ⟨z, hz⟩ := List.exists_mem_of_ne_nil _ hne
    obtain ⟨names, stamps, hlisting, hperm, hfinish⟩ := exists_finish_first (mem_starts.mp hx)
    obtain ⟨names', stamps', hlisting', hperm', hfinish'⟩ := exists_finish_first (mem_ends.mp hz)
    rw [finish_started] at hfinish
    rw [finish_terminal] at hfinish'
    have hsame := h names names' hlisting hlisting'
    obtain ⟨m, hm⟩ := exists_latest (List.cons_ne_nil x (ends stamps))
    have hm' : bestOf later (z :: ends stamps') = some m := by
      rw [← hfinish', ← hsame, hfinish, hm]
    have hends' : (z :: ends stamps').Perm (ends (finishStamps t dir)) :=
      hperm'.filterMap Stamp.endTime
    refine ⟨m, hends'.mem_iff.mp (latest_iff.mp hm').1, ?_⟩
    exact (latest_iff.mp hm).2 x List.mem_cons_self

lemma ends_subset {x : ℤ} (h : x ∈ ends (durationStamps t dir)) :
    x ∈ ends (finishStamps t dir) := by
  obtain ⟨name, hname, hstamp⟩ := List.mem_filterMap.mp (mem_ends.mp h)
  refine mem_ends.mpr (List.mem_filterMap.mpr ⟨name, hname, ?_⟩)
  unfold durationStamp at hstamp
  unfold finishStamp
  obtain ⟨bytes, hbytes, hstamp⟩ := Option.bind_eq_some_iff.mp hstamp
  refine Option.bind_eq_some_iff.mpr ⟨bytes, hbytes, ?_⟩
  split at hstamp
  · obtain ⟨time, _, hstarted⟩ := Option.map_eq_some_iff.mp hstamp
    cases hstarted
  next hstarted =>
  rw [if_neg hstarted]
  exact hstamp

lemma phaseDuration_perm {started started' : List (String × ℤ)} (h : started.Perm started')
    (phase : String) (finish : Option ℤ) :
    phaseDuration started phase finish = phaseDuration started' phase finish := by
  have hfirst : bestOf earlier ((started.filter fun x => x.1 = phase).map Prod.snd) =
      bestOf earlier ((started'.filter fun x => x.1 = phase).map Prod.snd) :=
    earliest_perm ((h.filter _).map _)
  rw [phaseDuration, phaseDuration, hfirst]

/-- The terminal markers of one phase show the same. -/
def Alike (t : Disk B) (dir : Path) : Prop :=
  ∀ name ∈ readDir t dir, ∀ name' ∈ readDir t dir, ∀ x y,
    terminalEntry t dir name = some x → terminalEntry t dir name' = some y → x.phase = y.phase →
    x.status = y.status ∧ x.attempts = y.attempts ∧
      phaseDuration (startedEntries t dir) x.phase x.finish =
        phaseDuration (startedEntries t dir) y.phase y.finish

lemma timedPhase_eq_iff {started : List (String × ℤ)} {x y : Terminal} :
    timedPhase started x = timedPhase started y ↔
      x.phase = y.phase ∧ x.status = y.status ∧ x.attempts = y.attempts ∧
        phaseDuration started x.phase x.finish = phaseDuration started y.phase y.finish := by
  unfold timedPhase
  rw [TimedPhase.mk.injEq, PhaseSummary.mk.injEq]
  tauto

lemma collectPhases_first {first second : List String} (h : Listing t dir first) :
    collectPhases t dir first second = collectPhases t dir (readDir t dir) second := by
  have hstarted : (first.filterMap (startedEntry t dir)).Perm (startedEntries t dir) :=
    h.filterMap _
  have hphase : timedPhase (first.filterMap (startedEntry t dir)) =
      timedPhase (startedEntries t dir) := by
    funext x
    rw [timedPhase, timedPhase, phaseDuration_perm hstarted]
  rw [collectPhases, hphase]
  rfl

lemma collectPhases_fixed_iff :
    (∀ first first' second second', Listing t dir first → Listing t dir first' →
      Listing t dir second → Listing t dir second' →
      collectPhases t dir first second = collectPhases t dir first' second') ↔ Alike t dir := by
  have hsorts := insertionSort_filterMap_perm_iff (fun x : TimedPhase => x.phase)
    (g := fun name => (terminalEntry t dir name).map (timedPhase (startedEntries t dir)))
    (l := readDir t dir)
  constructor
  · intro h name hname name' hname' x y hx hy hphase
    have hself : Listing t dir (readDir t dir) := List.Perm.refl _
    have hfixed := hsorts.mp (fun names hnames => h _ _ names _ hself hself hnames hself)
      name hname name' hname' (timedPhase (startedEntries t dir) x)
      (timedPhase (startedEntries t dir) y) (by rw [hx]; rfl) (by rw [hy]; rfl) hphase
    exact (timedPhase_eq_iff.mp hfixed).2
  · intro h first first' second second' hfirst hfirst' hsecond hsecond'
    have hfixed := hsorts.mpr (by
      intro name hname name' hname' a b ha hb hphase
      obtain ⟨x, hx, rfl⟩ := Option.map_eq_some_iff.mp ha
      obtain ⟨y, hy, rfl⟩ := Option.map_eq_some_iff.mp hb
      exact timedPhase_eq_iff.mpr ⟨hphase, h name hname name' hname' x y hx hy hphase⟩)
    rw [collectPhases_first hfirst, collectPhases_first hfirst']
    exact (hfixed second hsecond).trans (hfixed second' hsecond').symm

end Orders

section Fixed

variable {B : Type} [TimedFormat B]

/-- The times of the summary are those of the run, whatever the order of the directory. -/
structure TimesHold (t : Disk B) (dir : Path) : Prop where
  phases : ∀ first first' second second', Listing t dir first → Listing t dir first' →
    Listing t dir second → Listing t dir second' →
    collectPhases t dir first second = collectPhases t dir first' second'
  started : ∀ names names', Listing t dir names → Listing t dir names' →
    getRunStartTime t dir names = getRunStartTime t dir names'
  finished : ∀ names names', Listing t dir names → Listing t dir names' →
    computeFinishedAt t dir names = computeFinishedAt t dir names'
  duration : ∀ names names', Listing t dir names → Listing t dir names' →
    computeDurationMs t dir names = computeDurationMs t dir names'
  not_earlier : ∀ names name phase bytes time, Listing t dir names →
    terminalName name = some (phase, .completed) → fileAt t (dir ++ [name]) = some bytes →
    completedAt bytes = some time →
    ∃ finish, computeFinishedAt t dir names = some finish ∧ time ≤ finish
  elapsed : ∀ names names' names'' start finish, Listing t dir names → Listing t dir names' →
    Listing t dir names'' → getRunStartTime t dir names = some start →
    computeFinishedAt t dir names' = some finish → start ≤ finish →
    computeDurationMs t dir names'' = durationMs start finish

/-- What has to hold of the markers for that. -/
structure Unambiguous (t : Disk B) (dir : Path) : Prop where
  alike : Alike t dir
  covered : Covered (finishStamps t dir)
  spanned : Spanned (durationStamps t dir) (finishStamps t dir)

lemma completed_not_earlier {t : Disk B} {dir : Path} {names : List String} {name phase : String}
    {bytes : B} {time : ℤ} (h : Listing t dir names)
    (hname : terminalName name = some (phase, .completed))
    (hbytes : fileAt t (dir ++ [name]) = some bytes) (htime : completedAt bytes = some time) :
    ∃ finish, computeFinishedAt t dir names = some finish ∧ time ≤ finish := by
  have hending : endsWith name ".completed" = true := by
    unfold terminalName at hname
    split at hname
    · cases hname
    · split at hname
      · next hending => exact hending
      · split at hname
        · cases Option.some.inj hname
        · cases hname
  have hstamp : finishStamp t dir name = some (.terminal time) := by
    apply Option.bind_eq_some_iff.mpr
    refine ⟨bytes, hbytes, ?_⟩
    rw [if_pos hending, htime]
    rfl
  apply exists_finish
  apply mem_ends.mpr
  exact List.mem_filterMap.mpr ⟨name, h.mem_iff.mpr (mem_readDir_of_fileAt hbytes), hstamp⟩

/-- The times hold exactly if the markers are unambiguous. -/
theorem times_hold_iff (t : Disk B) (runDir : Path) :
    TimesHold t (markersDir runDir) ↔ Unambiguous t (markersDir runDir) := by
  have hself : Listing t (markersDir runDir) (readDir t (markersDir runDir)) := List.Perm.refl _
  constructor
  · intro h
    have hcovered := covered_of_fixed h.finished
    refine ⟨collectPhases_fixed_iff.mp h.phases, hcovered, ?_⟩
    apply (elapsed_iff fun _ => ends_subset).mp
    intro start finish hstart hfinish hle
    have helapsed := h.elapsed _ _ _ start finish hself hself hself
      ((getRunStartTime_eq hself).trans hstart)
      ((computeFinishedAt_eq hcovered hself).trans hfinish) hle
    rw [computeDurationMs_eq hself] at helapsed
    exact helapsed
  · intro h
    constructor
    · exact collectPhases_fixed_iff.mpr h.alike
    · intro names names' hnames hnames'
      rw [getRunStartTime_eq hnames, getRunStartTime_eq hnames']
    · intro names names' hnames hnames'
      rw [computeFinishedAt_eq h.covered hnames, computeFinishedAt_eq h.covered hnames']
    · intro names names' hnames hnames'
      rw [computeDurationMs_eq hnames, computeDurationMs_eq hnames']
    · intro names name phase bytes time hnames hname hbytes htime
      exact completed_not_earlier hnames hname hbytes htime
    · intro names names' names'' start finish hnames hnames' hnames'' hstart hfinish hle
      rw [getRunStartTime_eq hnames] at hstart
      rw [computeFinishedAt_eq h.covered hnames'] at hfinish
      rw [computeDurationMs_eq hnames'']
      exact (elapsed_iff fun _ => ends_subset).mpr h.spanned start finish hstart hfinish hle

omit [TimedFormat B] in
lemma readDir_of_not_isDir {t : Disk B} {dir : Path} (h : isDir t dir = false) :
    readDir t dir = [] := by
  apply List.eq_nil_iff_forall_not_mem.mpr
  intro name hname
  have hparent := isDir_iff.mpr (t.node_parent (mem_readDir.mp hname))
  rw [h] at hparent
  cases hparent

/-- Without their durations, the phases are those of the summary. -/
theorem collectPhases_toPhaseSummary (t : Disk B) (runDir : Path) (first : List String) :
    (collectPhases t (markersDir runDir) first (readDir t (markersDir runDir))).map
      TimedPhase.toPhaseSummary = Summary.collectPhases t runDir := by
  unfold collectPhases Summary.collectPhases
  rw [List.map_insertionSort (fun a b : TimedPhase => a.phase ≤ b.phase)
    (fun a b : PhaseSummary => a.phase ≤ b.phase) TimedPhase.toPhaseSummary _
    fun _ _ _ _ => Iff.rfl, List.map_filterMap]
  have hentry : (fun name => ((terminalEntry t (markersDir runDir) name).map (timedPhase
      (first.filterMap (startedEntry t (markersDir runDir))))).map TimedPhase.toPhaseSummary) =
      phaseSummary t (markersDir runDir) := by
    funext name
    unfold terminalEntry phaseSummary
    cases terminalName name <;> rfl
  rw [hentry]
  by_cases hdir : isDir t (markersDir runDir) = true
  · rw [if_pos hdir]
  · rw [if_neg hdir, readDir_of_not_isDir (Bool.eq_false_iff.mpr hdir)]
    rfl

end Fixed

section Samples

/-- Bodies with their time beside them. -/
instance {B : Type} [SummaryFormat B] : TimedFormat (B × ℤ) where
  sha256Hex b := RunFormat.sha256Hex b.1
  ofText s := (RunFormat.ofText s, 0)
  toText b := RunFormat.toText b.1
  toTextLossy b := RunFormat.toTextLossy b.1
  ofManifest m := (RunFormat.ofManifest m, 0)
  readManifest b := RunFormat.readManifest b.1
  ofStarted m := (RunFormat.ofStarted m, 0)
  readStarted b := RunFormat.readStarted b.1
  ofCompleted m := (RunFormat.ofCompleted m, 0)
  readCompleted b := RunFormat.readCompleted b.1
  readCompletedHash b := RunFormat.readCompletedHash b.1
  ofFailed m := (RunFormat.ofFailed m, 0)
  ofSummary s := (RunFormat.ofSummary s, 0)
  readHeartbeat b := RunFormat.readHeartbeat b.1
  readManifest_ofManifest m := RunFormat.readManifest_ofManifest m
  readStarted_ofStarted m := RunFormat.readStarted_ofStarted m
  readCompleted_ofCompleted m := RunFormat.readCompleted_ofCompleted m
  readCompletedHash_of_readCompleted h := RunFormat.readCompletedHash_of_readCompleted h
  readCompletedMarker b := SummaryFormat.readCompletedMarker b.1
  readFailedMarker b := SummaryFormat.readFailedMarker b.1
  readCompletedMarker_ofCompleted m := SummaryFormat.readCompletedMarker_ofCompleted m
  readFailedMarker_ofFailed m := SummaryFormat.readFailedMarker_ofFailed m
  startedTime := Prod.snd
  completedTime := Prod.snd
  failedTime := Prod.snd

def markersOf (files : List (String × Doc × ℤ)) : Disk (Doc × ℤ) :=
  files.foldl (fun t file => (writeFile t (markersDir ["run"] ++ [file.1]) file.2).getD t)
    ((createDirAll Disk.empty (markersDir ["run"])).getD Disk.empty)

/-- A run that is in its second attempt. -/
def secondAttempt : Disk (Doc × ℤ) := markersOf
  [("design.started.0", .started ⟨"design", 0⟩, 1000000),
    ("design.started.1", .started ⟨"design", 1⟩, 5000000)]

/-- A run that is in its second phase. -/
def secondPhase : Disk (Doc × ℤ) := markersOf
  [("design.started.0", .started ⟨"design", 0⟩, 1000000),
    ("design.completed", .completed ⟨"design", 0, "", []⟩, 3000000),
    ("review.started.0", .started ⟨"review", 0⟩, 4000000)]

/-- A phase that failed once and was then completed. -/
def recovered : Disk (Doc × ℤ) := markersOf
  [("design.started.0", .started ⟨"design", 0⟩, 1000000),
    ("design.failed", .failed ⟨"design", 3, "gate", ""⟩, 2000000),
    ("design.started.1", .started ⟨"design", 1⟩, 3000000),
    ("design.completed", .completed ⟨"design", 1, "", []⟩, 4000000)]

lemma listing_of_isPerm {t : Disk (Doc × ℤ)} {dir : Path} {names : List String}
    (h : names.isPerm (readDir t dir) = true) : Listing t dir names :=
  List.isPerm_iff.mp h

/-- The finish is the first start that is listed, or the start of a phase that has not ended;
the phases are listed failure first or completion first. -/
theorem times_depend_on_order :
    (computeFinishedAt secondAttempt (markersDir ["run"])
        ["design.started.0", "design.started.1"] = some 1000000 ∧
      computeFinishedAt secondAttempt (markersDir ["run"])
        ["design.started.1", "design.started.0"] = some 5000000 ∧
      ¬ TimesHold secondAttempt (markersDir ["run"])) ∧
    (computeFinishedAt secondPhase (markersDir ["run"])
        ["design.started.0", "design.completed", "review.started.0"] = some 3000000 ∧
      computeFinishedAt secondPhase (markersDir ["run"])
        ["review.started.0", "design.started.0", "design.completed"] = some 4000000 ∧
      ¬ TimesHold secondPhase (markersDir ["run"])) ∧
    ¬ TimesHold recovered (markersDir ["run"]) := by
  refine ⟨⟨by decide, by decide, fun h => ?_⟩,
    ⟨by decide, by decide, fun h => ?_⟩, fun h => ?_⟩
  · have hsame := h.finished ["design.started.0", "design.started.1"]
      ["design.started.1", "design.started.0"]
      (listing_of_isPerm (by decide)) (listing_of_isPerm (by decide))
    exact absurd hsame (by decide)
  · have hsame := h.finished ["design.started.0", "design.completed", "review.started.0"]
      ["review.started.0", "design.started.0", "design.completed"]
      (listing_of_isPerm (by decide)) (listing_of_isPerm (by decide))
    exact absurd hsame (by decide)
  · have hsame := h.phases (readDir recovered (markersDir ["run"]))
      (readDir recovered (markersDir ["run"]))
      ["design.started.0", "design.failed", "design.started.1", "design.completed"]
      ["design.started.0", "design.completed", "design.started.1", "design.failed"]
      (List.Perm.refl _) (List.Perm.refl _)
      (listing_of_isPerm (by decide)) (listing_of_isPerm (by decide))
    exact absurd hsame (by decide)

end Samples

end Loker.SummaryTimes
