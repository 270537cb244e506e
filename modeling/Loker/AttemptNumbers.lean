import Loker.CrashHistories

/-! The attempt numbers that a phase has used, and the number of the attempt that a resume starts. -/

namespace Loker.AttemptNumbers

open FileTree TextOps Programs RunFiles RunLoad LoadSpec RunOps Resume

variable {B : Type} [RunFormat B] {t t' : Disk B} {runDir : Path} {p : String} {n : ℕ}

section Scan

def attemptsDir (runDir : Path) (p : String) : Path := join (runDir ++ ["attempts"]) p

/-- The attempt that the file holds, when it is a started marker. -/
def attemptIn (t : Disk B) (runDir : Path) (name : String) : Option ℕ :=
  ((fileAt t (markersDir runDir ++ [name])).bind RunFormat.readStarted).map StartedMarker.attempt

def startedAttempts (t : Disk B) (runDir : Path) (p : String) : List ℕ :=
  ((readDir t (markersDir runDir)).filter (startsWith · (p ++ ".started."))).filterMap
    (attemptIn t runDir)

def dirAttempts (t : Disk B) (runDir : Path) (p : String) : List ℕ :=
  ((readDir t (attemptsDir runDir p)).filter fun name =>
    isDir t (attemptsDir runDir p ++ [name])).filterMap parseU32

omit [RunFormat B] in
lemma absent_or_dir {q : Path} (h : fileAt t q = none) :
    occupied t q = false ∧ readDir t q = [] ∨ isDir t q = true := by
  rcases fileAt_eq_none.mp h with hnone | hdir
  · exact Or.inl ⟨by simp [occupied, hnone], readDir_of_absent hnone⟩
  · exact Or.inr (isDir_iff.mpr hdir)

omit [RunFormat B] in
lemma occupied_of_isDir {q : Path} (h : isDir t q = true) : occupied t q = true := by
  simp [occupied, isDir_iff.mp h]

lemma nextAttemptFromMarkers_eq : nextAttemptFromMarkers t (markersDir runDir) p =
    if fileAt t (markersDir runDir) = none ∧ ∀ name ∈ (readDir t (markersDir runDir)).filter
        (startsWith · (p ++ ".started.")), (attemptIn t runDir name).isSome
      then some (nextOf (startedAttempts t runDir p)) else none := by
  unfold nextAttemptFromMarkers startedAttempts
  by_cases hfile : fileAt t (markersDir runDir) = none
  · rcases absent_or_dir hfile with ⟨habsent, hempty⟩ | hdir
    · rw [if_pos habsent, hempty, if_pos ⟨hfile, by simp⟩]
      rfl
    · rw [if_neg (by simp [occupied_of_isDir hdir]), if_neg (by simp [hdir])]
      show ((readDir t (markersDir runDir)).filter (startsWith · (p ++ ".started."))).mapM
        (attemptIn t runDir) >>= _ = _
      rw [mapM_option_eq]
      by_cases hall : ∀ name ∈ (readDir t (markersDir runDir)).filter
          (startsWith · (p ++ ".started.")), (attemptIn t runDir name).isSome
      · rw [if_pos hall, if_pos ⟨hfile, hall⟩]
        rfl
      · rw [if_neg hall, if_neg fun h => hall h.2]
        rfl
  · obtain ⟨b, hb⟩ := Option.ne_none_iff_exists'.mp hfile
    have hnode := fileAt_eq_some.mp hb
    rw [if_neg (by simp [occupied, hnode]), if_pos (by simp [isDir, hnode]), if_neg (by simp [hfile])]

omit [RunFormat B] in
lemma nextAttemptFromDirs_eq : nextAttemptFromDirs t (attemptsDir runDir p) =
    if fileAt t (attemptsDir runDir p) = none then some (nextOf (dirAttempts t runDir p))
      else none := by
  unfold nextAttemptFromDirs dirAttempts
  by_cases hfile : fileAt t (attemptsDir runDir p) = none
  · rcases absent_or_dir hfile with ⟨habsent, hempty⟩ | hdir
    · rw [if_pos habsent, hempty, if_pos hfile]
      rfl
    · rw [if_neg (by simp [occupied_of_isDir hdir]), if_neg (by simp [hdir]), if_pos hfile]
  · obtain ⟨b, hb⟩ := Option.ne_none_iff_exists'.mp hfile
    have hnode := fileAt_eq_some.mp hb
    rw [if_neg (by simp [occupied, hnode]), if_pos (by simp [isDir, hnode]), if_neg hfile]

/-- The scan for attempts meets no error. -/
structure Scannable (t : Disk B) (runDir : Path) (p : String) : Prop where
  markers : fileAt t (markersDir runDir) = none
  attempts : fileAt t (attemptsDir runDir p) = none
  readable : ∀ name, startsWith name (p ++ ".started.") = true →
    t.node (markersDir runDir ++ [name]) ≠ none → (attemptIn t runDir name).isSome

lemma scannable_iff : Scannable t runDir p ↔
    (fileAt t (markersDir runDir) = none ∧ ∀ name ∈ (readDir t (markersDir runDir)).filter
        (startsWith · (p ++ ".started.")), (attemptIn t runDir name).isSome) ∧
      fileAt t (attemptsDir runDir p) = none := by
  simp only [List.mem_filter, mem_readDir]
  constructor
  · rintro ⟨hmarkers, hattempts, hreadable⟩
    exact ⟨⟨hmarkers, fun name h => hreadable name h.2 h.1⟩, hattempts⟩
  · rintro ⟨⟨hmarkers, hreadable⟩, hattempts⟩
    exact ⟨hmarkers, hattempts, fun name hstart hnode => hreadable name ⟨hnode, hstart⟩⟩

/-- The next attempt of a phase from the numbers its markers and directories have. -/
lemma nextAttempt_eq_some : nextAttempt t runDir p = some n ↔
    Scannable t runDir p ∧
      n = max (nextOf (startedAttempts t runDir p)) (nextOf (dirAttempts t runDir p)) := by
  have hdirs : nextAttemptFromDirs t (join (runDir ++ ["attempts"]) p) =
      if fileAt t (attemptsDir runDir p) = none then some (nextOf (dirAttempts t runDir p))
        else none := nextAttemptFromDirs_eq
  unfold nextAttempt
  rw [nextAttemptFromMarkers_eq, hdirs, scannable_iff]
  split
  · next hmarkers =>
    split
    · next hattempts =>
      constructor
      · intro h
        exact ⟨⟨hmarkers, hattempts⟩, (Option.some.inj h).symm⟩
      · rintro ⟨_, rfl⟩
        rfl
    · next hattempts => exact ⟨nofun, fun h => absurd h.1.2 hattempts⟩
  · next hmarkers => exact ⟨nofun, fun h => absurd h.1.1 hmarkers⟩

lemma mem_startedAttempts {a : ℕ} : a ∈ startedAttempts t runDir p ↔
    ∃ name, startsWith name (p ++ ".started.") = true ∧ attemptIn t runDir name = some a := by
  unfold startedAttempts
  rw [List.mem_filterMap]
  constructor
  · rintro ⟨name, hmem, hname⟩
    exact ⟨name, (List.mem_filter.mp hmem).2, hname⟩
  · rintro ⟨name, hstart, hname⟩
    refine ⟨name, List.mem_filter.mpr ⟨?_, hstart⟩, hname⟩
    unfold attemptIn at hname
    obtain ⟨marker, hmarker, _⟩ := Option.map_eq_some_iff.mp hname
    obtain ⟨bytes, hfile, _⟩ := Option.bind_eq_some_iff.mp hmarker
    exact mem_readDir_of_fileAt hfile

omit [RunFormat B] in
lemma mem_dirAttempts {a : ℕ} : a ∈ dirAttempts t runDir p ↔
    ∃ name, isDir t (attemptsDir runDir p ++ [name]) = true ∧ parseU32 name = some a := by
  unfold dirAttempts
  rw [List.mem_filterMap]
  constructor
  · rintro ⟨name, hmem, hname⟩
    exact ⟨name, (List.mem_filter.mp hmem).2, hname⟩
  · rintro ⟨name, hdir, hname⟩
    exact ⟨name, List.mem_filter.mpr ⟨mem_readDir.mpr (by simp [isDir_iff.mp hdir]), hdir⟩, hname⟩

/-- Without overflow the number is one more than the largest. -/
lemma nextOf_spec {xs : List ℕ} (h : ∀ a ∈ xs, a + 1 < 2 ^ 32) :
    xs = [] ∧ nextOf xs = 0 ∨ ∃ a ∈ xs, nextOf xs = a + 1 ∧ ∀ b ∈ xs, b ≤ a := by
  cases hmax : xs.max? with
  | none => exact Or.inl ⟨List.max?_eq_none_iff.mp hmax, by simp only [nextOf, hmax]⟩
  | some a =>
      obtain ⟨hmem, hle⟩ := List.max?_eq_some_iff.mp hmax
      refine Or.inr ⟨a, hmem, ?_, hle⟩
      simp only [nextOf, hmax]
      exact Nat.mod_eq_of_lt (h a hmem)

lemma nextOf_congr {xs ys : List ℕ} (h : ∀ a, a ∈ xs ↔ a ∈ ys) : nextOf xs = nextOf ys := by
  have hmax : xs.max? = ys.max? := by
    ext a
    simp only [List.max?_eq_some_iff, h]
  simp only [nextOf, hmax]

end Scan

section Sound

/-- The attempt numbers that the scan takes into account. -/
def Counted (t : Disk B) (runDir : Path) (p : String) (a : ℕ) : Prop :=
  a ∈ startedAttempts t runDir p ∨ a ∈ dirAttempts t runDir p

/-- The attempt number in the file name of a started marker. -/
def Named (t : Disk B) (runDir : Path) (p : String) (a : ℕ) : Prop :=
  ∃ suffix, t.node (markersDir runDir ++ [p ++ ".started." ++ suffix]) ≠ none ∧
    parseU32 suffix = some a

/-- The attempt is a new one, and computing it has not overflowed. -/
structure Fresh (t : Disk B) (runDir : Path) (p : String) (n : ℕ) : Prop where
  positive : 1 ≤ n
  later : ∀ a, Counted t runDir p a ∨ Named t runDir p a → a < n
  in_range : ∀ a, Counted t runDir p a → a + 1 < 2 ^ 32

lemma nextAttempt_spec (h : nextAttempt t runDir p = some n)
    (hrange : ∀ a, Counted t runDir p a → a + 1 < 2 ^ 32) :
    (∀ a, ¬ Counted t runDir p a) ∧ n = 0 ∨
      ∃ a, Counted t runDir p a ∧ n = a + 1 ∧ ∀ b, Counted t runDir p b → b ≤ a := by
  obtain ⟨_, rfl⟩ := nextAttempt_eq_some.mp h
  have hstarted := nextOf_spec fun a ha => hrange a (Or.inl ha)
  have hdirs := nextOf_spec fun a ha => hrange a (Or.inr ha)
  rcases hstarted with ⟨hnone, hzero⟩ | ⟨a, ha, hnext, hmax⟩
  · rcases hdirs with ⟨hnone', hzero'⟩ | ⟨b, hb, hnext', hmax'⟩
    · exact Or.inl ⟨fun a h => by simp [Counted, hnone, hnone'] at h, by rw [hzero, hzero']; rfl⟩
    · refine Or.inr ⟨b, Or.inr hb, by rw [hzero, hnext']; omega, fun c hc => ?_⟩
      rcases hc with hc | hc
      · simp [hnone] at hc
      · exact hmax' c hc
  · rcases hdirs with ⟨hnone', hzero'⟩ | ⟨b, hb, hnext', hmax'⟩
    · refine Or.inr ⟨a, Or.inl ha, by rw [hnext, hzero']; omega, fun c hc => ?_⟩
      rcases hc with hc | hc
      · exact hmax c hc
      · simp [hnone'] at hc
    · have hboth : ∀ c, Counted t runDir p c → c ≤ max a b := by
        intro c hc
        rcases hc with hc | hc
        · exact (hmax c hc).trans (le_max_left a b)
        · exact (hmax' c hc).trans (le_max_right a b)
      refine Or.inr ⟨max a b, ?_, by rw [hnext, hnext']; omega, hboth⟩
      rcases le_total a b with hle | hle
      · exact Or.inr (by rwa [max_eq_right hle])
      · exact Or.inl (by rwa [max_eq_left hle])

lemma nextAttempt_of_planned {status : StatusMap}
    (h : planPhase t runDir status p = some (.resume n)) : nextAttempt t runDir p = some n := by
  unfold planPhase at h
  split at h
  · cases h
  · cases h
  · simpa using h
  · simpa using h
  · cases h

/-- The resumed attempt is a fresh one exactly when the scan sees some number, none of them the
last one, and the file names of the started markers have no larger one. -/
theorem resume_fresh_iff {status : StatusMap}
    (h : planPhase t runDir status p = some (.resume n)) :
    Fresh t runDir p n ↔ (∃ a, Counted t runDir p a) ∧
      (∀ a, Counted t runDir p a → a + 1 < 2 ^ 32) ∧
      ∀ a, Named t runDir p a → ∃ b, Counted t runDir p b ∧ a ≤ b := by
  have hnext := nextAttempt_of_planned h
  constructor
  · rintro ⟨hpositive, hlater, hrange⟩
    rcases nextAttempt_spec hnext hrange with ⟨_, hzero⟩ | ⟨a, ha, hn, _⟩
    · omega
    · refine ⟨⟨a, ha⟩, hrange, fun c hc => ⟨a, ha, ?_⟩⟩
      have hlt := hlater c (Or.inr hc)
      omega
  · rintro ⟨⟨a, ha⟩, hrange, hnamed⟩
    rcases nextAttempt_spec hnext hrange with ⟨hnone, _⟩ | ⟨m, _, hn, hmax⟩
    · exact absurd ha (hnone a)
    · refine ⟨by omega, fun c hc => ?_, hrange⟩
      rcases hc with hc | hc
      · have hle := hmax c hc
        omega
      · obtain ⟨b, hb, hle⟩ := hnamed c hc
        have hle' := hmax b hb
        omega

end Sound

section Bare

open CrashHistories

/-- A new run directory with one more file among the markers. -/
def withMarker (name : String) (bytes : Doc) : Disk Doc :=
  ((createDirAll newRun.disk (markersDir ["run"])).bind
    (writeFile · (markersDir ["run"] ++ [name]) bytes)).getD Disk.empty

theorem resume_fresh_iff_started :
    Fresh (withMarker "design.started.0" (.started ⟨"design", 0⟩)) ["run"] "design" 1 ↔
      (∃ a, Counted (withMarker "design.started.0" (.started ⟨"design", 0⟩)) ["run"] "design" a) ∧
      (∀ a, Counted (withMarker "design.started.0" (.started ⟨"design", 0⟩)) ["run"] "design" a →
        a + 1 < 2 ^ 32) ∧
      ∀ a, Named (withMarker "design.started.0" (.started ⟨"design", 0⟩)) ["run"] "design" a →
        ∃ b, Counted (withMarker "design.started.0" (.started ⟨"design", 0⟩)) ["run"] "design" b ∧
          a ≤ b :=
  resume_fresh_iff (show planPhase _ ["run"] [("design", .started)] "design" = _ by decide)

/-- A started marker without a number: the phase counts as started, and the plan resumes it at
attempt zero, so that the attempt to archive is the one before zero. -/
theorem bare_started_resumes_zero :
    load (withMarker "design.started" (.started ⟨"design", 0⟩)) ["run"] 0 60 =
        .ok ⟨"r1", [], [], [("design", .started)], none⟩ ∧
      planPhase (withMarker "design.started" (.started ⟨"design", 0⟩)) ["run"]
        [("design", .started)] "design" = some (.resume 0) ∧
      ¬ Fresh (withMarker "design.started" (.started ⟨"design", 0⟩)) ["run"] "design" 0 := by
  refine ⟨by decide, by decide, fun h => ?_⟩
  exact absurd h.positive (by decide)

end Bare

end Loker.AttemptNumbers
