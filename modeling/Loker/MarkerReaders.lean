import Loker.Resumability

/-! The three readers of a markers directory: the loader's scan, the scan of the run index and
the timeline of the detail page. -/

namespace Loker.MarkerReaders

open FileTree TextOps RunFiles RunLoad LoadSpec

variable {B : Type}

section Readers

/-- What a marker's file name says, as the user interface reads it. -/
def classify {α : Type} (found : String → String → ℕ → α) (unknown : α) (name : String) : α :=
  match stripSuffix name ".completed" with
  | some phase => found phase "completed" 3
  | none =>
      match stripSuffix name ".failed" with
      | some phase => found phase "failed" 2
      | none =>
          match stripSuffix name ".started" with
          | some phase => found phase "started" 1
          | none =>
              if contains name ".started." then
                let phase := beforeFirst name ".started."
                if phase ≠ "" then found phase "started" 1 else unknown
              else unknown

/-- `classify_marker` of the run index. -/
def discoveryClassifyMarker (name : String) : Option String × String × ℕ :=
  classify (fun phase status rank => (some phase, status, rank)) (none, "", 0) name

/-- `classify_marker` of the detail page. -/
def classifyMarker (name : String) : Option (String × String × ℕ) :=
  classify (fun phase status rank => some (phase, status, rank)) none name

/-- The rank and the status of each phase, each phase once. -/
abbrev RankMap := List (String × (ℕ × String))

/-- The entry of the phase, if need be a new one of rank zero, gives way to a higher rank. -/
def raise (map : RankMap) (phase status : String) (rank : ℕ) : RankMap :=
  let current := (map.lookup phase).getD (0, "")
  (phase, if current.1 < rank then (rank, status) else current) :: map.filter (·.1 ≠ phase)

/-- The map in the order of its keys. -/
def inOrder (map : RankMap) : RankMap := map.insertionSort (·.1 ≤ ·.1)

def scanEntry (map : RankMap) (name : String) : RankMap :=
  match discoveryClassifyMarker name with
  | (some phase, status, rank) => raise map phase status rank
  | (none, _, _) => map

/-- `scan_markers`: a directory that cannot be read has no markers. -/
def scanMarkers (t : Disk B) (dir : Path) : List (String × String) :=
  if isDir t dir then
    (inOrder ((readDir t dir).foldl scanEntry [])).map fun x => (x.1, x.2.2)
  else []

structure PhaseStep where
  name : String
  status : String
  startedAt : Option String
  completedAt : Option String
  deriving DecidableEq, Repr

def timelineEntry (map : RankMap) (name : String) : RankMap :=
  match classifyMarker name with
  | some (phase, status, rank) => raise map phase status rank
  | none => map

def buildPhaseTimeline (t : Disk B) (runDir : Path) : List PhaseStep :=
  let dir := markersDir runDir
  if isDir t dir then
    (inOrder ((readDir t dir).foldl timelineEntry [])).map fun x => ⟨x.1, x.2.2, none, none⟩
  else []

end Readers

section Agreement

/-- The status as the user interface shows it. -/
def statusName : PhaseStatus → String
  | .none => "none"
  | .started => "started"
  | .failed => "failed"
  | .completed => "completed"

variable [RunFormat B]

/-- The loader has a status for the phase. -/
def Loads (t : Disk B) (runDir : Path) (p : String) (s : PhaseStatus) : Prop :=
  ∃ scan, loadMarkers t runDir = .ok scan ∧ scan.phaseStatus.lookup p = some s

/-- The markers can be loaded, and the three readers have the same phases with the same statuses,
for each phase the highest of its markers. -/
structure ReadersAgree (t : Disk B) (runDir : Path) : Prop where
  loads : ∃ scan, loadMarkers t runDir = .ok scan
  index : ∀ p status, (p, status) ∈ scanMarkers t (markersDir runDir) ↔
    ∃ s, Loads t runDir p s ∧ statusName s = status
  timeline : ∀ p status, ⟨p, status, none, none⟩ ∈ buildPhaseTimeline t runDir ↔
    ∃ s, Loads t runDir p s ∧ statusName s = status
  highest : ∀ p s, Loads t runDir p s → ∀ name s', t.node (markersDir runDir ++ [name]) ≠ none →
    classifyMarker name = some (p, statusName s', statusRank s') → statusRank s' ≤ statusRank s

end Agreement

section Precedence

open Classical in
/-- The status of a phase with markers of these kinds. -/
noncomputable def topStatus (completed failed started : Prop) : Option PhaseStatus :=
  if completed then some .completed
  else if failed then some .failed
  else if started then some .started
  else none

lemma topStatus_eq_iff {completed failed started completed' failed' started' : Prop} :
    topStatus completed failed started = topStatus completed' failed' started' ↔
      (completed ↔ completed') ∧ (¬ completed → (failed ↔ failed')) ∧
        (¬ completed → ¬ failed → (started ↔ started')) := by
  unfold topStatus
  by_cases hc : completed <;> by_cases hc' : completed' <;> by_cases hf : failed <;>
    by_cases hf' : failed' <;> by_cases hs : started <;> by_cases hs' : started' <;>
    simp [hc, hc', hf, hf', hs, hs']

/-- The status is the highest one that is said, if any is. -/
structure Tops (holds : PhaseStatus → Prop) (found : Option PhaseStatus) : Prop where
  said : ∀ s, found = some s → holds s ∧ ∀ s', holds s' → statusRank s' ≤ statusRank s
  silent : found = none → ∀ s, ¬ holds s

lemma Tops.eq {holds : PhaseStatus → Prop} {found : Option PhaseStatus} (h : Tops holds found)
    (hnone : ¬ holds .none) :
    found = topStatus (holds .completed) (holds .failed) (holds .started) := by
  unfold topStatus
  cases found with
  | none => simp [h.silent rfl]
  | some s =>
      obtain ⟨hs, hmax⟩ := h.said s rfl
      cases s with
      | none => exact absurd hs hnone
      | completed => rw [if_pos hs]
      | failed =>
          have hcompleted : ¬ holds .completed := fun h' => absurd (hmax _ h') (by decide)
          rw [if_neg hcompleted, if_pos hs]
      | started =>
          have hcompleted : ¬ holds .completed := fun h' => absurd (hmax _ h') (by decide)
          have hfailed : ¬ holds .failed := fun h' => absurd (hmax _ h') (by decide)
          rw [if_neg hcompleted, if_neg hfailed, if_pos hs]

end Precedence

section Shown

variable {t : Disk B} {dir : Path} {p : String} {s : PhaseStatus} {map : RankMap}
  {statuses : StatusMap}

/-- The phase and the status that the user interface takes from a name. -/
def markerStatus (name : String) : Option (String × PhaseStatus) :=
  match stripSuffix name ".completed" with
  | some phase => some (phase, .completed)
  | none =>
      match stripSuffix name ".failed" with
      | some phase => some (phase, .failed)
      | none =>
          match stripSuffix name ".started" with
          | some phase => some (phase, .started)
          | none =>
              if contains name ".started." ∧ beforeFirst name ".started." ≠ "" then
                some (beforeFirst name ".started.", .started)
              else none

lemma classify_eq {α : Type} (found : String → String → ℕ → α) (unknown : α) (name : String) :
    classify found unknown name =
      match markerStatus name with
      | some (phase, s) => found phase (statusName s) (statusRank s)
      | none => unknown := by
  unfold classify markerStatus
  cases stripSuffix name ".completed" with
  | some phase => rfl
  | none =>
      cases stripSuffix name ".failed" with
      | some phase => rfl
      | none =>
          cases stripSuffix name ".started" with
          | some phase => rfl
          | none =>
              by_cases hfound : contains name ".started." = true
              · by_cases hempty : beforeFirst name ".started." = "" <;>
                  simp [hfound, hempty, statusName, statusRank]
              · simp [hfound]

lemma markerStatus_ne_none {name : String} : markerStatus name ≠ some (p, .none) := by
  unfold markerStatus
  split
  · simp
  split
  · simp
  split
  · simp
  split <;> simp

/-- Both readers of the user interface take a file name for the same. -/
lemma scanEntry_eq : scanEntry = timelineEntry := by
  funext map name
  unfold scanEntry timelineEntry discoveryClassifyMarker classifyMarker
  rw [classify_eq, classify_eq]
  cases markerStatus name <;> rfl

/-- The ranked map has the same phases as the status map, with the rank and the name of each
status. -/
def Encodes (map : RankMap) (statuses : StatusMap) : Prop :=
  ∀ p, map.lookup p = (statuses.lookup p).map fun s => (statusRank s, statusName s)

lemma lookup_raise {status q : String} {rank : ℕ} :
    (raise map p status rank).lookup q =
      if q = p then
        some (if ((map.lookup p).getD (0, "")).1 < rank then (rank, status)
          else (map.lookup p).getD (0, ""))
      else map.lookup q := by
  unfold raise
  by_cases hq : q = p
  · simp [hq]
  · rw [lookup_cons_ne hq, lookup_filter_ne hq, if_neg hq]

lemma Encodes.raise (h : Encodes map statuses) (hs : s ≠ .none) :
    Encodes (raise map p (statusName s) (statusRank s)) (updatePhaseStatus statuses p s) := by
  intro q
  rw [lookup_raise, lookup_updatePhaseStatus, h p]
  by_cases hq : q = p
  · subst hq
    cases hcurrent : statuses.lookup q with
    | none =>
        have hpos : 0 < statusRank s := by
          cases s <;> simp_all [statusRank]
        simp [better, hpos]
    | some current =>
        by_cases hlt : statusRank current < statusRank s <;> simp [better, hlt]
  · rw [if_neg hq, if_neg hq, h q]

lemma timelineEntry_eq (name : String) :
    timelineEntry map name =
      match markerStatus name with
      | some (phase, s) => MarkerReaders.raise map phase (statusName s) (statusRank s)
      | none => map := by
  unfold timelineEntry classifyMarker
  rw [classify_eq]
  cases markerStatus name <;> rfl

lemma Encodes.fold (names : List String) (h : Encodes map statuses) :
    Encodes (names.foldl timelineEntry map) (addAll statuses (names.filterMap markerStatus)) := by
  induction names generalizing map statuses with
  | nil => exact h
  | cons name names ih =>
      rw [List.foldl_cons, timelineEntry_eq]
      cases hstatus : markerStatus name with
      | none =>
          rw [List.filterMap_cons_none hstatus]
          exact ih h
      | some x =>
          obtain ⟨phase, s⟩ := x
          rw [List.filterMap_cons_some hstatus]
          refine ih (h.raise ?_)
          rintro rfl
          exact markerStatus_ne_none hstatus

lemma fold_nodup (names : List String) (h : (map.map Prod.fst).Nodup) :
    ((names.foldl timelineEntry map).map Prod.fst).Nodup := by
  induction names generalizing map with
  | nil => exact h
  | cons name names ih =>
      rw [List.foldl_cons, timelineEntry_eq]
      split
      · refine ih ?_
        rw [MarkerReaders.raise, List.map_cons, List.nodup_cons]
        refine ⟨?_, (List.filter_sublist.map _).nodup h⟩
        simp
      · exact ih h

lemma mem_iff_lookup {x : String × (ℕ × String)} (h : (map.map Prod.fst).Nodup) :
    x ∈ inOrder map ↔ map.lookup x.1 = some x.2 := by
  rw [inOrder, (List.perm_insertionSort _ map).mem_iff]
  induction map with
  | nil => simp
  | cons y map ih =>
      rw [List.map_cons, List.nodup_cons] at h
      by_cases hkey : x.1 = y.1
      · have hlookup : List.lookup x.1 (y :: map) = some y.2 := by
          rw [hkey]
          simp [List.lookup]
        rw [hlookup, Option.some.injEq]
        constructor
        · intro hmem
          rcases List.mem_cons.mp hmem with rfl | hmem
          · rfl
          · exact absurd (hkey ▸ List.mem_map_of_mem hmem) h.1
        · intro heq
          rw [List.mem_cons]
          exact Or.inl (Prod.ext hkey heq.symm)
      · have hlookup : List.lookup x.1 (y :: map) = List.lookup x.1 map :=
          lookup_cons_ne (p := y.1) (s := y.2) hkey
        rw [hlookup, ← ih h.2, List.mem_cons]
        refine or_iff_right ?_
        rintro rfl
        exact hkey rfl

/-- The statuses that the user interface shows. -/
def shown (t : Disk B) (dir : Path) : StatusMap :=
  addAll [] ((readDir t dir).filterMap markerStatus)

lemma readDir_of_not_dir (h : ¬ isDir t dir = true) : readDir t dir = [] := by
  rw [List.eq_nil_iff_forall_not_mem]
  intro name hname
  exact h (isDir_iff.mpr (t.node_parent (mem_readDir.mp hname)))

lemma mem_fold_iff {status : String} :
    (∃ rank, (p, (rank, status)) ∈ inOrder ((readDir t dir).foldl timelineEntry [])) ↔
      ∃ s, (shown t dir).lookup p = some s ∧ statusName s = status := by
  have hencodes : Encodes ((readDir t dir).foldl timelineEntry []) (shown t dir) :=
    Encodes.fold (readDir t dir) fun _ => rfl
  have hnodup : (((readDir t dir).foldl timelineEntry []).map Prod.fst).Nodup :=
    fold_nodup (readDir t dir) List.nodup_nil
  simp only [mem_iff_lookup hnodup, hencodes p, Option.map_eq_some_iff, Prod.mk.injEq]
  constructor
  · rintro ⟨rank, s, hs, -, hname⟩
    exact ⟨s, hs, hname⟩
  · rintro ⟨s, hs, hname⟩
    exact ⟨statusRank s, s, hs, rfl, hname⟩

lemma mem_scanMarkers {status : String} :
    (p, status) ∈ scanMarkers t dir ↔
      ∃ s, (shown t dir).lookup p = some s ∧ statusName s = status := by
  unfold scanMarkers
  split
  · rw [← mem_fold_iff, List.mem_map, scanEntry_eq]
    constructor
    · rintro ⟨⟨q, rank, status'⟩, hmem, heq⟩
      obtain ⟨rfl, rfl⟩ := Prod.mk.inj heq
      exact ⟨rank, hmem⟩
    · rintro ⟨rank, hmem⟩
      exact ⟨_, hmem, rfl⟩
  · next hdir => simp [shown, readDir_of_not_dir hdir, addAll]

lemma mem_timeline {runDir : Path} {status : String} :
    ⟨p, status, none, none⟩ ∈ buildPhaseTimeline t runDir ↔
      ∃ s, (shown t (markersDir runDir)).lookup p = some s ∧ statusName s = status := by
  unfold buildPhaseTimeline
  dsimp only
  split
  · rw [← mem_fold_iff, List.mem_map]
    constructor
    · rintro ⟨⟨q, rank, status'⟩, hmem, heq⟩
      obtain ⟨rfl, rfl, -, -⟩ := PhaseStep.mk.inj heq
      exact ⟨rank, hmem⟩
    · rintro ⟨rank, hmem⟩
      exact ⟨_, hmem, rfl⟩
  · next hdir => simp [shown, readDir_of_not_dir hdir, addAll]

end Shown

section Names

/-- The name has none of the three endings. -/
def Unsuffixed (name : String) : Prop :=
  endsWith name ".completed" = false ∧ endsWith name ".failed" = false ∧
    endsWith name ".started" = false

/-- A started marker's name with an attempt, or with whatever stands for one. -/
structure AttemptName (p name : String) : Prop where
  unsuffixed : Unsuffixed name
  found : contains name ".started." = true
  before : beforeFirst name ".started." = p

/-- The names that the user interface takes for started markers of the phase. -/
def ShownStarted (p name : String) : Prop :=
  name = p ++ ".started" ∨ p ≠ "" ∧ AttemptName p name

/-- The names that the loader takes for them: the phase may be empty, and a name with `.started`
somewhere else is a phase of its own. -/
def LoadedStarted (p name : String) : Prop :=
  name = p ++ ".started" ∨ AttemptName p name ∨
    name = p ∧ Unsuffixed name ∧ contains name ".started" = true ∧
      contains name ".started." = false

lemma stripSuffix_eq_some {name suffix p : String} :
    stripSuffix name suffix = some p ↔ name = p ++ suffix := by
  constructor
  · intro h
    have hends : endsWith name suffix = true := by
      by_contra hnot
      rw [stripSuffix, if_neg hnot] at h
      cases h
    obtain ⟨q, rfl⟩ := endsWith_iff.mp hends
    rw [stripSuffix_append] at h
    rw [Option.some.inj h]
  · rintro rfl
    exact stripSuffix_append p suffix

lemma stripSuffix_eq_none {name suffix : String} :
    stripSuffix name suffix = none ↔ endsWith name suffix = false := by
  unfold stripSuffix
  split <;> simp_all

lemma not_endsWith_of {s : String} (p : String) {a : String} (hs : endsWith a s = false)
    (hlen : s.toList.length ≤ a.toList.length) : endsWith (p ++ a) s = false := by
  by_contra h
  rw [Bool.not_eq_false] at h
  have hends := RunLayout.endsWith_suffix h (endsWith_append p a) hlen
  rw [hs] at hends
  cases hends

lemma not_completed_started (p : String) : endsWith (p ++ ".started") ".completed" = false := by
  by_contra h
  rw [Bool.not_eq_false] at h
  have hends := RunLayout.endsWith_suffix (endsWith_append p ".started") h (by decide)
  exact absurd hends (by decide)

lemma not_failed_started (p : String) : endsWith (p ++ ".started") ".failed" = false :=
  not_endsWith_of p (by decide) (by decide)

lemma contains_started {name : String} (h : contains name ".started." = true) :
    contains name ".started" = true := by
  rw [contains, decide_eq_true_eq] at h ⊢
  exact List.IsInfix.trans ⟨[], ['.'], by decide⟩ h

/-- Without the pattern nothing is cut off. -/
lemma takeBefore_of_not_infix {pat cs : List Char} (h : ¬ pat <:+: cs) :
    takeBefore pat cs = cs := by
  induction cs with
  | nil => rfl
  | cons c cs ih =>
      have hfirst : ¬ pat.isPrefixOf (c :: cs) = true := fun hpre =>
        h (List.isPrefixOf_iff_prefix.mp hpre).isInfix
      have hrest : ¬ pat <:+: cs := fun hrest => h (hrest.trans (List.suffix_cons c cs).isInfix)
      rw [takeBefore, if_neg hfirst, ih hrest]

lemma beforeFirst_of_not_contains {s pat : String} (h : contains s pat = false) :
    beforeFirst s pat = s := by
  rw [contains, decide_eq_false_iff_not] at h
  rw [beforeFirst, takeBefore_of_not_infix h, String.ofList_toList]

variable {t : Disk B} {dir : Path} {p name : String} {s : PhaseStatus}

lemma markerStatus_completed :
    markerStatus name = some (p, .completed) ↔ name = p ++ ".completed" := by
  rw [← stripSuffix_eq_some]
  unfold markerStatus
  cases stripSuffix name ".completed" with
  | some phase => simp
  | none =>
      simp only [reduceCtorEq, iff_false]
      split
      · simp
      split
      · simp
      split <;> simp

lemma markerStatus_failed : markerStatus name = some (p, .failed) ↔ name = p ++ ".failed" := by
  constructor
  · intro h
    rw [← stripSuffix_eq_some]
    unfold markerStatus at h
    split at h
    · simp at h
    split at h
    · next heq =>
      rw [heq]
      simpa using h
    split at h
    · simp at h
    split at h <;> simp at h
  · rintro rfl
    have hcompleted := stripSuffix_eq_none.mpr (RunLayout.not_completed_failed p)
    simp [markerStatus, hcompleted]

lemma markerStatus_started : markerStatus name = some (p, .started) ↔ ShownStarted p name := by
  constructor
  · intro h
    unfold markerStatus at h
    split at h
    · simp at h
    next hcompleted =>
    split at h
    · simp at h
    next hfailed =>
    split at h
    · next hstarted =>
      obtain rfl : _ = p := by simpa using h
      exact Or.inl (stripSuffix_eq_some.mp hstarted)
    next hstarted =>
    rw [stripSuffix_eq_none] at hcompleted hfailed hstarted
    split at h
    · next hfound =>
      obtain rfl : _ = p := by simpa using h
      exact Or.inr ⟨hfound.2, ⟨hcompleted, hfailed, hstarted⟩, hfound.1, rfl⟩
    · cases h
  · rintro (rfl | ⟨hne, ⟨hcompleted, hfailed, hstarted⟩, hfound, rfl⟩)
    · have hcompleted := stripSuffix_eq_none.mpr (not_completed_started p)
      have hfailed := stripSuffix_eq_none.mpr (not_failed_started p)
      simp [markerStatus, hcompleted, hfailed]
    · rw [← stripSuffix_eq_none] at hcompleted hfailed hstarted
      simp [markerStatus, hcompleted, hfailed, hstarted, hfound, hne]

lemma markerPhase_unsuffixed (h : Unsuffixed name) :
    markerPhase name = beforeFirst name ".started." := by
  obtain ⟨hcompleted, hfailed, hstarted⟩ := h
  rw [← stripSuffix_eq_none] at hcompleted hfailed hstarted
  simp [markerPhase, hcompleted, hfailed, hstarted]

lemma markerPhase_started (p : String) : markerPhase (p ++ ".started") = p := by
  have hcompleted := stripSuffix_eq_none.mpr (not_completed_started p)
  have hfailed := stripSuffix_eq_none.mpr (not_failed_started p)
  simp [markerPhase, hcompleted, hfailed]

/-- What the loader takes for a started marker. -/
lemma loadedStarted_iff : LoadedStarted p name ↔ endsWith name ".completed" = false ∧
    endsWith name ".failed" = false ∧ contains name ".started" = true ∧ markerPhase name = p := by
  constructor
  · rintro (rfl | ⟨hplain, hfound, rfl⟩ | ⟨rfl, hplain, hstarted, hnot⟩)
    · refine ⟨not_completed_started p, not_failed_started p, ?_, markerPhase_started p⟩
      rw [contains, decide_eq_true_eq, String.toList_append]
      exact (List.suffix_append _ _).isInfix
    · exact ⟨hplain.1, hplain.2.1, contains_started hfound, markerPhase_unsuffixed hplain⟩
    · refine ⟨hplain.1, hplain.2.1, hstarted, ?_⟩
      rw [markerPhase_unsuffixed hplain, beforeFirst_of_not_contains hnot]
  · rintro ⟨hcompleted, hfailed, hcontains, rfl⟩
    by_cases hstarted : endsWith name ".started" = true
    · obtain ⟨q, rfl⟩ := endsWith_iff.mp hstarted
      exact Or.inl (by rw [markerPhase_started])
    · rw [Bool.not_eq_true] at hstarted
      have hplain : Unsuffixed name := ⟨hcompleted, hfailed, hstarted⟩
      have hphase := markerPhase_unsuffixed hplain
      by_cases hfound : contains name ".started." = true
      · exact Or.inr (Or.inl ⟨hplain, hfound, hphase.symm⟩)
      · rw [Bool.not_eq_true] at hfound
        refine Or.inr (Or.inr ⟨?_, hplain, hcontains, hfound⟩)
        rw [hphase, beforeFirst_of_not_contains hfound]

variable [RunFormat B]

lemma statusOf_started_iff : statusOf t dir name = some (p, .started) ↔
    (fileAt t (dir ++ [name])).isSome ∧ LoadedStarted p name := by
  rw [loadedStarted_iff]
  unfold statusOf
  cases fileAt t (dir ++ [name]) with
  | none => simp
  | some bytes =>
      by_cases hc : endsWith name ".completed" = true
      · simp [hc]
      · by_cases hf : endsWith name ".failed" = true
        · simp [hc, hf]
        · by_cases hs : contains name ".started" = true <;> simp [hc, hf, hs]

lemma exists_statusOf_completed :
    (∃ name, statusOf t dir name = some (p, .completed)) ↔ CompletedOnDisk t dir p := by
  constructor
  · rintro ⟨name, h⟩
    obtain ⟨rfl, -⟩ := Resumability.statusOf_completed h
    unfold statusOf at h
    obtain ⟨bytes, hfile, hread⟩ := Option.bind_eq_some_iff.mp h
    rw [if_pos (endsWith_append p ".completed")] at hread
    obtain ⟨fields, hfields, -⟩ := Option.map_eq_some_iff.mp hread
    exact ⟨bytes, fields, hfile, hfields⟩
  · rintro ⟨bytes, fields, hfile, hread⟩
    exact ⟨p ++ ".completed", by simp [statusOf, hfile, hread, markerPhase_completed]⟩

lemma exists_statusOf_failed : (∃ name, statusOf t dir name = some (p, .failed)) ↔
    (fileAt t (dir ++ [p ++ ".failed"])).isSome := by
  constructor
  · rintro ⟨name, h⟩
    have hphase := statusOf_phase h
    unfold statusOf at h
    obtain ⟨bytes, hfile, hread⟩ := Option.bind_eq_some_iff.mp h
    split at hread
    · simp at hread
    split at hread
    · next hends =>
      obtain ⟨q, rfl⟩ := endsWith_iff.mp hends
      rw [Resumability.markerPhase_failed] at hphase
      rw [← hphase, hfile]
      rfl
    split at hread <;> simp at hread
  · intro h
    exact ⟨_, Resumability.statusOf_failed h⟩

lemma statusOf_ne_none : statusOf t dir name ≠ some (p, .none) := by
  unfold statusOf
  cases fileAt t (dir ++ [name]) with
  | none => simp
  | some bytes =>
      rw [Option.bind_some]
      split
      · simp
      split
      · simp
      split <;> simp

end Names

section Agreement

variable {t : Disk B} {dir runDir : Path} {p : String} {s : PhaseStatus}

/-- An entry of the directory, of any type. -/
def Entry (t : Disk B) (dir : Path) (name : String) : Prop := t.node (dir ++ [name]) ≠ none

lemma shown_eq_top : (shown t dir).lookup p = topStatus (Entry t dir (p ++ ".completed"))
    (Entry t dir (p ++ ".failed")) (∃ name, Entry t dir name ∧ ShownStarted p name) := by
  have htops : Tops (fun s => ∃ name, Entry t dir name ∧ markerStatus name = some (p, s))
      ((shown t dir).lookup p) := by
    have hmem : ∀ s, (p, s) ∈ (readDir t dir).filterMap markerStatus ↔
        ∃ name, Entry t dir name ∧ markerStatus name = some (p, s) := by
      intro s
      simp only [List.mem_filterMap, mem_readDir, Entry]
    constructor
    · intro s hs
      obtain ⟨hfrom, hmax, -⟩ := lookup_addAll_eq_some hs
      refine ⟨(hmem s).mp (hfrom.resolve_right (by simp)), fun s' hs' => ?_⟩
      exact hmax s' ((hmem s').mpr hs')
    · intro hnone s hs
      exact (lookup_addAll_eq_none.mp hnone).2 s ((hmem s).mpr hs)
  have heq := htops.eq fun ⟨name, _, h⟩ => markerStatus_ne_none h
  simpa only [markerStatus_completed, markerStatus_failed, markerStatus_started,
    exists_eq_right] using heq

variable [RunFormat B]

lemma scanOf_eq_top : (scanOf t dir).phaseStatus.lookup p = topStatus (CompletedOnDisk t dir p)
    ((fileAt t (dir ++ [p ++ ".failed"])).isSome = true)
    (∃ name, (fileAt t (dir ++ [name])).isSome = true ∧ LoadedStarted p name) := by
  have htops : Tops (fun s => ∃ name, statusOf t dir name = some (p, s))
      ((scanOf t dir).phaseStatus.lookup p) := by
    constructor
    · intro s hs
      obtain ⟨hfrom, hmax⟩ := scanOf_status_eq_some hs
      exact ⟨hfrom, fun s' ⟨name, h⟩ => hmax name s' h⟩
    · intro hnone s ⟨name, h⟩
      exact scanOf_status_eq_none.mp hnone name s h
  have heq := htops.eq fun ⟨name, h⟩ => statusOf_ne_none h
  rwa [propext exists_statusOf_completed, propext exists_statusOf_failed,
    propext (exists_congr fun name => statusOf_started_iff)] at heq

lemma loads_iff : Loads t runDir p s ↔ fileAt t (markersDir runDir) = none ∧
    (scanOf t (markersDir runDir)).phaseStatus.lookup p = some s := by
  constructor
  · rintro ⟨scan, hload, hlookup⟩
    cases hfile : fileAt t (markersDir runDir) with
    | some b =>
        rw [loadMarkers_of_file hfile] at hload
        cases hload
    | none =>
        rw [loadMarkers_eq hfile] at hload
        cases hload
        exact ⟨rfl, hlookup⟩
  · rintro ⟨hfile, hlookup⟩
    exact ⟨_, loadMarkers_eq hfile, hlookup⟩

lemma statusName_injective : Function.Injective statusName := by
  intro s s' h
  cases s <;> cases s' <;> first | rfl | exact absurd h (by decide)

/-- Two lookups with the same shown statuses are the same. -/
lemma lookup_eq_of_names {found found' : Option PhaseStatus}
    (h : ∀ status, (∃ s, found = some s ∧ statusName s = status) ↔
      ∃ s, found' = some s ∧ statusName s = status) : found = found' := by
  cases found with
  | some s =>
      obtain ⟨s', hs', hname⟩ := (h (statusName s)).mp ⟨s, rfl, rfl⟩
      rw [hs', statusName_injective hname]
  | none =>
      cases found' with
      | none => rfl
      | some s' =>
          obtain ⟨s, hs, -⟩ := (h (statusName s')).mpr ⟨s', rfl, rfl⟩
          cases hs

omit [RunFormat B] in
/-- A shown status is at least as high as what any entry's name stands for. -/
lemma shown_highest (h : (shown t dir).lookup p = some s) {name : String} {s' : PhaseStatus}
    (hentry : t.node (dir ++ [name]) ≠ none)
    (hname : classifyMarker name = some (p, statusName s', statusRank s')) :
    statusRank s' ≤ statusRank s := by
  obtain ⟨-, hmax, -⟩ := lookup_addAll_eq_some h
  refine hmax s' (List.mem_filterMap.mpr ⟨name, mem_readDir.mpr hentry, ?_⟩)
  rw [classifyMarker, classify_eq] at hname
  cases hstatus : markerStatus name with
  | none => simp [hstatus] at hname
  | some x =>
      simp only [hstatus, Option.some.injEq, Prod.mk.injEq] at hname
      rw [← hname.1, ← statusName_injective hname.2.1]

/-- The readers agree when the two kinds of maps are the same. -/
lemma readersAgree_iff_lookup : ReadersAgree t runDir ↔ fileAt t (markersDir runDir) = none ∧
    ∀ p, (scanOf t (markersDir runDir)).phaseStatus.lookup p =
      (shown t (markersDir runDir)).lookup p := by
  constructor
  · intro h
    have hfile : fileAt t (markersDir runDir) = none := by
      obtain ⟨scan, hload⟩ := h.loads
      by_contra hne
      obtain ⟨b, hb⟩ := Option.ne_none_iff_exists'.mp hne
      rw [loadMarkers_of_file hb] at hload
      cases hload
    refine ⟨hfile, fun p => lookup_eq_of_names fun status => ?_⟩
    rw [← mem_scanMarkers, h.index p status]
    simp only [loads_iff, hfile, true_and]
  · rintro ⟨hfile, hlookup⟩
    have hloads : ∀ p s, Loads t runDir p s ↔
        (shown t (markersDir runDir)).lookup p = some s := by
      intro p s
      rw [loads_iff, hlookup p]
      simp [hfile]
    refine ⟨⟨_, loadMarkers_eq hfile⟩, fun p status => ?_, fun p status => ?_, ?_⟩
    · simp only [mem_scanMarkers, hloads]
    · simp only [mem_timeline, hloads]
    · intro p s hs name s' hentry hname
      exact shown_highest ((hloads p s).mp hs) hentry hname

/-- Every completed marker can be read, the failed marker of a phase without one is a file, and
without either some entry stands for a started marker of the phase exactly when the loader takes
some file for one. -/
structure MarkersPlain (t : Disk B) (dir : Path) : Prop where
  directory : fileAt t dir = none
  completed : ∀ p, Entry t dir (p ++ ".completed") → CompletedOnDisk t dir p
  failed : ∀ p, ¬ Entry t dir (p ++ ".completed") → Entry t dir (p ++ ".failed") →
    (fileAt t (dir ++ [p ++ ".failed"])).isSome = true
  started : ∀ p, ¬ Entry t dir (p ++ ".completed") → ¬ Entry t dir (p ++ ".failed") →
    ((∃ name, (fileAt t (dir ++ [name])).isSome = true ∧ LoadedStarted p name) ↔
      ∃ name, Entry t dir name ∧ ShownStarted p name)

omit [RunFormat B] in
lemma entry_of_file {name : String} (h : (fileAt t (dir ++ [name])).isSome = true) :
    Entry t dir name := by
  obtain ⟨b, hb⟩ := Option.isSome_iff_exists.mp h
  rw [Entry, fileAt_eq_some.mp hb]
  simp

lemma entry_of_completed (h : CompletedOnDisk t dir p) : Entry t dir (p ++ ".completed") := by
  obtain ⟨bytes, fields, hfile, -⟩ := h
  exact entry_of_file (by rw [hfile]; rfl)

/-- The loader, the run index and the detail page agree on exactly these markers directories. -/
theorem readersAgree_iff : ReadersAgree t runDir ↔ MarkersPlain t (markersDir runDir) := by
  rw [readersAgree_iff_lookup]
  simp only [scanOf_eq_top, shown_eq_top, topStatus_eq_iff]
  constructor
  · rintro ⟨hfile, hagree⟩
    refine ⟨hfile, fun p => (hagree p).1.mpr, fun p hopen => ?_, fun p hopen hunfailed => ?_⟩
    · exact ((hagree p).2.1 (mt entry_of_completed hopen)).mpr
    · exact (hagree p).2.2 (mt entry_of_completed hopen) (mt entry_of_file hunfailed)
  · intro h
    refine ⟨h.directory, fun p => ⟨⟨entry_of_completed, h.completed p⟩, fun hopen => ?_,
      fun hopen hunfailed => ?_⟩⟩
    · exact ⟨entry_of_file, h.failed p (mt (h.completed p) hopen)⟩
    · have hentry := mt (h.completed p) hopen
      exact h.started p hentry (mt (h.failed p hentry) hunfailed)

end Agreement

section Unreadable

/-- A run directory with one marker file. -/
def oneMarker (name : String) : Disk Doc :=
  ((createDirAll Disk.empty ["run", "markers"]).bind fun t =>
    writeFile t ["run", "markers", name] (.text "x")).getD Disk.empty

/-- A completed marker that cannot be read is no marker for the loader and a completed phase for
both pages; a name that goes on after `.started` is a phase for the loader only. -/
theorem readers_disagree :
    (loadMarkers (oneMarker "design.completed") ["run"] = .ok ⟨[], [], false⟩ ∧
      scanMarkers (oneMarker "design.completed") ["run", "markers"] = [("design", "completed")] ∧
      buildPhaseTimeline (oneMarker "design.completed") ["run"] =
        [⟨"design", "completed", none, none⟩] ∧
      ¬ ReadersAgree (oneMarker "design.completed") ["run"]) ∧
    loadMarkers (oneMarker "design.started~") ["run"] =
      .ok ⟨[("design.started~", .started)], [], false⟩ ∧
    scanMarkers (oneMarker "design.started~") ["run", "markers"] = [] ∧
    buildPhaseTimeline (oneMarker "design.started~") ["run"] = [] ∧
    ¬ ReadersAgree (oneMarker "design.started~") ["run"] := by
  have hunread : loadMarkers (oneMarker "design.completed") ["run"] = .ok ⟨[], [], false⟩ := by
    decide
  have hshown : scanMarkers (oneMarker "design.completed") (markersDir ["run"]) =
      [("design", "completed")] := by decide
  have hstarted : loadMarkers (oneMarker "design.started~") ["run"] =
      .ok ⟨[("design.started~", .started)], [], false⟩ := by decide
  have hnothing : scanMarkers (oneMarker "design.started~") (markersDir ["run"]) = [] := by decide
  refine ⟨⟨hunread, hshown, by decide, fun h => ?_⟩, hstarted, hnothing, by decide, fun h => ?_⟩
  · have hmem := (h.index "design" "completed").mp (by rw [hshown]; exact List.mem_singleton_self _)
    obtain ⟨s, ⟨scan, hload, hlookup⟩, -⟩ := hmem
    rw [hunread] at hload
    cases hload
    cases hlookup
  · have hloads : Loads (oneMarker "design.started~") ["run"] "design.started~" .started :=
      ⟨_, hstarted, rfl⟩
    have hmem := (h.index "design.started~" "started").mpr ⟨.started, hloads, rfl⟩
    rw [hnothing] at hmem
    cases hmem

end Unreadable

end Loker.MarkerReaders
