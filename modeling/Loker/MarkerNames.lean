import Loker.AttemptNumbers
import Loker.CompletedRuns
import Loker.Resumability
import Loker.Summary

/-! The names of marker files: what their readers take them for, and which phase names can be read
back. -/

namespace Loker.MarkerNames

open FileTree TextOps TextSearch RunFiles RunLoad LoadSpec RunOps CommitProtocol RunLayout
  Resumability AttemptNumbers

variable {B : Type} [RunFormat B] {p q : String} {n i : ℕ} {m : Marker}

section Names

/-- The characters of `.started.` and of what stands between its dots. -/
def startedPattern : List Char := '.' :: ("started".toList ++ ['.'])

lemma startedPattern_eq : ".started.".toList = startedPattern := rfl

lemma dot_not_mem_started : '.' ∉ "started".toList := by decide

/-- What the name of a marker has after the phase and a dot. -/
def markerTail : Marker → List Char
  | .started c => "started".toList ++ '.' :: c.attempt.repr.toList
  | .completed _ => "completed".toList
  | .failed _ => "failed".toList

lemma markerTail_started (c : StartedMarker) :
    markerTail (.started c) = "started".toList ++ '.' :: c.attempt.repr.toList := rfl

lemma markerTail_completed (c : CompletedMarker) :
    markerTail (.completed c) = "completed".toList := rfl

lemma markerTail_failed (c : FailedMarker) : markerTail (.failed c) = "failed".toList := rfl

lemma fileName_toList : m.fileName.toList = m.phase.toList ++ '.' :: markerTail m := by
  cases m with
  | started c =>
      rw [Marker.fileName, String.toList_append, String.toList_append, markerTail_started,
        List.append_assoc]
      rfl
  | completed c =>
      rw [Marker.fileName, String.toList_append, markerTail_completed]
      rfl
  | failed c =>
      rw [Marker.fileName, String.toList_append, markerTail_failed]
      rfl

lemma dot_not_mem_repr (n : ℕ) : '.' ∉ n.repr.toList :=
  fun h => absurd (isDigit_of_mem_repr h) (by decide)

/-- The name of a phase has a match of its own, if it ends before a further dot. -/
def HidesStarted (p : String) : Prop := contains (p ++ ".") ".started." = true

instance (p : String) : Decidable (HidesStarted p) := inferInstanceAs (Decidable (_ = _))

lemma hidesStarted_iff : HidesStarted p ↔ ∃ i, OccursAt startedPattern i (p.toList ++ ['.']) := by
  have htoList : (p ++ ".").toList = p.toList ++ ['.'] := by rw [String.toList_append]; rfl
  rw [HidesStarted, contains, decide_eq_true_eq, startedPattern_eq, htoList, infix_iff_occursAt]

/-- A match in the name of a marker is in the phase, or is the one of a started marker. -/
lemma occursAt_fileName (h : OccursAt startedPattern i m.fileName.toList) :
    OccursAt startedPattern i (m.phase.toList ++ ['.']) ∨
      i = m.phase.toList.length ∧ ∃ c, m = .started c := by
  rw [fileName_toList] at h
  rcases lt_trichotomy i m.phase.toList.length with hlt | heq | hgt
  · exact Or.inl (h.before dot_not_mem_started hlt)
  · refine Or.inr ⟨heq, ?_⟩
    unfold OccursAt at h
    rw [heq, List.drop_left] at h
    cases m with
    | started c => exact ⟨c, rfl⟩
    | completed c =>
        have hnot : ¬ startedPattern <+: '.' :: "completed".toList := by decide
        exact absurd h hnot
    | failed c =>
        have hnot : ¬ startedPattern <+: '.' :: "failed".toList := by decide
        exact absurd h hnot
  · have hdot := h.after hgt
    cases m with
    | started c =>
        rw [markerTail_started, List.drop_append, List.drop_eq_nil_of_le (Nat.le_succ _),
          Nat.add_sub_cancel_left] at hdot
        exact absurd hdot (dot_not_mem_repr c.attempt)
    | completed c =>
        have hnot : '.' ∉ "completed".toList := by decide
        exact absurd (List.mem_of_mem_drop hdot) hnot
    | failed c =>
        have hnot : '.' ∉ "failed".toList := by decide
        exact absurd (List.mem_of_mem_drop hdot) hnot

lemma occursAt_of_hides (h : HidesStarted m.phase) :
    ∃ i < m.phase.toList.length, OccursAt startedPattern i m.fileName.toList := by
  obtain ⟨i, hi⟩ := hidesStarted_iff.mp h
  have hlen := hi.length_le (by decide)
  have htext : m.fileName.toList = (m.phase.toList ++ ['.']) ++ markerTail m := by
    rw [fileName_toList]
    simp
  refine ⟨i, ?_, htext ▸ hi.append⟩
  simp only [startedPattern, List.length_cons, List.length_append, List.length_nil] at hlen
  have hstarted : "started".toList.length = 7 := rfl
  omega

end Names

section Readers

open Summary (rsplitOnce startedName terminalName trimEndMatches dropPrefixes)

/-- The run state finds the phase of a started marker before the first match. -/
lemma markerPhase_started_iff : markerPhase (p ++ ".started." ++ n.repr) = p ↔ ¬ HidesStarted p := by
  have hnone : ∀ suffix ∈ [".completed", ".failed", ".started"],
      stripSuffix (p ++ ".started." ++ n.repr) suffix = none := by
    intro suffix hmem
    have hfalse : endsWith (p ++ ".started." ++ n.repr) suffix = false := by
      simp only [List.mem_cons, List.not_mem_nil, or_false] at hmem
      rcases hmem with rfl | rfl | rfl <;>
        exact not_endsWith_started (c := 'd') (by decide) (by decide) p n
    rw [stripSuffix, hfalse]
    rfl
  have hphase : markerPhase (p ++ ".started." ++ n.repr) =
      beforeFirst (p ++ ".started." ++ n.repr) ".started." := by
    rw [markerPhase, hnone _ (by simp), hnone _ (by simp), hnone _ (by simp)]
    rfl
  have htext : (p ++ ".started." ++ n.repr).toList =
      p.toList ++ (startedPattern ++ n.repr.toList) := by
    rw [String.toList_append, String.toList_append, List.append_assoc]
    rfl
  have hbefore : beforeFirst (p ++ ".started." ++ n.repr) ".started." = p ↔
      takeBefore startedPattern (p.toList ++ (startedPattern ++ n.repr.toList)) = p.toList := by
    rw [beforeFirst, htext, startedPattern_eq, ← String.toList_inj, String.toList_ofList]
  rw [hphase, hbefore, takeBefore_append_iff (by decide) (List.prefix_append _ _), ← htext]
  constructor
  · intro h hhides
    obtain ⟨i, hi, hoccurs⟩ := occursAt_of_hides (m := .started ⟨p, n⟩) hhides
    exact h i hi hoccurs
  · intro h i hi hoccurs
    rcases occursAt_fileName (m := .started ⟨p, n⟩) hoccurs with hhides | ⟨heq, _⟩
    · exact h (hidesStarted_iff.mpr ⟨i, hhides⟩)
    · exact absurd heq (Nat.ne_of_lt hi)

/-- The scan for the attempts of a phase takes the marker for one of its own: it is, or the name of
the marker's phase extends the one it looks for. -/
lemma scanned_fileName (h : startsWith m.fileName (q ++ ".started.") = true) :
    startsWith (m.phase ++ ".") (q ++ ".started.") = true ∨ q = m.phase ∧ ∃ c, m = .started c := by
  obtain ⟨r, hr⟩ := startsWith_iff.mp h
  have htext : m.fileName.toList = q.toList ++ (startedPattern ++ r.toList) := by
    rw [hr, String.toList_append, String.toList_append, List.append_assoc]
    rfl
  have hoccurs : OccursAt startedPattern q.toList.length m.fileName.toList := by
    rw [htext, OccursAt, List.drop_left]
    exact List.prefix_append _ _
  have hname : m.fileName.toList = m.phase.toList ++ '.' :: markerTail m := fileName_toList
  rcases occursAt_fileName hoccurs with hphase | ⟨hlen, hstarted⟩
  · refine Or.inl ?_
    have hlong := hphase.length_le (by decide)
    have hpre : q.toList ++ startedPattern <+: m.fileName.toList := by
      rw [htext, ← List.append_assoc]
      exact List.prefix_append _ _
    have hdot : m.phase.toList ++ ['.'] <+: m.fileName.toList := by
      rw [hname]
      exact ⟨markerTail m, by simp⟩
    rw [startsWith, List.isPrefixOf_iff_prefix, String.toList_append, String.toList_append]
    refine List.prefix_of_prefix_length_le hpre hdot ?_
    rw [List.length_append]
    exact hlong
  · refine Or.inr ⟨?_, hstarted⟩
    have htake : q.toList = m.phase.toList := by
      rw [hname] at htext
      exact (List.append_inj htext.symm hlen).1
    exact String.toList_inj.mp htake

lemma startsWith_fileName (h : startsWith m.fileName (q ++ ".started.") = true) :
    HidesStarted m.phase ∨ q = m.phase ∧ ∃ c, m = .started c := by
  refine (scanned_fileName h).imp_left fun hphase => ?_
  obtain ⟨r, hr⟩ := startsWith_iff.mp hphase
  rw [HidesStarted, contains, decide_eq_true_eq]
  refine ⟨q.toList, r.toList, ?_⟩
  rw [hr, String.toList_append, String.toList_append]

lemma contains_started_iff : contains m.fileName ".started." = true ↔
    HidesStarted m.phase ∨ ∃ c, m = .started c := by
  rw [contains, decide_eq_true_eq, startedPattern_eq, infix_iff_occursAt]
  constructor
  · rintro ⟨i, hi⟩
    exact (occursAt_fileName hi).imp (fun h => hidesStarted_iff.mpr ⟨i, h⟩) And.right
  · rintro (hhides | ⟨c, rfl⟩)
    · obtain ⟨i, _, hi⟩ := occursAt_of_hides hhides
      exact ⟨i, hi⟩
    · refine ⟨c.phase.toList.length, ?_⟩
      have htext : (Marker.started c).fileName.toList =
          c.phase.toList ++ (startedPattern ++ c.attempt.repr.toList) := by
        rw [Marker.fileName, String.toList_append, String.toList_append, List.append_assoc]
        rfl
      rw [htext, OccursAt, List.drop_left]
      exact List.prefix_append _ _

/-- The last match in the name of a started marker is the one before its attempt. -/
lemma startedName_started (hn : n < 2 ^ 32) :
    startedName (p ++ ".started." ++ n.repr) = some (p, n) := by
  have htext : (p ++ ".started." ++ n.repr).toList.reverse =
      n.repr.toList.reverse ++ (startedPattern.reverse ++ p.toList.reverse) := by
    rw [String.toList_append, String.toList_append, List.reverse_append, List.reverse_append]
    rfl
  have hbefore : takeBefore startedPattern.reverse (p ++ ".started." ++ n.repr).toList.reverse =
      n.repr.toList.reverse := by
    rw [htext]
    refine (takeBefore_append_iff (by decide) (List.prefix_append _ _)).mpr fun i hi hoccurs => ?_
    have hget := hoccurs.get (j := 0) (by decide)
    rw [Nat.add_zero, List.getElem?_append_left hi] at hget
    have hmem : '.' ∈ n.repr.toList.reverse := List.mem_of_getElem? hget
    exact dot_not_mem_repr n (List.mem_reverse.mp hmem)
  have hcontains : contains (p ++ ".started." ++ n.repr) ".started." = true :=
    contains_started_iff (m := .started ⟨p, n⟩) |>.mpr (Or.inr ⟨_, rfl⟩)
  have hlength : (p ++ ".started." ++ n.repr).toList.length - n.repr.toList.length -
      startedPattern.length = p.toList.length := by
    rw [String.toList_append, String.toList_append, startedPattern_eq, List.length_append,
      List.length_append]
    omega
  have hsplit : rsplitOnce (p ++ ".started." ++ n.repr) ".started." = some (p, n.repr) := by
    rw [rsplitOnce, if_pos hcontains]
    simp only [startedPattern_eq, hbefore, List.reverse_reverse, hlength, String.ofList_toList]
    rw [String.toList_append, String.toList_append, List.append_assoc, List.take_left,
      String.ofList_toList]
  rw [startedName, hsplit]
  simp [parseU32_repr hn]

lemma dropPrefixes_append_iff {pat cs : List Char} {fuel : ℕ} (hpat : pat ≠ [])
    (hfuel : cs.length ≤ fuel) :
    dropPrefixes pat (fuel + 1) (pat ++ cs) = cs ↔ ¬ pat <+: cs := by
  have hlength : ∀ (k : ℕ) (xs : List Char), (dropPrefixes pat k xs).length ≤ xs.length := by
    intro k
    induction k with
    | zero => simp [dropPrefixes]
    | succ k ih =>
        intro xs
        unfold dropPrefixes
        split
        · exact (ih _).trans (by simp)
        · exact le_refl _
  have hfirst : pat.isPrefixOf (pat ++ cs) = true :=
    List.isPrefixOf_iff_prefix.mpr (List.prefix_append _ _)
  rw [dropPrefixes, if_pos hfirst, List.drop_left]
  constructor
  · intro h hpre
    obtain ⟨r, rfl⟩ := hpre
    have hpos := List.length_pos_iff.mpr hpat
    obtain ⟨k, rfl⟩ : ∃ k, fuel = k + 1 := ⟨fuel - 1, by simp at hfuel; omega⟩
    rw [dropPrefixes, if_pos (List.isPrefixOf_iff_prefix.mpr (List.prefix_append _ _)),
      List.drop_left] at h
    have hle := hlength k r
    rw [h, List.length_append] at hle
    omega
  · intro hnot
    cases fuel with
    | zero => rfl
    | succ k => rw [dropPrefixes, if_neg fun h => hnot (List.isPrefixOf_iff_prefix.mp h)]

/-- Trimming takes just the one suffix when the rest does not end in it again. -/
lemma trimEndMatches_append_iff {suffix : String} (hsuffix : suffix ≠ "") :
    trimEndMatches (p ++ suffix) suffix = p ↔ endsWith p suffix = false := by
  have hne : suffix.toList.reverse ≠ [] := by
    intro h
    exact hsuffix (String.toList_inj.mp (by simpa using h))
  obtain ⟨fuel, hfuel⟩ : ∃ fuel, (p ++ suffix).toList.length = fuel + 1 := by
    have hpos := List.length_pos_iff.mpr hne
    rw [List.length_reverse] at hpos
    exact ⟨(p ++ suffix).toList.length - 1, by rw [String.toList_append, List.length_append]; omega⟩
  have hle : p.toList.reverse.length ≤ fuel := by
    have hpos := List.length_pos_iff.mpr hne
    rw [List.length_reverse] at hpos ⊢
    rw [String.toList_append, List.length_append] at hfuel
    omega
  have hiff := dropPrefixes_append_iff hne hle
  rw [trimEndMatches, hfuel, String.toList_append, List.reverse_append]
  rw [← String.toList_inj, String.toList_ofList, List.reverse_eq_iff, hiff, endsWith,
    Bool.eq_false_iff, ne_eq, List.isSuffixOf_iff_suffix, List.reverse_prefix]

end Readers

section Identified

open Summary (startedName terminalName)

/-- Every reader takes the markers of the phase for its own, with their attempts, and nobody takes
them for markers of another phase. -/
structure Identified (p : String) : Prop where
  placed : ∀ (runDir : Path) (m : Marker), m.phase = p →
    markerPath runDir m = markersDir runDir ++ [m.fileName]
  attributed : ∀ m : Marker, m.phase = p → markerPhase m.fileName = p
  scanned : ∀ (m : Marker) (q : String), m.phase = p → (startsWith m.fileName (q ++ ".started.") = true ↔
    q = p ∧ ∃ c, m = .started c)
  started : ∀ n < 2 ^ 32, startedName (Marker.started ⟨p, n⟩).fileName = some (p, n)
  not_terminal : ∀ n, terminalName (Marker.started ⟨p, n⟩).fileName = none
  completed : terminalName (p ++ ".completed") = some (p, .completed)
  failed : terminalName (p ++ ".failed") = some (p, .failed)

/-- The name has no slash and nothing in it that a reader takes for the end of the phase. -/
structure PlainName (p : String) : Prop where
  no_slash : '/' ∉ p.toList
  no_started : ¬ HidesStarted p
  not_completed : endsWith p ".completed" = false
  not_failed : endsWith p ".failed" = false

lemma isName_fileName (h : '/' ∉ m.phase.toList) : IsName m.fileName := by
  cases m with
  | started c => exact isName_started h _
  | completed c => exact isName_append h (by decide) (by decide)
  | failed c => exact isName_failed h

lemma markerPhase_fileName (h : ¬ HidesStarted m.phase) : markerPhase m.fileName = m.phase := by
  cases m with
  | started c => exact markerPhase_started_iff.mpr h
  | completed c => exact markerPhase_completed c.phase
  | failed c => exact markerPhase_failed c.phase

lemma terminalName_completed_iff : terminalName (p ++ ".completed") = some (p, .completed) ↔
    ¬ HidesStarted p ∧ endsWith p ".completed" = false := by
  have hcontains : contains (p ++ ".completed") ".started." = true ↔ HidesStarted p := by
    have h := contains_started_iff (m := .completed ⟨p, 0, "", []⟩)
    simpa [Marker.fileName, Marker.phase] using h
  rw [terminalName]
  by_cases hhides : HidesStarted p
  · simp [hcontains.mpr hhides, hhides]
  · rw [if_neg (mt hcontains.mp hhides), if_pos (endsWith_append p ".completed")]
    simp [hhides, trimEndMatches_append_iff]

lemma terminalName_failed_iff : terminalName (p ++ ".failed") = some (p, .failed) ↔
    ¬ HidesStarted p ∧ endsWith p ".failed" = false := by
  have hcontains : contains (p ++ ".failed") ".started." = true ↔ HidesStarted p := by
    have h := contains_started_iff (m := .failed ⟨p, 0, "", ""⟩)
    simpa [Marker.fileName, Marker.phase] using h
  rw [terminalName]
  by_cases hhides : HidesStarted p
  · simp [hcontains.mpr hhides, hhides]
  · rw [if_neg (mt hcontains.mp hhides), if_neg (by simp [not_completed_failed]),
      if_pos (endsWith_append p ".failed")]
    simp [hhides, trimEndMatches_append_iff]

lemma PlainName.identified (h : PlainName p) : Identified p where
  placed runDir m hm := join_of_isName (isName_fileName (hm ▸ h.no_slash))
  attributed m hm := by
    rw [markerPhase_fileName (hm ▸ h.no_started), hm]
  scanned m q hm := by
    constructor
    · intro hstart
      rcases startsWith_fileName hstart with hhides | ⟨rfl, hstarted⟩
      · exact absurd (hm ▸ hhides) h.no_started
      · exact ⟨hm, hstarted⟩
    · rintro ⟨rfl, c, rfl⟩
      exact startsWith_iff.mpr ⟨c.attempt.repr, by rw [← hm]; rfl⟩
  started n hn := startedName_started hn
  not_terminal n := by
    have hcontains := contains_started_iff (m := .started ⟨p, n⟩) |>.mpr (Or.inr ⟨_, rfl⟩)
    rw [terminalName, if_pos hcontains]
  completed := terminalName_completed_iff.mpr ⟨h.no_started, h.not_completed⟩
  failed := terminalName_failed_iff.mpr ⟨h.no_started, h.not_failed⟩

/-- The markers of a phase identify it exactly when its name is plain. -/
lemma identified_iff_plain : Identified p ↔ PlainName p := by
  refine ⟨fun h => ?_, PlainName.identified⟩
  have hcompleted := terminalName_completed_iff.mp h.completed
  refine ⟨?_, hcompleted.1, hcompleted.2, (terminalName_failed_iff.mp h.failed).2⟩
  have hpath : join (markersDir []) (p ++ ".completed") = markersDir [] ++ [p ++ ".completed"] :=
    h.placed [] (.completed ⟨p, 0, "", []⟩) rfl
  have hmem : p ++ ".completed" ∈ join (markersDir []) (p ++ ".completed") := by
    rw [hpath]
    simp
  rcases mem_join hmem with hmarkers | hcomponent
  · have hname : p ++ ".completed" = "markers" := by simpa [markersDir] using hmarkers
    have hends : endsWith "markers" ".completed" = true := hname ▸ endsWith_append p ".completed"
    exact absurd hends (by decide)
  · have hslash := slash_not_mem_of_components hcomponent
    intro hp
    exact hslash (by rw [String.toList_append]; exact List.mem_append_left _ hp)

end Identified

section Apart

open Programs PhaseRunner Dispatch Strategies

variable {runDir : Path} {t t' : Disk B} {w w' : World B} {cfg : PhaseConfig} {inp : PhaseInputs}
  {eng : Engines}

/-- The status that the run state gives the phase. -/
def statusIn (t : Disk B) (runDir : Path) (q : String) : Except LoadError (Option PhaseStatus) :=
  (loadMarkers t runDir).map fun scan => scan.phaseStatus.lookup q

/-- `t'` differs from `t` neither in the markers, those of the first phase apart, nor in the attempts
of the second one. -/
structure Spared (runDir : Path) (p q : String) (t t' : Disk B) : Prop where
  directory : fileAt t' (markersDir runDir) = fileAt t (markersDir runDir)
  markers : ∀ name, (∀ m : Marker, m.phase = p → name ≠ m.fileName) →
    t'.node (markersDir runDir ++ [name]) = t.node (markersDir runDir ++ [name])
  attempts : ∀ r, attemptsDir runDir q <+: r → t'.node r = t.node r

/-- What an operation of the first phase must leave alone. -/
def Spares (runDir : Path) (p q : String) : Op B → Prop
  | .createDirAll r => (∀ name, ¬ markersDir runDir ++ [name] <+: r) ∧ ¬ attemptsDir runDir q <+: r
  | .writeFile r _ => ¬ markersDir runDir <+: r ∧ ¬ attemptsDir runDir q <+: r
  | .writeMarker dir m => dir = runDir ∧ m.phase = p
  | .writeManifest dir _ => dir = runDir
  | .rename _ _ => False
  | _ => True

omit [RunFormat B] in
lemma Spared.trans {u : Disk B} (h₁ : Spared runDir p q t t') (h₂ : Spared runDir p q t' u) :
    Spared runDir p q t u where
  directory := h₂.directory.trans h₁.directory
  markers name hname := (h₂.markers name hname).trans (h₁.markers name hname)
  attempts r hr := (h₂.attempts r hr).trans (h₁.attempts r hr)

omit [RunFormat B] in
lemma Spared.refl : Spared runDir p q t t := ⟨rfl, fun _ _ => rfl, fun _ _ => rfl⟩

omit [RunFormat B] in
lemma spared_createDirAll {r : Path} (hmarkers : ∀ name, ¬ markersDir runDir ++ [name] <+: r)
    (hattempts : ¬ attemptsDir runDir q <+: r) (h : createDirAll t r = some t') :
    Spared runDir p q t t' where
  directory := by rw [createDirAll_fileAt h]
  markers name _ := by rw [createDirAll_node h, if_neg (hmarkers name)]
  attempts r' hr' := by rw [createDirAll_node h, if_neg fun hle => hattempts (hr'.trans hle)]

omit [RunFormat B] in
lemma spared_writeFile {r : Path} {b : B} (hdir : r ≠ markersDir runDir)
    (hmarkers : ∀ name, (∀ m : Marker, m.phase = p → name ≠ m.fileName) →
      r ≠ markersDir runDir ++ [name])
    (hattempts : ¬ attemptsDir runDir q <+: r) (h : writeFile t r b = some t') :
    Spared runDir p q t t' where
  directory := writeFile_other h hdir.symm
  markers name hname := by rw [writeFile_node h, if_neg (hmarkers name hname).symm]
  attempts r' hr' := by
    have hne : r' ≠ r := by
      rintro rfl
      exact hattempts hr'
    rw [writeFile_node h, if_neg hne]

lemma attemptsDir_eq (hq : IsName q) : attemptsDir runDir q = runDir ++ ["attempts", q] := by
  rw [attemptsDir, join_of_isName hq, List.append_assoc]
  rfl

lemma not_attemptsDir {s : String} {rest : Path} (hq : IsName q) (hs : s ≠ "attempts") :
    ¬ attemptsDir runDir q <+: runDir ++ s :: rest := by
  rw [attemptsDir_eq hq, List.prefix_append_right_inj, List.cons_prefix_cons]
  exact fun h => hs h.1.symm

lemma spared_step {o : Op B} {a : Answer B o} (hp : PlainName p) (hq : IsName q)
    (ho : Spares runDir p q o) (h : perform o w a w') : Spared runDir p q w.disk w'.disk := by
  rcases perform_effect h with rfl | heffect
  · exact .refl
  cases o with
  | createDirAll r =>
      obtain ⟨t', ht', rfl⟩ := Option.map_eq_some_iff.mp heffect
      exact spared_createDirAll ho.1 ho.2 ht'
  | writeFile r b =>
      obtain ⟨t', ht', rfl⟩ := Option.map_eq_some_iff.mp heffect
      refine spared_writeFile ?_ (fun name _ => ?_) ho.2 ht'
      · rintro rfl
        exact ho.1 List.prefix_rfl
      · rintro rfl
        exact ho.1 (List.prefix_append _ _)
  | rename src dst => exact ho.elim
  | writeManifest dir m =>
      obtain rfl : dir = runDir := ho
      obtain ⟨t', ht', rfl⟩ := Option.map_eq_some_iff.mp heffect
      refine spared_writeFile ?_ (fun name _ => ?_) ?_ ht'
      · simp [manifestPath, markersDir]
      · simp [manifestPath, markersDir]
      · exact not_attemptsDir hq (by decide)
  | writeMarker dir m =>
      obtain ⟨rfl, hm⟩ := ho
      obtain ⟨t', ht', rfl⟩ := Option.map_eq_some_iff.mp heffect
      have hpath : markerPath dir m = markersDir dir ++ [m.fileName] :=
        markerPath_eq (isName_fileName (hm ▸ hp.no_slash))
      rw [hpath] at ht'
      refine spared_writeFile ?_ (fun name hname => ?_) ?_ ht'
      · simp
      · have hne := hname m hm
        simpa using hne.symm
      · rw [markersDir, List.append_assoc]
        exact not_attemptsDir hq (by decide)
  | _ => cases heffect

omit [RunFormat B] in
lemma Spared.symm (h : Spared runDir p q t t') : Spared runDir p q t' t where
  directory := h.directory.symm
  markers name hname := (h.markers name hname).symm
  attempts r hr := (h.attempts r hr).symm

/-- Only a marker of the first phase can be read differently. -/
lemma Spared.statusOf (h : Spared runDir p q t t') (hp : PlainName p) (hne : p ≠ q) {name : String}
    {s : PhaseStatus} (hname : statusOf t (markersDir runDir) name = some (q, s)) :
    statusOf t' (markersDir runDir) name = some (q, s) := by
  have hother : ∀ m : Marker, m.phase = p → name ≠ m.fileName := by
    rintro m hm rfl
    have hphase : markerPhase m.fileName = q := statusOf_phase hname
    rw [hp.identified.attributed m hm] at hphase
    exact hne hphase
  have hfile := fileAt_congr (h.markers name hother)
  unfold LoadSpec.statusOf at hname ⊢
  rwa [hfile]

lemma Spared.statusIn (h : Spared runDir p q t t') (hp : PlainName p) (hne : p ≠ q) :
    statusIn t' runDir q = statusIn t runDir q := by
  have hdirectory := h.directory
  unfold MarkerNames.statusIn
  cases hfile : fileAt t (markersDir runDir) with
  | some b =>
      rw [hfile] at hdirectory
      rw [loadMarkers_of_file hdirectory, loadMarkers_of_file hfile]
  | none =>
      rw [hfile] at hdirectory
      rw [loadMarkers_eq hdirectory, loadMarkers_eq hfile]
      have hlookup : (scanOf t' (markersDir runDir)).phaseStatus.lookup q =
          (scanOf t (markersDir runDir)).phaseStatus.lookup q :=
        scanOf_lookup_congr fun name s =>
          ⟨h.symm.statusOf hp hne, h.statusOf hp hne⟩
      exact congrArg Except.ok hlookup

lemma Spared.attemptIn (h : Spared runDir p q t t') (hp : PlainName p) (hne : p ≠ q) {name : String}
    (hstart : startsWith name (q ++ ".started.") = true) :
    attemptIn t' runDir name = attemptIn t runDir name ∧
      t'.node (markersDir runDir ++ [name]) = t.node (markersDir runDir ++ [name]) := by
  have hother : ∀ m : Marker, m.phase = p → name ≠ m.fileName := by
    rintro m hm rfl
    exact hne ((hp.identified.scanned m q hm).mp hstart).1.symm
  have hnode := h.markers name hother
  refine ⟨?_, hnode⟩
  unfold AttemptNumbers.attemptIn
  rw [fileAt_congr hnode]

lemma Spared.nextAttempt_of_some (h : Spared runDir p q t t') (hp : PlainName p) (hne : p ≠ q)
    (hnext : nextAttempt t runDir q = some n) : nextAttempt t' runDir q = some n := by
  obtain ⟨⟨hmarkers, hattempts, hreadable⟩, rfl⟩ := nextAttempt_eq_some.mp hnext
  have hstarted : nextOf (startedAttempts t runDir q) = nextOf (startedAttempts t' runDir q) := by
    refine nextOf_congr fun a => ?_
    rw [mem_startedAttempts, mem_startedAttempts]
    refine exists_congr fun name => and_congr_right fun hstart => ?_
    rw [(h.attemptIn hp hne hstart).1]
  have hdirs : nextOf (dirAttempts t runDir q) = nextOf (dirAttempts t' runDir q) := by
    refine nextOf_congr fun a => ?_
    rw [mem_dirAttempts, mem_dirAttempts]
    refine exists_congr fun name => and_congr_left fun _ => ?_
    rw [isDir_iff, isDir_iff, h.attempts _ (List.prefix_append _ _)]
  refine nextAttempt_eq_some.mpr ⟨⟨?_, ?_, fun name hstart hnode => ?_⟩, ?_⟩
  · rw [h.directory, hmarkers]
  · rw [fileAt_congr (h.attempts _ List.prefix_rfl), hattempts]
  · obtain ⟨hattempt, hsame⟩ := h.attemptIn hp hne hstart
    rw [hattempt]
    exact hreadable name hstart (hsame ▸ hnode)
  · rw [hstarted, hdirs]

lemma Spared.nextAttempt (h : Spared runDir p q t t') (hp : PlainName p) (hne : p ≠ q) :
    nextAttempt t' runDir q = nextAttempt t runDir q :=
  Option.ext fun _ =>
    ⟨h.symm.nextAttempt_of_some hp hne, h.nextAttempt_of_some hp hne⟩

/-- The files that the phase writes for its own part, and the directories it makes for them, are
neither among the markers nor among the attempts of the other phase. -/
structure OutputsApart (cfg : PhaseConfig) (inp : PhaseInputs) (q : String) : Prop where
  output : ∀ name, PhaseOutputName cfg inp name → ¬ markersDir inp.runDir <+: join inp.runDir name ∧
    ¬ attemptsDir inp.runDir q <+: join inp.runDir name
  artefact : ¬ markersDir inp.runDir <+: join inp.runDir cfg.artefactName ∧
    ¬ attemptsDir inp.runDir q <+: join inp.runDir cfg.artefactName
  parent : (∀ name, ¬ markersDir inp.runDir ++ [name] <+: parentOf inp.runDir cfg.artefactName) ∧
    ¬ attemptsDir inp.runDir q <+: parentOf inp.runDir cfg.artefactName

lemma spares_below {s : String} {rest : Path} (hq : IsName q) (hmarkers : s ≠ "markers")
    (hattempts : s = "attempts" → rest.head? ≠ some q) :
    ¬ markersDir runDir <+: runDir ++ s :: rest ∧
      ¬ attemptsDir runDir q <+: runDir ++ s :: rest := by
  rw [attemptsDir_eq hq, markersDir, List.prefix_append_right_inj, List.prefix_append_right_inj,
    List.cons_prefix_cons, List.cons_prefix_cons]
  refine ⟨fun h => hmarkers h.1.symm, fun h => hattempts h.1.symm ?_⟩
  obtain ⟨r, rfl⟩ := h.2
  rfl

lemma not_marker_of_not_markers {r : Path} (h : ¬ markersDir runDir <+: r) (name : String) :
    ¬ markersDir runDir ++ [name] <+: r :=
  fun hle => h ((List.prefix_append _ _).trans hle)

omit [RunFormat B] in
/-- Everything a run of the first phase does leaves the second one alone. -/
lemma spares_of_run {o : Op B} (hp : IsName cfg.phase) (hq : IsName q) (hne : cfg.phase ≠ q)
    (hapart : OutputsApart cfg inp q)
    (ho : PhaseOp cfg inp True o ∨ CommitOp cfg inp.runDir o) :
    Spares inp.runDir cfg.phase q o := by
  have harchive : ∀ rest : Path, ¬ markersDir inp.runDir <+: inp.runDir ++ "attempts" :: cfg.phase :: rest ∧
      ¬ attemptsDir inp.runDir q <+: inp.runDir ++ "attempts" :: cfg.phase :: rest :=
    fun rest => spares_below hq (by decide) fun _ h => hne (Option.some.inj h)
  cases o with
  | createDirAll r =>
      have hmarkers : (∀ name, ¬ markersDir inp.runDir ++ [name] <+: markersDir inp.runDir) ∧
          ¬ attemptsDir inp.runDir q <+: markersDir inp.runDir := by
        refine ⟨fun name h => ?_, not_attemptsDir hq (by decide)⟩
        have hlen := h.length_le
        rw [List.length_append] at hlen
        exact absurd hlen (Nat.not_le.mpr (Nat.lt_add_of_pos_right (by simp)))
      rcases ho with (rfl | ⟨name, hname, rfl⟩ | ⟨_, n, rfl⟩) | (rfl | rfl | rfl)
      · exact hmarkers
      · obtain ⟨hfile, hattempts⟩ := hapart.output name hname
        have hparent := List.dropLast_prefix (join inp.runDir name)
        exact ⟨fun other h => not_marker_of_not_markers hfile other (h.trans hparent),
          fun h => hattempts (h.trans hparent)⟩
      · rw [archivePath_eq hp]
        exact ⟨not_marker_of_not_markers (harchive _).1, (harchive _).2⟩
      · refine ⟨fun name h => ?_, fun h => ?_⟩
        · have hlen := h.length_le
          rw [markersDir, List.append_assoc, List.length_append] at hlen
          exact absurd hlen (Nat.not_le.mpr (Nat.lt_add_of_pos_right (by simp)))
        · have hlen := h.length_le
          rw [attemptsDir_eq hq, List.length_append] at hlen
          exact absurd hlen (Nat.not_le.mpr (Nat.lt_add_of_pos_right (by simp)))
      · exact hapart.parent
      · exact hmarkers
  | writeFile r b =>
      rcases ho with (⟨name, hname, rfl⟩ | ⟨_, n, rfl⟩) | rfl
      · exact hapart.output name hname
      · rw [Spares, join_of_isName (by decide), archivePath_eq hp, List.append_assoc]
        exact harchive _
      · exact hapart.artefact
  | writeMarker dir m =>
      rcases ho with ⟨hdir, hphase, _⟩ | ⟨hdir, c, rfl, hphase⟩
      · exact ⟨hdir, hphase⟩
      · exact ⟨hdir, hphase⟩
  | writeManifest dir m =>
      rcases ho with ho | ho
      · exact ho.elim
      · exact ho
  | rename src dst =>
      rcases ho with ho | ho
      · exact ho
      · exact ho
  | _ => trivial

/-- However far a run of the first phase gets, it leaves the second one as it was. -/
lemma spared_of_steps {tr : List (Event (RunSig B))} {prog : Prog (RunSig B) (Except PhaseError PhaseOutcome)}
    (hp : PlainName cfg.phase) (hname : IsName cfg.phase) (hq : IsName q) (hne : cfg.phase ≠ q)
    (hapart : OutputsApart cfg inp q)
    (hsteps : Steps perform (PhaseRunner.run eng cfg inp i) w tr prog w') :
    Spared inp.runDir cfg.phase q w.disk w'.disk := by
  have hemits : Emits (fun o => PhaseOp (B := B) cfg inp True o ∨ CommitOp cfg inp.runDir o)
      (PhaseRunner.run eng cfg inp i) := run_emits
  refine hsteps.invariant (I := fun s => Spared inp.runDir cfg.phase q w.disk s.disk)
    (hemits.meets (fun o s a s' ho hs hact => ?_) .refl) .refl
  exact hs.trans (spared_step hp hq (spares_of_run hname hq hne hapart ho) hact)

end Apart

section Extending

open Programs PhaseRunner Strategies CompletedRuns CrashHistories PhaseBridge

lemma plainName_design : PlainName "design" := ⟨by decide, by decide, by decide, by decide⟩

lemma design_apart :
    OutputsApart (configOf (askPhase "design" "design.md") "Go") (askInputs "design") "review" := by
  refine ⟨fun name hname => ?_, by decide, fun name h => ?_, by decide⟩
  · obtain rfl : name = singleOutput := writes_of_phaseOutput rfl hname
    decide
  · have hlen := h.length_le
    have hparent : parentOf (askInputs "design").runDir
        (configOf (askPhase "design" "design.md") "Go").artefactName = ["run"] := by decide
    rw [hparent] at hlen
    simp [markersDir, askInputs] at hlen

end Extending

end Loker.MarkerNames
