import Loker.TextOps

/-! The interpolation of a validation prompt: one pass over the pairs of opening braces, against
the prompt with every marker replaced. -/

namespace Loker.ValidationPrompt

section Model

def outputMarker : List Char := "\x7b\x7b output \x7d\x7d".toList

def stderrMarker : List Char := "\x7b\x7b stderr \x7d\x7d".toList

/-- The output, cut to the limit's number of characters with a note. -/
def truncateOutput (output : String) (maxInputLength : Option ℕ) : String :=
  match maxInputLength with
  | some max =>
      if output.toList.length > max then
        String.ofList (output.toList.take max) ++ "\n\n[TRUNCATED - original was " ++
          output.toList.length.repr ++ " chars, showing first " ++ max.repr ++ "]"
      else output
  | none => output

variable (output stderr : List Char)

/-- The pass; `skip` counts the characters of the last marker, or brace pair, still to pass. -/
def interpolateFrom : ℕ → List Char → List Char
  | _, [] => []
  | skip + 1, _ :: cs => interpolateFrom skip cs
  | 0, c :: cs =>
      if outputMarker.isPrefixOf (c :: cs) then output ++ interpolateFrom 11 cs
      else if stderrMarker.isPrefixOf (c :: cs) then stderr ++ interpolateFrom 11 cs
      else if ['{', '{'].isPrefixOf (c :: cs) then '{' :: '{' :: interpolateFrom 1 cs
      else c :: interpolateFrom 0 cs

/-- Every marker replaced, and every other character as it is. -/
def replaceMarkers : ℕ → List Char → List Char
  | _, [] => []
  | skip + 1, _ :: cs => replaceMarkers skip cs
  | 0, c :: cs =>
      if outputMarker.isPrefixOf (c :: cs) then output ++ replaceMarkers 11 cs
      else if stderrMarker.isPrefixOf (c :: cs) then stderr ++ replaceMarkers 11 cs
      else c :: replaceMarkers 0 cs

end Model

def interpolateValidationPrompt (prompt output : String) (stderr : Option String)
    (maxInputLength : Option ℕ) : String :=
  String.ofList (interpolateFrom (truncateOutput output maxInputLength).toList
    (stderr.getD "").toList 0 prompt.toList)

/-- What the prompt is to become. -/
def replacedPrompt (prompt output : String) (stderr : Option String) (maxInputLength : Option ℕ) :
    String :=
  String.ofList (replaceMarkers (truncateOutput output maxInputLength).toList
    (stderr.getD "").toList 0 prompt.toList)

section Markers

variable {output stderr m rest cs t : List Char} {c : Char} {k : Bool}

def IsMarker (m : List Char) : Prop := m = outputMarker ∨ m = stderrMarker

/-- Two braces, and then none that opens. -/
lemma IsMarker.shape (h : IsMarker m) :
    ∃ t, m = '{' :: '{' :: t ∧ t ≠ [] ∧ '{' ∉ t ∧ t.length = 10 := by
  rcases h with rfl | rfl
  · exact ⟨" output \x7d\x7d".toList, rfl, by decide, by decide, by decide⟩
  · exact ⟨" stderr \x7d\x7d".toList, rfl, by decide, by decide, by decide⟩

/-- The text begins with a marker. -/
def MarkerAhead (cs : List Char) : Prop := ∃ m, IsMarker m ∧ m <+: cs

lemma markerAhead_iff : MarkerAhead cs ↔
    outputMarker.isPrefixOf cs = true ∨ stderrMarker.isPrefixOf cs = true := by
  simp [MarkerAhead, IsMarker, List.isPrefixOf_iff_prefix]

lemma not_markerAhead_cons (hc : c ≠ '{') : ¬ MarkerAhead (c :: cs) := by
  rintro ⟨m, hm, hpre⟩
  obtain ⟨t, rfl, _⟩ := hm.shape
  exact hc (List.cons_prefix_cons.mp hpre).1.symm

lemma not_markerAhead_brace (hcs : cs.head? ≠ some '{') : ¬ MarkerAhead ('{' :: cs) := by
  rintro ⟨m, hm, hpre⟩
  obtain ⟨t, rfl, _⟩ := hm.shape
  obtain ⟨s, hs⟩ := (List.cons_prefix_cons.mp hpre).2
  apply hcs
  rw [← hs]
  rfl

end Markers

section Alignment

variable {output stderr m rest cs t : List Char} {c : Char} {k : Bool}

/-- The braces that open right before a place. -/
def openBraces (before : List Char) : ℕ := (before.rtakeWhile (· = '{')).length

/-- Whether their number is odd, with a brace before the text or none. -/
def oddBraces : Bool → List Char → Bool
  | k, [] => k
  | k, c :: cs => oddBraces (c = '{' && !k) cs

lemma oddBraces_concat (k : Bool) (cs : List Char) (c : Char) :
    oddBraces k (cs ++ [c]) = (c = '{' && !oddBraces k cs) := by
  induction cs generalizing k with
  | nil => rfl
  | cons d cs ih => exact ih _

lemma oddBraces_iff (before : List Char) :
    oddBraces false before = true ↔ ¬ Even (openBraces before) := by
  induction before using List.reverseRecOn with
  | nil => simp [oddBraces, openBraces]
  | append_singleton before c ih =>
      rw [oddBraces_concat, openBraces]
      by_cases hc : c = '{'
      · rw [List.rtakeWhile_concat_pos _ _ _ (by simpa using hc), List.length_append,
          List.length_singleton, ← openBraces, Nat.even_add_one, ← ih]
        simp [hc]
      · rw [List.rtakeWhile_concat_neg _ _ _ (by simpa using hc)]
        simp [hc]

/-- Before every marker of the text the number is even. -/
def AlignedFrom (k : Bool) (cs : List Char) : Prop :=
  ∀ before m after, IsMarker m → cs = before ++ m ++ after → oddBraces k before = false

lemma alignedFrom_cons : AlignedFrom k (c :: cs) ↔
    (MarkerAhead (c :: cs) → k = false) ∧ AlignedFrom (c = '{' && !k) cs := by
  constructor
  · intro h
    refine ⟨?_, fun before m after hm hsplit => ?_⟩
    · rintro ⟨m, hm, after, hafter⟩
      exact h [] m after hm hafter.symm
    · exact h (c :: before) m after hm (by rw [hsplit]; rfl)
  · rintro ⟨hahead, hrest⟩ before m after hm hsplit
    cases before with
    | nil => exact hahead ⟨m, hm, after, hsplit.symm⟩
    | cons d before =>
        obtain ⟨rfl, htail⟩ := List.cons.inj hsplit
        exact hrest before m after hm htail

lemma alignedFrom_of_head (hcs : cs.head? ≠ some '{') : AlignedFrom k cs ↔ AlignedFrom false cs := by
  cases cs with
  | nil =>
      constructor
      · intro _ before m after hm hsplit
        obtain ⟨t, rfl, _⟩ := hm.shape
        simp at hsplit
      · intro _ before m after hm hsplit
        obtain ⟨t, rfl, _⟩ := hm.shape
        simp at hsplit
  | cons c cs =>
      have hc : c ≠ '{' := fun heq => hcs (by rw [heq, List.head?_cons])
      rw [alignedFrom_cons, alignedFrom_cons]
      simp [hc, not_markerAhead_cons hc]

/-- Text without an opening brace ends every row of them. -/
lemma alignedFrom_append (ht : '{' ∉ t) (hne : t ≠ []) :
    AlignedFrom k (t ++ rest) ↔ AlignedFrom false rest := by
  induction t generalizing k with
  | nil => exact (hne rfl).elim
  | cons c t ih =>
      have hc : c ≠ '{' := fun heq => ht (heq ▸ List.mem_cons_self)
      have htail : '{' ∉ t := fun hmem => ht (List.mem_cons_of_mem _ hmem)
      rw [List.cons_append, alignedFrom_cons]
      simp only [not_markerAhead_cons hc, false_implies, true_and, hc, decide_false, Bool.false_and]
      by_cases hnil : t = []
      · rw [hnil, List.nil_append]
      · exact ih htail hnil

lemma alignedFrom_marker (hm : IsMarker m) :
    AlignedFrom false (m ++ rest) ↔ AlignedFrom false rest := by
  obtain ⟨t, rfl, hne, hno, _⟩ := hm.shape
  have hhead : (t ++ rest).head? ≠ some '{' := by
    obtain ⟨c, t', rfl⟩ := List.exists_cons_of_ne_nil hne
    rw [List.cons_append, List.head?_cons]
    intro heq
    exact hno (Option.some.inj heq ▸ List.mem_cons_self)
  rw [List.cons_append, List.cons_append, alignedFrom_cons, alignedFrom_cons]
  simp only [implies_true, true_and, not_markerAhead_brace hhead, false_implies, decide_true,
    Bool.not_false, Bool.and_self, Bool.not_true, Bool.and_false]
  exact alignedFrom_append hno hne

lemma alignedFrom_pair : AlignedFrom false ('{' :: '{' :: cs) ↔
    ¬ MarkerAhead ('{' :: cs) ∧ AlignedFrom false cs := by
  rw [alignedFrom_cons, alignedFrom_cons]
  simp

lemma alignedFrom_single (h : ['{', '{'].isPrefixOf (c :: cs) = false) :
    AlignedFrom false (c :: cs) ↔ AlignedFrom false cs := by
  rw [alignedFrom_cons]
  by_cases hc : c = '{'
  · subst hc
    have hhead : cs.head? ≠ some '{' := by
      cases cs with
      | nil => exact nofun
      | cons d cs =>
          intro heq
          obtain rfl := Option.some.inj heq
          cases h
    simp only [implies_true, true_and]
    exact alignedFrom_of_head hhead
  · simp [hc]

end Alignment

section Pass

variable {output stderr m rest cs t : List Char} {c : Char}

/-- What a marker is replaced by. -/
def valueOf (output stderr m : List Char) : List Char :=
  if m = outputMarker then output else stderr

@[simp] lemma interpolateFrom_drop (t cs : List Char) :
    interpolateFrom output stderr t.length (t ++ cs) = interpolateFrom output stderr 0 cs := by
  induction t with
  | nil => rfl
  | cons c t ih => exact ih

@[simp] lemma replaceMarkers_drop (t cs : List Char) :
    replaceMarkers output stderr t.length (t ++ cs) = replaceMarkers output stderr 0 cs := by
  induction t with
  | nil => rfl
  | cons c t ih => exact ih

lemma interpolateFrom_marker (hm : IsMarker m) :
    interpolateFrom output stderr 0 (m ++ rest) =
      valueOf output stderr m ++ interpolateFrom output stderr 0 rest := by
  obtain ⟨t, hshape, _, _, hlength⟩ := hm.shape
  have hpre : m.isPrefixOf (m ++ rest) = true :=
    List.isPrefixOf_iff_prefix.mpr (List.prefix_append m rest)
  have htail : 11 = ('{' :: t).length := by rw [List.length_cons, hlength]
  rcases hm with rfl | rfl
  · rw [hshape, List.cons_append, interpolateFrom, ← List.cons_append, ← hshape, if_pos hpre, htail,
      interpolateFrom_drop]
    rfl
  · have hother : outputMarker.isPrefixOf (stderrMarker ++ rest) = false := rfl
    rw [hshape, List.cons_append, interpolateFrom, ← List.cons_append, ← hshape, hother,
      if_neg nofun, if_pos hpre, htail, interpolateFrom_drop]
    rfl

lemma replaceMarkers_marker (hm : IsMarker m) :
    replaceMarkers output stderr 0 (m ++ rest) =
      valueOf output stderr m ++ replaceMarkers output stderr 0 rest := by
  obtain ⟨t, hshape, _, _, hlength⟩ := hm.shape
  have hpre : m.isPrefixOf (m ++ rest) = true :=
    List.isPrefixOf_iff_prefix.mpr (List.prefix_append m rest)
  have htail : 11 = ('{' :: t).length := by rw [List.length_cons, hlength]
  rcases hm with rfl | rfl
  · rw [hshape, List.cons_append, replaceMarkers, ← List.cons_append, ← hshape, if_pos hpre, htail,
      replaceMarkers_drop]
    rfl
  · have hother : outputMarker.isPrefixOf (stderrMarker ++ rest) = false := rfl
    rw [hshape, List.cons_append, replaceMarkers, ← List.cons_append, ← hshape, hother,
      if_neg nofun, if_pos hpre, htail, replaceMarkers_drop]
    rfl

lemma interpolateFrom_pair (h : ¬ MarkerAhead ('{' :: '{' :: cs)) :
    interpolateFrom output stderr 0 ('{' :: '{' :: cs) =
      '{' :: '{' :: interpolateFrom output stderr 0 cs := by
  rw [markerAhead_iff, not_or] at h
  rw [interpolateFrom, if_neg h.1, if_neg h.2]
  rfl

lemma not_markerAhead_of_pair (h : ['{', '{'].isPrefixOf cs = false) : ¬ MarkerAhead cs := by
  rintro ⟨m, hm, hpre⟩
  obtain ⟨t, rfl, _⟩ := hm.shape
  have hpair : ['{', '{'] <+: '{' :: '{' :: t := ⟨t, rfl⟩
  rw [← Bool.not_eq_true, List.isPrefixOf_iff_prefix] at h
  exact h (hpair.trans hpre)

lemma interpolateFrom_single (h : ['{', '{'].isPrefixOf (c :: cs) = false) :
    interpolateFrom output stderr 0 (c :: cs) = c :: interpolateFrom output stderr 0 cs := by
  have hahead := not_markerAhead_of_pair h
  rw [markerAhead_iff, not_or] at hahead
  rw [interpolateFrom, if_neg hahead.1, if_neg hahead.2, h, if_neg nofun]

lemma replaceMarkers_cons (h : ¬ MarkerAhead (c :: cs)) :
    replaceMarkers output stderr 0 (c :: cs) = c :: replaceMarkers output stderr 0 cs := by
  rw [markerAhead_iff, not_or] at h
  rw [replaceMarkers, if_neg h.1, if_neg h.2]

/-- The places where the pass stops: at a marker, at a pair of braces that begins none, or at
another character. -/
lemma pass_induction {P : List Char → Prop} (nil : P [])
    (marker : ∀ m rest, IsMarker m → P rest → P (m ++ rest))
    (pair : ∀ cs, ¬ MarkerAhead ('{' :: '{' :: cs) → P cs → (∀ m rest, IsMarker m →
      '{' :: cs = m ++ rest → P rest) → P ('{' :: '{' :: cs))
    (single : ∀ c cs, ['{', '{'].isPrefixOf (c :: cs) = false → P cs → P (c :: cs))
    (cs : List Char) : P cs := by
  induction hn : cs.length using Nat.strong_induction_on generalizing cs with
  | _ n ih =>
      subst hn
      cases cs with
      | nil => exact nil
      | cons c cs =>
          by_cases hahead : MarkerAhead (c :: cs)
          · obtain ⟨m, hm, rest, hrest⟩ := hahead
            obtain ⟨t, hshape, _⟩ := hm.shape
            rw [← hrest]
            refine marker m rest hm (ih rest.length ?_ rest rfl)
            rw [← hrest, hshape]
            simp
            omega
          · cases hpair : ['{', '{'].isPrefixOf (c :: cs) with
            | false => exact single c cs hpair (ih cs.length (Nat.lt_succ_self _) cs rfl)
            | true =>
                obtain ⟨cs', hcs'⟩ := List.isPrefixOf_iff_prefix.mp hpair
                simp only [List.cons_append, List.nil_append] at hcs'
                obtain ⟨rfl, rfl⟩ := List.cons.inj hcs'
                refine pair cs' hahead (ih cs'.length ?_ cs' rfl) fun m rest hm hsplit => ?_
                · simp only [List.length_cons]
                  omega
                refine ih rest.length ?_ rest rfl
                have hlength := congrArg List.length hsplit
                simp only [List.length_cons, List.length_append] at hlength ⊢
                omega

/-- When every marker is at an even place the pass replaces them all. -/
lemma interpolateFrom_of_aligned (h : AlignedFrom false cs) :
    interpolateFrom output stderr 0 cs = replaceMarkers output stderr 0 cs := by
  induction cs using pass_induction with
  | nil => rfl
  | marker m rest hm ih =>
      rw [interpolateFrom_marker hm, replaceMarkers_marker hm, ih ((alignedFrom_marker hm).mp h)]
  | pair cs hahead ih _ =>
      obtain ⟨hnext, hrest⟩ := alignedFrom_pair.mp h
      rw [interpolateFrom_pair hahead, replaceMarkers_cons hahead, replaceMarkers_cons hnext,
        ih hrest]
  | single c cs hpair ih =>
      rw [interpolateFrom_single hpair, replaceMarkers_cons (not_markerAhead_of_pair hpair),
        ih ((alignedFrom_single hpair).mp h)]

lemma interpolateFrom_text (ht : '{' ∉ t) (rest : List Char) :
    interpolateFrom output stderr 0 (t ++ rest) = t ++ interpolateFrom output stderr 0 rest := by
  induction t with
  | nil => rfl
  | cons c t ih =>
      have hc : c ≠ '{' := fun heq => ht (heq ▸ List.mem_cons_self)
      have htail : '{' ∉ t := fun hmem => ht (List.mem_cons_of_mem _ hmem)
      have hpair : ['{', '{'].isPrefixOf (c :: (t ++ rest)) = false := by
        simp [List.isPrefixOf, Ne.symm hc]
      rw [List.cons_append, interpolateFrom_single hpair, ih htail, List.cons_append]

/-- With nothing in the place of the markers, the pass leaves a longer text when it misses one. -/
lemma length_replaceMarkers (cs : List Char) :
    (replaceMarkers [] [] 0 cs).length ≤ (interpolateFrom [] [] 0 cs).length ∧
      (¬ AlignedFrom false cs →
        (replaceMarkers [] [] 0 cs).length < (interpolateFrom [] [] 0 cs).length) := by
  have hvalue : ∀ m, valueOf [] [] m = [] := by
    intro m
    exact ite_self _
  induction cs using pass_induction with
  | nil =>
      refine ⟨Nat.le_refl _, fun hnot => (hnot ?_).elim⟩
      intro before m after hm hsplit
      obtain ⟨t, rfl, _⟩ := hm.shape
      simp at hsplit
  | marker m rest hm ih =>
      rw [interpolateFrom_marker hm, replaceMarkers_marker hm, hvalue, alignedFrom_marker hm]
      exact ih
  | pair cs hahead ih hmarker =>
      rw [interpolateFrom_pair hahead, replaceMarkers_cons hahead, alignedFrom_pair]
      by_cases hnext : MarkerAhead ('{' :: cs)
      · obtain ⟨m, hm, rest, hrest⟩ := hnext
        have hle := (hmarker m rest hm hrest.symm).1
        obtain ⟨t, hshape, hne, hno, hlength⟩ := hm.shape
        have hcs : cs = '{' :: (t ++ rest) := by
          rw [hshape, List.cons_append, List.cons_append] at hrest
          exact (List.cons.inj hrest).2.symm
        have hpair : ['{', '{'].isPrefixOf ('{' :: (t ++ rest)) = false := by
          obtain ⟨c, t', rfl⟩ := List.exists_cons_of_ne_nil hne
          have hc : '{' ≠ c := fun heq => hno (heq ▸ List.mem_cons_self)
          simp [List.isPrefixOf, hc]
        have hmissed : (interpolateFrom [] [] 0 cs).length =
            11 + (interpolateFrom [] [] 0 rest).length := by
          rw [hcs, interpolateFrom_single hpair, interpolateFrom_text hno]
          simp only [List.length_cons, List.length_append, hlength]
          omega
        have hreplaced : (replaceMarkers [] [] 0 ('{' :: cs)).length =
            (replaceMarkers [] [] 0 rest).length := by
          rw [← hrest, replaceMarkers_marker hm, hvalue, List.nil_append]
        simp only [List.length_cons, hmissed, hreplaced]
        constructor
        · omega
        · intro _
          omega
      · rw [replaceMarkers_cons hnext]
        simp only [List.length_cons, hnext, not_false_eq_true, true_and]
        refine ⟨by omega, fun hnot => ?_⟩
        have hlt := ih.2 hnot
        omega
  | single c cs hpair ih =>
      rw [interpolateFrom_single hpair, replaceMarkers_cons (not_markerAhead_of_pair hpair),
        alignedFrom_single hpair]
      simp only [List.length_cons]
      refine ⟨by omega, fun hnot => ?_⟩
      have hlt := ih.2 hnot
      omega

end Pass

section Prompt

/-- Every marker of the prompt stands after an even number of opening braces. -/
def Aligned (prompt : String) : Prop :=
  ∀ before m after, IsMarker m → prompt.toList = before ++ m ++ after → Even (openBraces before)

lemma aligned_iff (prompt : String) : Aligned prompt ↔ AlignedFrom false prompt.toList := by
  apply forall_congr'
  intro before
  apply forall_congr'
  intro m
  apply forall_congr'
  intro after
  apply imp_congr_right
  intro _
  apply imp_congr_right
  intro _
  rw [← Bool.not_eq_true, oddBraces_iff, not_not]

/-- The interpolation replaces every marker of a prompt, whatever the output, the error text and
the limit, exactly when none stands after an odd number of opening braces. -/
theorem interpolate_iff (prompt : String) :
    (∀ output stderr maxInputLength,
      interpolateValidationPrompt prompt output stderr maxInputLength =
        replacedPrompt prompt output stderr maxInputLength) ↔ Aligned prompt := by
  rw [aligned_iff]
  constructor
  · intro h
    by_contra hnot
    have hsame := h "" none none
    have hlt := (length_replaceMarkers prompt.toList).2 hnot
    have hlength := congrArg (fun s => s.toList.length) hsame
    simp only [interpolateValidationPrompt, replacedPrompt, truncateOutput, Option.getD_none,
      String.toList_ofList, String.toList_empty] at hlength
    omega
  · intro h output stderr maxInputLength
    rw [interpolateValidationPrompt, interpolateFrom_of_aligned h, replacedPrompt]

/-- With one brace before a marker the marker stays. -/
theorem marker_passed_over :
    interpolateValidationPrompt "check {{{ output }}}" "ok" none none =
        "check {{{ output }}}" ∧
      replacedPrompt "check {{{ output }}}" "ok" none none = "check {ok}" := by
  exact ⟨by decide, by decide⟩

end Prompt

end Loker.ValidationPrompt
