import Loker.TextSearch

/-! The lines of a text: how they are put together, read back, trimmed and searched. -/

namespace Loker.TextLines

open TextOps

/-- Every line with a line end after it. -/
def unlines (ls : List (List Char)) : List Char := ls.flatMap (· ++ ['\n'])

@[simp] lemma unlines_nil : unlines [] = [] := rfl

@[simp] lemma unlines_cons (l : List Char) (ls : List (List Char)) :
    unlines (l :: ls) = l ++ '\n' :: unlines ls := by
  simp [unlines]

@[simp] lemma unlines_append (ls ms : List (List Char)) :
    unlines (ls ++ ms) = unlines ls ++ unlines ms := by
  simp [unlines]

/-- The lines of the list are lines: none has a line end inside. -/
def Plain (ls : List (List Char)) : Prop := ∀ l ∈ ls, '\n' ∉ l

section LineEnds

/-- The line without one `\r` at its end. -/
def dropCR : List Char → List Char
  | [] => []
  | ['\r'] => []
  | c :: cs => c :: dropCR cs

lemma dropCR_cons {c : Char} {cs : List Char} (h : c ≠ '\r' ∨ cs ≠ []) :
    dropCR (c :: cs) = c :: dropCR cs := by
  rw [dropCR]
  rintro rfl rfl
  simp at h

lemma dropCR_sublist (l : List Char) : (dropCR l).Sublist l := by
  induction l using dropCR.induct with
  | case1 => simp [dropCR]
  | case2 => simp [dropCR]
  | case3 c cs hne ih =>
      rw [dropCR]
      · exact ih.cons_cons c
      · exact hne

lemma dropCR_cases (l : List Char) : dropCR l = l ∨ l = dropCR l ++ ['\r'] := by
  induction l using dropCR.induct with
  | case1 => exact Or.inl rfl
  | case2 => exact Or.inr rfl
  | case3 c cs hne ih =>
      have hcons : dropCR (c :: cs) = c :: dropCR cs := by
        rw [dropCR]
        exact hne
      rw [hcons]
      rcases ih with hsame | hcr
      · exact Or.inl (by rw [hsame])
      · exact Or.inr (congrArg (c :: ·) hcr)

lemma prefix_dropCR_iff {p l : List Char} (hp : '\r' ∉ p) : p <+: dropCR l ↔ p <+: l := by
  rcases dropCR_cases l with hsame | hcr
  · rw [hsame]
  · constructor
    · intro h
      rw [hcr]
      exact h.trans (List.prefix_append _ _)
    · intro h
      rw [hcr] at h
      rcases List.prefix_concat_iff.mp h with heq | hpre
      · exact absurd (by simp [heq]) hp
      · exact hpre

/-- Only the end of a text can lose its `\r`. -/
lemma dropCR_append {l : List Char} (h : l.getLast? ≠ some '\r') (t : List Char) :
    dropCR (l ++ t) = l ++ dropCR t := by
  induction l with
  | nil => rfl
  | cons c l ih =>
      cases l with
      | nil =>
          have hc : c ≠ '\r' := by
            intro heq
            rw [heq] at h
            exact h rfl
          exact dropCR_cons (.inl hc)
      | cons d l =>
          rw [List.getLast?_cons_cons] at h
          rw [List.cons_append, dropCR_cons (.inr (by simp)), ih h]
          rfl

lemma dropCR_eq_self {l : List Char} (h : l.getLast? ≠ some '\r') : dropCR l = l := by
  induction l using dropCR.induct with
  | case1 => rfl
  | case2 => simp at h
  | case3 c cs hne ih =>
      rw [dropCR]
      · congr 1
        cases cs with
        | nil => rfl
        | cons d ds => exact ih (by simpa using h)
      · exact hne

lemma normalize_line {l : List Char} (hl : '\n' ∉ l) (rest : List Char) :
    replaceAllFrom ['\r', '\n'] ['\n'] 0 (l ++ '\n' :: rest) =
      dropCR l ++ '\n' :: replaceAllFrom ['\r', '\n'] ['\n'] 0 rest := by
  induction l with
  | nil => simp [replaceAllFrom, dropCR]
  | cons c cs ih =>
      have hcs : '\n' ∉ cs := fun h => hl (List.mem_cons_of_mem _ h)
      by_cases hend : c = '\r' ∧ cs = []
      · obtain ⟨rfl, rfl⟩ := hend
        simp [replaceAllFrom, dropCR]
      · have hor : c ≠ '\r' ∨ cs ≠ [] := by
          by_contra hno
          push Not at hno
          exact hend hno
        have hnot : ¬ (['\r', '\n'].isPrefixOf (c :: (cs ++ '\n' :: rest)) = true) := by
          cases cs with
          | nil =>
              have hc : '\r' ≠ c := fun h => hor.resolve_right (by simp) h.symm
              simp [hc]
          | cons d ds =>
              have hd : d ≠ '\n' := fun h => hcs (by simp [h])
              simp [hd.symm]
        rw [List.cons_append, replaceAllFrom, if_neg hnot, ih hcs, dropCR_cons hor]
        rfl

lemma normalize_last {l : List Char} (hl : '\n' ∉ l) :
    replaceAllFrom ['\r', '\n'] ['\n'] 0 l = l := by
  induction l with
  | nil => rfl
  | cons c cs ih =>
      have hcs : '\n' ∉ cs := fun h => hl (List.mem_cons_of_mem _ h)
      have hnot : ¬ (['\r', '\n'].isPrefixOf (c :: cs) = true) := by
        cases cs with
        | nil => simp
        | cons d ds =>
            have hd : d ≠ '\n' := fun h => hcs (by simp [h])
            simp [hd.symm]
      rw [replaceAllFrom, if_neg hnot, ih hcs]

/-- Writing every line end as `\n` drops one `\r` from each line that has an end. -/
lemma normalize_unlines {ls : List (List Char)} {last : List Char} (hls : Plain ls)
    (hlast : '\n' ∉ last) :
    replaceAllFrom ['\r', '\n'] ['\n'] 0 (unlines ls ++ last) =
      unlines (ls.map dropCR) ++ last := by
  induction ls with
  | nil => simpa using normalize_last hlast
  | cons l ls ih =>
      have hrest : Plain ls := fun m hm => hls m (List.mem_cons_of_mem _ hm)
      have hfirst := normalize_line (hls l List.mem_cons_self) (unlines ls ++ last)
      rw [unlines_cons, List.append_assoc, List.cons_append, hfirst, ih hrest]
      simp

lemma Plain.map_dropCR {ls : List (List Char)} (h : Plain ls) : Plain (ls.map dropCR) := by
  intro m hm
  obtain ⟨l, hl, rfl⟩ := List.mem_map.mp hm
  exact fun hmem => h l hl ((dropCR_sublist l).mem hmem)

end LineEnds

section Split

lemma splitLines_line {l : List Char} (hl : '\n' ∉ l) (rest : List Char) :
    splitLines (l ++ '\n' :: rest) = l :: splitLines rest := by
  induction l with
  | nil => simp [splitLines]
  | cons c cs ih =>
      have hc : c ≠ '\n' := fun h => hl (by simp [h])
      have hcs : '\n' ∉ cs := fun h => hl (List.mem_cons_of_mem _ h)
      simp [splitLines, hc, ih hcs]

lemma splitLines_last {l : List Char} (hl : '\n' ∉ l) (hne : l ≠ []) : splitLines l = [l] := by
  induction l with
  | nil => exact absurd rfl hne
  | cons c cs ih =>
      have hc : c ≠ '\n' := fun h => hl (by simp [h])
      have hcs : '\n' ∉ cs := fun h => hl (List.mem_cons_of_mem _ h)
      rcases eq_or_ne cs [] with rfl | hne
      · simp [splitLines, hc]
      · simp [splitLines, hc, ih hcs hne]

/-- Lines put together are read back. -/
lemma splitLines_unlines {ls : List (List Char)} {last : List Char} (hls : Plain ls)
    (hlast : '\n' ∉ last) (hne : last ≠ []) :
    splitLines (unlines ls ++ last) = ls ++ [last] := by
  induction ls with
  | nil => simpa using splitLines_last hlast hne
  | cons l ls ih =>
      have hrest : Plain ls := fun m hm => hls m (List.mem_cons_of_mem _ hm)
      have hfirst := splitLines_line (hls l List.mem_cons_self) (unlines ls ++ last)
      rw [unlines_cons, List.append_assoc, List.cons_append, hfirst, ih hrest]
      simp

lemma splitLines_append (s t : List Char) :
    splitLines (s ++ '\n' :: t) = splitLines (s ++ ['\n']) ++ splitLines t := by
  induction s with
  | nil => simp [splitLines]
  | cons c cs ih =>
      by_cases hc : c = '\n'
      · simp [splitLines, hc, ih]
      · rw [List.cons_append, List.cons_append, splitLines, splitLines, if_neg hc, if_neg hc, ih]
        cases hcs : splitLines (cs ++ ['\n']) with
        | nil =>
            have hne : splitLines (cs ++ ['\n']) ≠ [] := by
              cases cs with
              | nil => simp [splitLines]
              | cons d ds =>
                  rw [List.cons_append, splitLines]
                  split
                  · simp
                  · split <;> simp
            exact absurd hcs hne
        | cons l ls => rfl

/-- A text that begins with the pattern has a first line that does. -/
lemma splitLines_prefix {p : List Char} (hp : '\n' ∉ p) (hne : p ≠ []) (t : List Char) :
    ∃ l ls, splitLines (p ++ t) = l :: ls ∧ p <+: l := by
  induction p with
  | nil => exact absurd rfl hne
  | cons c cs ih =>
      have hc : c ≠ '\n' := fun h => hp (by simp [h])
      have hcs : '\n' ∉ cs := fun h => hp (List.mem_cons_of_mem _ h)
      rw [List.cons_append, splitLines, if_neg hc]
      rcases eq_or_ne cs [] with rfl | hcsne
      · cases splitLines ([] ++ t) with
        | nil => exact ⟨[c], [], rfl, List.prefix_refl _⟩
        | cons l ls => exact ⟨c :: l, ls, rfl, by simp⟩
      · obtain ⟨l, ls, hsplit, hpre⟩ := ih hcs hcsne
        rw [hsplit]
        exact ⟨c :: l, ls, rfl, (List.prefix_cons_inj c).mpr hpre⟩

/-- What stands after a line end begins a line. -/
lemma mem_splitLines_of_infix {p s : List Char} (hp : '\n' ∉ p) (hne : p ≠ [])
    (h : '\n' :: p <:+: s) : ∃ l ∈ splitLines s, p <+: l := by
  obtain ⟨before, after, rfl⟩ := h
  obtain ⟨l, ls, hsplit, hpre⟩ := splitLines_prefix hp hne after
  have htext : before ++ '\n' :: p ++ after = before ++ '\n' :: (p ++ after) := by simp
  rw [htext, splitLines_append, hsplit]
  exact ⟨l, by simp, hpre⟩

/-- A pattern that begins a line other than the first stands after a line end. -/
lemma infix_of_line {p l : List Char} {before : List (List Char)} (after : List (List Char))
    (last : List Char) (hbefore : before ≠ []) (hl : p <+: l) :
    '\n' :: p <:+: unlines (before ++ l :: after) ++ last := by
  obtain ⟨init, k, rfl⟩ := List.eq_nil_or_concat' before |>.resolve_left hbefore
  obtain ⟨rest, rfl⟩ := hl
  exact ⟨unlines init ++ k, rest ++ '\n' :: unlines after ++ last, by simp⟩

end Split

section Trim

variable {p : Char → Bool} {s t : List Char}

lemma rdropWhile_append (h : ∃ c ∈ t, p c = false) :
    (s ++ t).rdropWhile p = s ++ t.rdropWhile p := by
  obtain ⟨c, hc, hkept⟩ := h
  have hne : t.reverse.dropWhile p ≠ [] := by
    intro hnil
    have hall := List.dropWhile_eq_nil_iff.mp hnil c (List.mem_reverse.mpr hc)
    rw [hkept] at hall
    cases hall
  unfold List.rdropWhile
  rw [List.reverse_append, List.dropWhile_append, if_neg (by simpa using hne)]
  simp

lemma rdropWhile_append_all (h : ∀ c ∈ t, p c = true) :
    (s ++ t).rdropWhile p = s.rdropWhile p := by
  have hnil : t.reverse.dropWhile p = [] :=
    List.dropWhile_eq_nil_iff.mpr fun c hc => h c (List.mem_reverse.mp hc)
  unfold List.rdropWhile
  rw [List.reverse_append, List.dropWhile_append, if_pos (by simp [hnil])]

lemma rdropWhile_ne_nil (h : ∃ c ∈ s, p c = false) : s.rdropWhile p ≠ [] := by
  obtain ⟨c, hc, hkept⟩ := h
  intro hnil
  have hall := List.rdropWhile_eq_nil_iff.mp hnil c hc
  rw [hkept] at hall
  cases hall

def trimEndChars (s : List Char) : List Char := s.rdropWhile isWhiteSpace

lemma toList_trim (s : String) :
    (trim s).toList = trimEndChars (s.toList.dropWhile isWhiteSpace) := by
  simp [trim, trimEndChars, List.rdropWhile]

lemma trimEndChars_idem (s : List Char) : trimEndChars (trimEndChars s) = trimEndChars s :=
  List.rdropWhile_idempotent _ _

lemma trim_trim (s : String) : trim (trim s) = trim s := by
  have hfront : ∀ u : List Char, (trimEndChars (u.dropWhile isWhiteSpace)).dropWhile isWhiteSpace =
      trimEndChars (u.dropWhile isWhiteSpace) := by
    intro u
    cases hv : trimEndChars (u.dropWhile isWhiteSpace) with
    | nil => rfl
    | cons c cs =>
        obtain ⟨rest, hrest⟩ := List.rdropWhile_prefix isWhiteSpace (u.dropWhile isWhiteSpace)
        rw [show (u.dropWhile isWhiteSpace).rdropWhile isWhiteSpace = c :: cs from hv] at hrest
        have hdark := List.head?_dropWhile_not isWhiteSpace u
        rw [← hrest] at hdark
        have hc : isWhiteSpace c = false := by simpa using hdark
        exact List.dropWhile_cons_of_neg (by simp [hc])
  rw [← String.toList_inj, toList_trim, toList_trim, hfront, trimEndChars_idem]

lemma trimEndChars_dropCR (l : List Char) : trimEndChars (dropCR l) = trimEndChars l := by
  rcases dropCR_cases l with hsame | hcr
  · rw [hsame]
  · have hwhite : ∀ c ∈ ['\r'], isWhiteSpace c = true := by simp [isWhiteSpace]
    have h := rdropWhile_append_all (s := dropCR l) hwhite
    rw [← hcr] at h
    exact h.symm

lemma trim_dropCR (l : List Char) : trim (String.ofList (dropCR l)) = trim (String.ofList l) := by
  rw [← String.toList_inj, toList_trim, toList_trim, String.toList_ofList, String.toList_ofList]
  have hwhite : ∀ c ∈ ['\r'], isWhiteSpace c = true := by simp [isWhiteSpace]
  rcases dropCR_cases l with hsame | hcr
  · rw [hsame]
  · have hdrop : l.dropWhile isWhiteSpace =
        if ((dropCR l).dropWhile isWhiteSpace).isEmpty then ['\r'].dropWhile isWhiteSpace
        else (dropCR l).dropWhile isWhiteSpace ++ ['\r'] := by
      conv_lhs => rw [hcr]
      exact List.dropWhile_append
    rw [hdrop]
    split
    · next hempty =>
      rw [List.isEmpty_iff.mp hempty, List.dropWhile_eq_nil_iff.mpr hwhite]
    · exact (rdropWhile_append_all hwhite).symm

lemma dark_dropCR {l : List Char} (h : ∃ c ∈ l, isWhiteSpace c = false) :
    ∃ c ∈ dropCR l, isWhiteSpace c = false := by
  obtain ⟨c, hc, hdark⟩ := h
  rcases dropCR_cases l with hsame | hcr
  · exact ⟨c, by rwa [hsame], hdark⟩
  · rw [hcr, List.mem_append, List.mem_singleton] at hc
    rcases hc with hc | rfl
    · exact ⟨c, hc, hdark⟩
    · simp [isWhiteSpace] at hdark

lemma isWhiteSpace_of_isAlpha {c : Char} (h : c.isAlpha = true) : isWhiteSpace c = false := by
  have hrange : (65 ≤ c.toNat ∧ c.toNat ≤ 90) ∨ (97 ≤ c.toNat ∧ c.toNat ≤ 122) := by
    simpa [Char.isAlpha, Char.isUpper, Char.isLower, UInt32.le_iff_toNat_le] using h
  simp only [isWhiteSpace, Bool.or_eq_false_iff, Bool.and_eq_false_iff, decide_eq_false_iff_not]
  omega

/-- White space at the end of a text takes its last lines away and shortens the last one left. -/
lemma trimEndChars_unlines {ls blanks : List (List Char)} {l : List Char}
    (hl : ∃ c ∈ l, isWhiteSpace c = false)
    (hblanks : ∀ m ∈ blanks, ∀ c ∈ m, isWhiteSpace c = true) :
    trimEndChars (unlines (ls ++ l :: blanks)) = unlines ls ++ trimEndChars l := by
  have hwhite : ∀ c ∈ '\n' :: unlines blanks, isWhiteSpace c = true := by
    intro c hc
    rcases List.mem_cons.mp hc with rfl | hc
    · decide
    · obtain ⟨m, hm, hcm⟩ := List.mem_flatMap.mp hc
      rcases List.mem_append.mp hcm with hcm | hcm
      · exact hblanks m hm c hcm
      · rw [List.mem_singleton.mp hcm]
        decide
  rw [unlines_append, unlines_cons, ← List.append_assoc]
  unfold trimEndChars
  rw [rdropWhile_append_all hwhite, rdropWhile_append hl]

end Trim

end Loker.TextLines
