import Loker.RedactedSecrets

/-! Redacted text holds nothing that the passes would redact again. -/

namespace Loker.RedactedOutput

open MatchScan PatternRuns SecretPatterns RedactedSecrets

section Places

variable {isWord : Char → Bool} {u : List Char} {c : Char} {i j s : ℕ} {m : Match}

/-- What the patterns see of the output. -/
def outText (isWord : Char → Bool) (u : List Char) : List Char :=
  marking.chars (redactedPlaces isWord u)

lemma getElem?_outText (i : ℕ) : (outText isWord u)[i]? =
    if taken (secretHeuristic isWord) (formsText u) i then
      if (found (secretHeuristic isWord) (formsText u) i).any (fun (s, m) => i = s + m.kept) then
        some ' '
      else some ']'
    else (formsText u)[i]? :=
  chars_masked_after (k := marking) (M := withoutForms u) fits_secretHeuristic i

/-- A place where the last pass has put its blank. -/
def Blank (isWord : Char → Bool) (u : List Char) (i : ℕ) : Prop :=
  ∃ s m, found (secretHeuristic isWord) (formsText u) i = some (s, m) ∧ i = s + m.kept

/-- Another character than the bracket is a blank or was there before the last pass. -/
lemma out_cases (hc : (outText isWord u)[i]? = some c) (hne : c ≠ ']') :
    (taken (secretHeuristic isWord) (formsText u) i = false ∧ (formsText u)[i]? = some c) ∨
      (c = ' ' ∧ Blank isWord u i) := by
  rw [getElem?_outText] at hc
  cases htaken : taken (secretHeuristic isWord) (formsText u) i with
  | false =>
      rw [htaken] at hc
      exact .inl ⟨rfl, hc⟩
  | true =>
      rw [htaken, if_pos rfl] at hc
      split at hc
      · next hfirst =>
        obtain ⟨⟨s, m⟩, hfound, heq⟩ := (Option.any_eq_true _ _).mp hfirst
        exact .inr ⟨(Option.some.inj hc).symm, s, m, hfound, of_decide_eq_true heq⟩
      · exact absurd (Option.some.inj hc).symm hne

/-- A blank stands between a letter of the pattern's word and a mark. -/
lemma blank_between (h : Blank isWord u i) : (outText isWord u)[i + 1]? = some ']' ∧
    ∃ j d, i = j + 1 ∧ (outText isWord u)[j]? = some d ∧ isSeparator d = false := by
  obtain ⟨s, m, hfound, rfl⟩ := h
  obtain ⟨_, hlt, hmatch, hstart⟩ := found_spec fits_secretHeuristic hfound
  obtain ⟨hword, hkept, hpassed, hvalue⟩ := secretHeuristic_word hmatch
  constructor
  · have hnext := found_within hstart (j := s + m.kept + 1) (by omega) (by
      rw [Match.length]
      omega)
    rw [getElem?_outText, taken, hnext, Option.any_some, Option.any_some, if_pos (by simp),
      if_neg (by simp)]
  · obtain ⟨n, hn⟩ := Nat.exists_eq_succ_of_ne_zero hkept.ne'
    have hprev := found_within hstart (j := s + n) (by omega) (by
      rw [Match.length]
      omega)
    obtain ⟨d, hd, hchar⟩ := wordAt_char isWordChar (i := n) (by decide) hword (by omega)
    rw [List.getElem?_drop] at hd
    refine ⟨s + n, d, by omega, ?_, ?_⟩
    · rw [getElem?_outText, taken, hprev, Option.any_some, if_neg (by simp; omega), hd]
    · cases hsep : isSeparator d with
      | false => rfl
      | true =>
          rw [not_wordChar_of_separator hsep] at hchar
          cases hchar

/-- A character that was there before the last pass was there from the begin. -/
lemma formsText_of_ne (hc : (formsText u)[i]? = some c) (hne : c ≠ ']') :
    (valuesText u)[i]? = some c ∧ (keysText u)[i]? = some c ∧ u[i]? = some c := by
  have hvalues : (valuesText u)[i]? = some c := by
    rw [getElem?_formsText] at hc
    split at hc
    · exact absurd (Option.some.inj hc).symm hne
    · exact hc
  have hkeys : (keysText u)[i]? = some c := by
    rw [getElem?_valuesText] at hvalues
    split at hvalues
    · exact absurd (Option.some.inj hvalues).symm hne
    · exact hvalues
  exact ⟨hvalues, hkeys, (keysText_of_ne hkeys hne) ▸ hkeys⟩

end Places

section NoMatch

variable {isWord : Char → Bool} {u : List Char} {i : ℕ} {m : Match}

lemma no_key (i : ℕ) : matchAt awsKey (outText isWord u) i = none := by
  cases hmatch : matchAt awsKey (outText isWord u) i with
  | none => rfl
  | some m =>
      exfalso
      have hplace : ∀ j < m.length, ∃ c, ((outText isWord u).drop i)[j]? = some c ∧ c ≠ ']' ∧
          (formsText u)[i + j]? = some c := by
        intro j hj
        obtain ⟨c, hc, hkey⟩ := awsKey_char hmatch hj
        have hne : c ≠ ']' := by
          rintro rfl
          revert hkey
          decide
        rw [List.getElem?_drop] at hc ⊢
        rcases out_cases hc hne with ⟨_, hforms⟩ | ⟨rfl, _⟩
        · exact ⟨c, hc, hne, hforms⟩
        · exact absurd hkey (by decide)
      have hpos := (fits_awsKey _ _ _ hmatch).1
      have hinput : matchAt awsKey u i = some m := by
        apply awsKey_congr hmatch
        intro j hj
        obtain ⟨c, hc, hne, hforms⟩ := hplace j hj
        rw [hc, List.getElem?_drop, (formsText_of_ne hforms hne).2.2]
      obtain ⟨s, m', hfound⟩ := found_of_matchAt hinput
      obtain ⟨hle, _, hmatch', _⟩ := found_spec fits_awsKey hfound
      have htaken : taken awsKey u i = true := by
        obtain ⟨n, _, _, hm⟩ := awsKey_eq_some hmatch'
        exact taken_iff.mpr ⟨s, m', hfound, by rw [hm]; exact hle⟩
      obtain ⟨c, hc, hne, hforms⟩ := hplace 0 hpos
      have hkeys := (formsText_of_ne hforms hne).2.1
      rw [getElem?_keysText, Nat.add_zero, htaken] at hkeys
      exact hne (Option.some.inj hkeys).symm

lemma no_form (i : ℕ) : matchAt bearer (outText isWord u) i = none := by
  cases hmatch : matchAt bearer (outText isWord u) i with
  | none => rfl
  | some m =>
      exfalso
      have hlt := bearer_passed_lt hmatch
      -- a blank would stand in the lead, and the mark after it in the form
      have hplace : ∀ j ≤ m.passed, ∃ c, ((outText isWord u).drop i)[j]? = some c ∧ c ≠ ']' ∧
          (formsText u)[i + j]? = some c := by
        intro j hj
        obtain ⟨c, hc, hne⟩ := bearer_char hmatch (i := j) (by omega)
        refine ⟨c, hc, hne, ?_⟩
        rw [List.getElem?_drop] at hc
        rcases out_cases hc hne with ⟨_, hforms⟩ | ⟨rfl, hblank⟩
        · exact hforms
        · exfalso
          rcases Nat.lt_or_eq_of_le hj with hin | rfl
          · obtain ⟨d, hd, hnext⟩ := bearer_char hmatch (i := j + 1) (by omega)
            rw [List.getElem?_drop, ← Nat.add_assoc, (blank_between hblank).1] at hd
            exact hnext (Option.some.inj hd).symm
          · have htoken := bearer_token hmatch le_rfl hlt
            rw [List.getElem?_drop, hc] at htoken
            revert htoken
            decide
      have hvalues : ∀ j ≤ m.passed, ((valuesText u).drop i)[j]? =
          ((outText isWord u).drop i)[j]? := by
        intro j hj
        obtain ⟨c, hc, hne, hforms⟩ := hplace j hj
        rw [hc, List.getElem?_drop, (formsText_of_ne hforms hne).1]
      have hinput : matchAt bearer (valuesText u) i = some _ :=
        bearer_congr hmatch (fun j hj => hvalues j hj.le) (by
          rw [hvalues _ le_rfl]
          exact bearer_token hmatch le_rfl hlt)
      obtain ⟨s, m', hfound⟩ := found_of_matchAt hinput
      obtain ⟨hle, _, hmatch', _⟩ := found_spec fits_bearer hfound
      have htaken : taken bearer (valuesText u) i = true :=
        taken_iff.mpr ⟨s, m', hfound, by rw [bearer_kept hmatch']; omega⟩
      obtain ⟨c, _, hne, hforms⟩ := hplace 0 (Nat.zero_le _)
      rw [getElem?_formsText, Nat.add_zero, htaken] at hforms
      exact hne (Option.some.inj hforms).symm

/-- Before a place that stays and could go on a value, the last pass changes nothing. -/
lemma charBefore_formsText (hhere : taken (secretHeuristic isWord) (formsText u) i = false)
    (hsecret : (formsText u)[i]?.any isSecretChar = true) :
    charBefore (formsText u) i = charBefore (outText isWord u) i := by
  cases i with
  | zero => rfl
  | succ i =>
      rw [charBefore, charBefore, getElem?_outText]
      cases htaken : taken (secretHeuristic isWord) (formsText u) i with
      | false => rfl
      | true =>
          exfalso
          obtain ⟨s, m, hfound, hkept⟩ := taken_iff.mp htaken
          obtain ⟨_, hlt, hmatch, _⟩ := found_spec fits_secretHeuristic hfound
          rcases Nat.lt_or_ge (i + 1) (s + m.length) with hin | hout
          · have hnext := found_within hfound (Nat.le_succ i) hin
            rw [taken_iff.mpr ⟨s, m, hnext, by omega⟩] at hhere
            cases hhere
          · have hend := secretHeuristic_end hmatch
            have hplace : s + m.length = i + 1 := by omega
            rw [List.getElem?_drop, hplace, hsecret] at hend
            cases hend

lemma no_heuristic (i : ℕ) : matchAt (secretHeuristic isWord) (outText isWord u) i = none := by
  cases hmatch : matchAt (secretHeuristic isWord) (outText isWord u) i with
  | none => rfl
  | some m =>
      exfalso
      obtain ⟨hword, hkept, hpassed, hvalue⟩ := secretHeuristic_word hmatch
      have hlength : m.length = m.kept + m.passed + m.value := rfl
      have hplace : ∀ j < m.kept + m.passed + 32, ∃ c,
          ((outText isWord u).drop i)[j]? = some c ∧ c ≠ ']' ∧
          taken (secretHeuristic isWord) (formsText u) (i + j) = false ∧
          (formsText u)[i + j]? = some c := by
        intro j hj
        obtain ⟨c, hc, hne⟩ := secretHeuristic_char hmatch (i := j) (by omega)
        refine ⟨c, hc, hne, ?_⟩
        rw [List.getElem?_drop] at hc
        rcases out_cases hc hne with hforms | ⟨rfl, hblank⟩
        · exact hforms
        · exfalso
          rcases Nat.lt_or_ge j (m.kept + m.passed) with hin | hout
          · obtain ⟨d, hd, hnext⟩ := secretHeuristic_char hmatch (i := j + 1) (by omega)
            rw [List.getElem?_drop, ← Nat.add_assoc, (blank_between hblank).1] at hd
            exact hnext (Option.some.inj hd).symm
          · have hsecret := secretHeuristic_value hmatch hout (by omega)
            rw [List.getElem?_drop, hc] at hsecret
            exact absurd hsecret (by decide)
      have hforms : ∀ j < m.kept + m.passed + 32, ((formsText u).drop i)[j]? =
          ((outText isWord u).drop i)[j]? := by
        intro j hj
        obtain ⟨c, hc, _, _, hat⟩ := hplace j hj
        rw [hc, List.getElem?_drop, hat]
      obtain ⟨m', hinput, hkept'⟩ := secretHeuristic_congr hmatch hforms
      have hhere := (hplace 0 (by omega)).choose_spec.2.2.1
      rw [Nat.add_zero] at hhere
      have hfirst := secretHeuristic_first hinput
      rw [List.getElem?_drop, Nat.add_zero] at hfirst
      rw [← charBefore_formsText hhere hfirst] at hinput
      have hmatch' : matchAt (secretHeuristic isWord) (formsText u) i = some m' := hinput
      obtain ⟨s, m₀, hfound⟩ := found_of_matchAt hmatch'
      obtain ⟨hle, hlt, hmatch₀, _⟩ := found_spec fits_secretHeuristic hfound
      rcases Nat.lt_or_ge i (s + m₀.kept) with hword₀ | htaken
      swap
      · rw [taken_iff.mpr ⟨s, m₀, hfound, htaken⟩] at hhere
        cases hhere
      rcases Nat.lt_or_eq_of_le hle with hbefore | rfl
      · have hnone := secretHeuristic_within hmatch₀ (i := i - s) (by omega) (by omega)
        rw [List.drop_drop, Nat.add_sub_cancel' hle, (secretHeuristic_word hinput).1] at hnone
        cases hnone
      · rw [hmatch'] at hmatch₀
        obtain rfl := Option.some.inj hmatch₀
        -- its separators were taken, and stand in the output as they were
        have hwithin := found_within hfound (j := s + m'.kept) (by omega) (by
          rw [Match.length]
          have hpos := (secretHeuristic_word hmatch').2.2.1
          omega)
        have hseparator := (hplace m.kept (by omega)).choose_spec.2.2.1
        rw [← hkept', taken_iff.mpr ⟨s, m', hwithin, le_rfl⟩] at hseparator
        cases hseparator

end NoMatch

section Values

variable {isWord : Char → Bool} {u : List Char} {i j s : ℕ} {m : Match}

/-- A taken value stays taken: the later patterns hold no bracket. -/
lemma bracket_stays (isWord : Char → Bool) (h : (valuesText u)[i]? = some ']') :
    found bearer (valuesText u) i = none ∧
      found (secretHeuristic isWord) (formsText u) i = none ∧
        (outText isWord u)[i]? = some ']' := by
  have hbearer : found bearer (valuesText u) i = none := by
    cases hfound : found bearer (valuesText u) i with
    | none => rfl
    | some sm =>
        obtain ⟨hmatch, _, hlt, hat⟩ := char_of_found fits_bearer hfound
        obtain ⟨c, hc, hne⟩ := bearer_char hmatch hlt
        rw [hat, h] at hc
        exact absurd (Option.some.inj hc).symm hne
  have hforms : (formsText u)[i]? = some ']' := by
    rw [getElem?_formsText, taken, hbearer, h]
    rfl
  have hheuristic : found (secretHeuristic isWord) (formsText u) i = none := by
    cases hfound : found (secretHeuristic isWord) (formsText u) i with
    | none => rfl
    | some sm =>
        obtain ⟨hmatch, _, hlt, hat⟩ := char_of_found fits_secretHeuristic hfound
        obtain ⟨c, hc, hne⟩ := secretHeuristic_char hmatch hlt
        rw [hat, hforms] at hc
        exact absurd (Option.some.inj hc).symm hne
  refine ⟨hbearer, hheuristic, ?_⟩
  rw [getElem?_outText, taken, hheuristic, hforms]
  rfl

/-- The lead of an assignment in the output was there before the last pass. -/
lemma lead_formsText (hmatch : matchAt keyValue (outText isWord u) s = some m) (hj : j < m.kept) :
    ∃ c, (outText isWord u)[s + j]? = some c ∧ c ≠ ']' ∧
      taken (secretHeuristic isWord) (formsText u) (s + j) = false ∧
      (formsText u)[s + j]? = some c := by
  obtain ⟨c, hc, hchar⟩ := keyValue_leadChar hmatch hj
  have hne := ne_bracket_of_lead hchar
  have hout : (outText isWord u)[s + j]? = some c := by
    rwa [List.getElem?_drop] at hc
  refine ⟨c, hout, hne, ?_⟩
  rcases out_cases hout hne with hforms | ⟨rfl, hblank⟩
  · exact hforms
  · exfalso
    obtain ⟨hmark, p, d, hp, hd, hsep⟩ := blank_between hblank
    rcases Nat.lt_or_ge (j + 1) m.kept with hlt | hge
    · obtain ⟨e, he, hchar'⟩ := keyValue_leadChar hmatch hlt
      rw [List.getElem?_drop, ← Nat.add_assoc, hmark] at he
      exact ne_bracket_of_lead hchar' (Option.some.inj he).symm
    · obtain ⟨p', e, hp', he, hsep'⟩ := keyValue_blank hmatch (i := j) (by omega) hc
      have hplace : s + p' = p := by omega
      rw [List.getElem?_drop, hplace, hd] at he
      rw [← Option.some.inj he, hsep] at hsep'
      cases hsep'

/-- A place that the second pass takes has a character of a value. -/
lemma valueChar_of_taken (h : taken keyValue (keysText u) i = true) :
    (keysText u)[i]?.any isValueChar = true := by
  obtain ⟨s, m, hfound, hkept⟩ := taken_iff.mp h
  obtain ⟨hmatch, _, hlt, hat⟩ := char_of_found fits_keyValue hfound
  rw [← hat]
  exact keyValue_valueChar hmatch (by omega) hlt

/-- The value of an assignment in the output begins where one could begin before the second pass. -/
lemma first_keysText (hmatch : matchAt keyValue (outText isWord u) s = some m) :
    (keysText u)[s + m.kept]?.any isValueChar = true := by
  obtain ⟨n, hn, _⟩ := keyValue_lead hmatch
  obtain ⟨b, hb⟩ : ∃ b, m.kept = b + 1 := ⟨m.kept - 1, by omega⟩
  obtain ⟨d, _, hne, hstays, hlast⟩ := lead_formsText hmatch (j := b) (by omega)
  have hplace : s + m.kept = s + b + 1 := by omega
  obtain ⟨hm, hpos⟩ := keyValue_value hmatch
  have hvalue : (outText isWord u)[s + m.kept]?.any isValueChar = true := by
    rw [← List.getElem?_drop]
    apply any_of_run
    rw [hm] at hpos
    exact hpos
  obtain ⟨c, hc, hp⟩ := (Option.any_eq_true _ _).mp hvalue
  by_cases hbracket : c = ']'
  · -- a bracket was put there by some pass: the last two would have taken the place before it
    subst hbracket
    have hheuristic : taken (secretHeuristic isWord) (formsText u) (s + m.kept) = false := by
      cases htaken : taken (secretHeuristic isWord) (formsText u) (s + m.kept) with
      | false => rfl
      | true =>
          obtain ⟨s', m', hfound, hkept⟩ := taken_iff.mp htaken
          obtain ⟨_, _, _, hstart⟩ := found_spec fits_secretHeuristic hfound
          have hne : s + m.kept ≠ s' + m'.kept := by
            intro heq
            rw [getElem?_outText, htaken, if_pos rfl, hfound, Option.any_some,
              if_pos (decide_eq_true heq)] at hc
            cases hc
          have hwithin := found_within hstart (j := s + b) (by omega) (by
            have hlt := (found_spec fits_secretHeuristic hfound).2.1
            omega)
          rw [taken_iff.mpr ⟨s', m', hwithin, by omega⟩] at hstays
          cases hstays
    rw [getElem?_outText, hheuristic] at hc
    have hforms : (formsText u)[s + m.kept]? = some ']' := hc
    rw [getElem?_formsText] at hforms
    cases hbearer : taken bearer (valuesText u) (s + m.kept) with
    | true =>
        obtain ⟨s', m', hfound, _⟩ := taken_iff.mp hbearer
        obtain ⟨hle, hlt, hmatch', hstart⟩ := found_spec fits_bearer hfound
        rcases Nat.lt_or_eq_of_le hle with hbefore | rfl
        · have hwithin := found_within hstart (j := s + b) (by omega) (by omega)
          have htaken : taken bearer (valuesText u) (s + b) = true :=
            taken_iff.mpr ⟨s', m', hwithin, by rw [bearer_kept hmatch']; omega⟩
          rw [getElem?_formsText, htaken] at hlast
          exact absurd (Option.some.inj hlast).symm hne
        · have hfirst := bearer_first hmatch'
          rw [List.getElem?_drop, Nat.add_zero, getElem?_valuesText] at hfirst
          split at hfirst
          · next htaken => exact valueChar_of_taken htaken
          · exact hfirst
    | false =>
        rw [hbearer] at hforms
        have hvalues : (valuesText u)[s + m.kept]? = some ']' := hforms
        rw [getElem?_valuesText] at hvalues
        split at hvalues
        · next htaken => exact valueChar_of_taken htaken
        · rw [hvalues]
          rfl
  · rcases out_cases hc hbracket with ⟨_, hforms⟩ | ⟨rfl, _⟩
    · rw [(formsText_of_ne hforms hbracket).2.1]
      exact hp
    · exact absurd hp (by decide)

/-- An assignment in the output was found by the second pass, with the lead it has. -/
lemma found_keys (hmatch : matchAt keyValue (outText isWord u) s = some m) : ∃ m',
    found keyValue (keysText u) s = some (s, m') ∧ m'.kept = m.kept := by
  have hlead : ∀ j < m.kept, ((keysText u).drop s)[j]? = ((outText isWord u).drop s)[j]? := by
    intro j hj
    obtain ⟨c, hc, hne, _, hforms⟩ := lead_formsText hmatch hj
    rw [List.getElem?_drop, List.getElem?_drop, hc, (formsText_of_ne hforms hne).2.1]
  have hkeys : matchAt keyValue (keysText u) s = some ⟨m.kept, 0, _⟩ :=
    keyValue_lead_congr hmatch hlead (by
      rw [List.getElem?_drop]
      exact first_keysText hmatch)
  obtain ⟨s', m', hfound⟩ := found_of_matchAt hkeys
  obtain ⟨hle, hlt, hmatch', _⟩ := found_spec fits_keyValue hfound
  obtain ⟨n, hn, _⟩ := keyValue_lead hmatch
  obtain ⟨c, _, hne, _, hforms⟩ := lead_formsText hmatch (j := 0) (by omega)
  rcases Nat.lt_or_ge s (s' + m'.kept) with hlead' | hvalue
  swap
  · have hvalues := (formsText_of_ne hforms hne).1
    rw [getElem?_valuesText, Nat.add_zero, taken_iff.mpr ⟨s', m', hfound, hvalue⟩] at hvalues
    exact absurd (Option.some.inj hvalues).symm hne
  rcases Nat.lt_or_eq_of_le hle with hbefore | rfl
  · have hnone := keyValue_within hmatch' (i := s - s') (by omega) (by omega)
      (charBefore (keysText u) s)
    rw [List.drop_drop, Nat.add_sub_cancel' hle] at hnone
    rw [matchAt, hnone] at hkeys
    cases hkeys
  · rw [hkeys] at hmatch'
    obtain rfl := Option.some.inj hmatch'
    exact ⟨_, hfound, rfl⟩

lemma bracket_of_found (hfound : found keyValue (keysText u) s = some (s, m))
    (hj : m.kept ≤ j) (hlt : j < m.length) : (valuesText u)[s + j]? = some ']' := by
  have hwithin := found_within hfound (j := s + j) (by omega) (by omega)
  rw [getElem?_valuesText, taken_iff.mpr ⟨s, m, hwithin, by omega⟩, if_pos rfl]

/-- What follows a value that was taken is in the output as it was. -/
lemma after_value (hfound : found keyValue (keysText u) s = some (s, m)) :
    (outText isWord u)[s + m.length]?.any isValueChar = false := by
  obtain ⟨_, _, hmatch, _⟩ := found_spec fits_keyValue hfound
  have hvalue := keyValue_kept_lt hmatch
  have hend : (keysText u)[s + m.length]?.any isValueChar = false := by
    rw [← List.getElem?_drop]
    exact keyValue_end hmatch
  obtain ⟨e, he⟩ : ∃ e, m.length = e + 1 := ⟨m.length - 1, by omega⟩
  have hlast := bracket_of_found hfound (j := e) (by omega) (by omega)
  obtain ⟨hbearer, hheuristic, _⟩ := bracket_stays isWord hlast
  have hplace : s + m.length = s + e + 1 := by omega
  have hvalues : (valuesText u)[s + m.length]? = (keysText u)[s + m.length]? := by
    rw [getElem?_valuesText]
    cases htaken : taken keyValue (keysText u) (s + m.length) with
    | false => rfl
    | true =>
        rw [valueChar_of_taken htaken] at hend
        cases hend
  have hforms : (formsText u)[s + m.length]? = (valuesText u)[s + m.length]? := by
    rw [getElem?_formsText]
    cases htaken : taken bearer (valuesText u) (s + m.length) with
    | false => rfl
    | true =>
        exfalso
        obtain ⟨s', m', hfound', _⟩ := taken_iff.mp htaken
        obtain ⟨hle, hlt, hmatch', hstart⟩ := found_spec fits_bearer hfound'
        rcases Nat.lt_or_eq_of_le hle with hbefore | rfl
        · rw [found_within hstart (j := s + e) (by omega) (by omega)] at hbearer
          cases hbearer
        · have hfirst := bearer_first hmatch'
          rw [List.getElem?_drop, Nat.add_zero, hvalues, hend] at hfirst
          cases hfirst
  have hout : (outText isWord u)[s + m.length]? = (formsText u)[s + m.length]? := by
    rw [getElem?_outText]
    cases htaken : taken (secretHeuristic isWord) (formsText u) (s + m.length) with
    | false => rfl
    | true =>
        exfalso
        obtain ⟨s', m', hfound', hkept⟩ := taken_iff.mp htaken
        obtain ⟨_, hlt, hmatch', hstart⟩ := found_spec fits_secretHeuristic hfound'
        have hword := (secretHeuristic_word hmatch').2.1
        rw [found_within hstart (j := s + e) (by omega) (by omega)] at hheuristic
        cases hheuristic
  rw [hout, hforms, hvalues, hend]

/-- An assignment in the output has the length it had before the second pass. -/
lemma found_same (hmatch : matchAt keyValue (outText isWord u) s = some m) :
    found keyValue (keysText u) s = some (s, m) := by
  obtain ⟨m', hfound, hkept⟩ := found_keys hmatch
  obtain ⟨_, _, hmatch', _⟩ := found_spec fits_keyValue hfound
  obtain ⟨hm, _⟩ := keyValue_value hmatch
  obtain ⟨hm', _⟩ := keyValue_value hmatch'
  have hlength := keyValue_length hmatch'
  rw [List.drop_drop] at hlength
  have hrun : run isValueChar ((outText isWord u).drop (s + m'.kept)) =
      run isValueChar ((keysText u).drop (s + m'.kept)) := by
    apply run_congr
    intro i hi
    rw [List.getElem?_drop, List.getElem?_drop]
    rcases Nat.lt_or_eq_of_le hi with hlt | rfl
    · have hplace : s + m'.kept + i = s + (m'.kept + i) := by omega
      have hbracket := bracket_of_found hfound (j := m'.kept + i) (by omega) (by omega)
      have hwithin := found_within hfound (j := s + (m'.kept + i)) (by omega) (by omega)
      have hvalue := valueChar_of_taken (taken_iff.mpr ⟨s, m', hwithin, by omega⟩)
      rw [hplace, (bracket_stays isWord hbracket).2.2, hvalue]
      rfl
    · have hplace : s + m'.kept + run isValueChar ((keysText u).drop (s + m'.kept)) =
          s + m'.length := by omega
      rw [hplace, after_value hfound, ← List.getElem?_drop, keyValue_end hmatch']
  have heq : m' = m := by
    rw [hm', hm, List.drop_drop, List.drop_drop, ← hkept, hrun]
  rw [hfound, heq]

/-- The value of an assignment in the output is one redacted stretch. -/
lemma value_places (hmatch : matchAt keyValue (outText isWord u) s = some m) (hj : m.kept ≤ j)
    (hlt : j < m.length) :
    (redactedPlaces isWord u)[s + j]? = some (fillMark (j - m.kept)) := by
  have hfound := found_same hmatch
  have hbracket := bracket_of_found hfound hj hlt
  obtain ⟨hbearer, hheuristic, _⟩ := bracket_stays isWord hbracket
  have hwithin := found_within hfound (j := s + j) (by omega) (by omega)
  have hend := found_end_le (k := marking) (M := withoutKeys u) fits_keyValue hfound
  rw [redactedPlaces, masked_of_not_found hheuristic, withoutForms, masked_of_not_found hbearer,
    withoutValues, masked_of_found hwithin (by omega), if_neg (by omega)]
  have hplace : s + j - (s + m.kept) = j - m.kept := by omega
  rw [hplace]

/-- The second pass puts what is there. -/
lemma masked_output :
    marking.masked keyValue fillMark (redactedPlaces isWord u) = redactedPlaces isWord u := by
  apply List.ext_getElem?
  intro i
  cases hfound : found keyValue (outText isWord u) i with
  | none => exact masked_of_not_found hfound
  | some sm =>
      obtain ⟨s, m⟩ := sm
      obtain ⟨hle, hlt, hmatch, _⟩ := found_spec fits_keyValue hfound
      have hend := found_end_le (k := marking) (M := redactedPlaces isWord u) fits_keyValue hfound
      rw [masked_of_found hfound (by omega)]
      split
      · rfl
      · have hvalue := value_places hmatch (j := i - s) (by omega) (by omega)
        rw [Nat.add_sub_cancel' hle] at hvalue
        have hplace : i - s - m.kept = i - (s + m.kept) := by omega
        rw [hvalue, hplace]

end Values

section Idempotence

variable {isWord : Char → Bool} {u : List Char}

lemma redact_chars (isWord : Char → Bool) (u : List Char) : redact id id isWord u =
    (marking.render (redactedPlaces isWord u)).map Prod.fst := by
  rw [← redact_places, map_redact, map_traced]

/-- Redacting once more changes nothing. -/
theorem redact_redact (isWord : Char → Bool) (u : List Char) :
    redact id id isWord (redact id id isWord u) = redact id id isWord u := by
  have hjoined := joined_redactedPlaces isWord u
  have hkeys : replaceAll Prod.fst awsKey (inserted redactedText)
      (marking.render (redactedPlaces isWord u)) = marking.render (redactedPlaces isWord u) :=
    (replaceAll_render blind_awsKey hjoined fills_awsKey).trans
      (congrArg marking.render (masked_of_not_match no_key))
  have hvalues : replaceAll Prod.fst keyValue (inserted redactedText)
      (marking.render (redactedPlaces isWord u)) = marking.render (redactedPlaces isWord u) :=
    (replaceAll_render blind_keyValue hjoined fills_keyValue).trans
      (congrArg marking.render masked_output)
  have hforms : replaceAll Prod.fst bearer (inserted redactedText)
      (marking.render (redactedPlaces isWord u)) = marking.render (redactedPlaces isWord u) :=
    (replaceAll_render blind_bearer hjoined fills_bearer).trans
      (congrArg marking.render (masked_of_not_match no_form))
  have hrest : replaceAll Prod.fst (secretHeuristic isWord) (inserted (' ' :: redactedText))
      (marking.render (redactedPlaces isWord u)) = marking.render (redactedPlaces isWord u) :=
    (replaceAll_render blind_secretHeuristic hjoined fills_secretHeuristic).trans
      (congrArg marking.render (masked_of_not_match no_heuristic))
  have htraced : redact Prod.fst inserted isWord (marking.render (redactedPlaces isWord u)) =
      marking.render (redactedPlaces isWord u) := by
    rw [redact, hkeys, hvalues, hforms, hrest]
  rw [redact_chars isWord u, ← map_redact, htraced]

/-- The output is what the traced passes leave, without the places. -/
theorem toList_redactSecrets (isWord : Char → Bool) (input : String) :
    (redactSecrets isWord input).toList =
      (redact Prod.fst inserted isWord (traced input.toList)).map Prod.fst := by
  rw [redactSecrets, String.toList_ofList, map_redact, map_traced]

/-- Where no pass takes the lead of another's form or cuts its token, nothing of a secret is left;
and redacting again changes nothing, whatever the input. -/
theorem secrets_removed (isWord : Char → Bool) (input : String)
    (h : Undisturbed input.toList) :
    (∀ i, Recognised input.toList i → ¬ Survives isWord input.toList i) ∧
      redactSecrets isWord (redactSecrets isWord input) = redactSecrets isWord input := by
  refine ⟨fun i hrec => not_survives isWord h hrec, ?_⟩
  rw [redactSecrets, redactSecrets, String.toList_ofList, redact_redact]

/-- Word characters of ASCII. -/
def asciiWord (c : Char) : Bool := c.isAlphanum || c = '_'

def sampleLog : String := "Bearer aB.9, token=AKIA0123456789ABCDEF"

theorem sampleLog_removed :
    (∀ i, Recognised sampleLog.toList i → ¬ Survives asciiWord sampleLog.toList i) ∧
      redactSecrets asciiWord (redactSecrets asciiWord sampleLog) =
        redactSecrets asciiWord sampleLog :=
  secrets_removed asciiWord sampleLog
    ⟨by decide, by decide, by decide⟩

/-- The word before a bearer token is taken as the value of an assignment, and the token stays. -/
theorem bearer_token_left : ¬ ∀ (isWord : Char → Bool) (input : String),
    (∀ i, Recognised input.toList i → ¬ Survives isWord input.toList i) ∧
      redactSecrets isWord (redactSecrets isWord input) = redactSecrets isWord input := by
  intro hall
  have hrecognised : Recognised "token: Bearer abc".toList 14 := .inr (.inr (by decide))
  have hsurvives : Survives asciiWord "token: Bearer abc".toList 14 := ⟨'a', by decide⟩
  exact (hall asciiWord "token: Bearer abc").1 14 hrecognised hsurvives

end Idempotence

end Loker.RedactedOutput
