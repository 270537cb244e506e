import Loker.SecretPatterns

/-! What redaction leaves of the secrets in a text, and what it makes of its own output. -/

namespace Loker.RedactedSecrets

open MatchScan PatternRuns SecretPatterns
open TextOps (isWhiteSpace)

section Stages

variable {isWord : Char → Bool} {u : List Char} {pattern : Pattern} {i : ℕ}

/-- The input, and what each pass leaves of it, place by place. -/
def places (u : List Char) : List (Place Traced) := (traced u).map .item

def withoutKeys (u : List Char) : List (Place Traced) := marking.masked awsKey fillMark (places u)

def withoutValues (u : List Char) : List (Place Traced) :=
  marking.masked keyValue fillMark (withoutKeys u)

def withoutForms (u : List Char) : List (Place Traced) :=
  marking.masked bearer fillMark (withoutValues u)

def redactedPlaces (isWord : Char → Bool) (u : List Char) : List (Place Traced) :=
  marking.masked (secretHeuristic isWord) (fillAfter (' ', none)) (withoutForms u)

lemma render_items (s : List Traced) : marking.render (s.map .item) = s := by
  induction s with
  | nil => rfl
  | cons x s ih => rw [List.map_cons, render_cons, shown_item, ih, List.singleton_append]

lemma joined_places (u : List Char) : Joined (places u) := by
  constructor
  · rw [List.isChain_iff_getElem]
    intro i hi
    have hlt : i + 1 < (traced u).length := by simpa [places] using hi
    have hitem : (places u)[i + 1] = .item (traced u)[i + 1] := by simp [places]
    rw [hitem]
    exact joins_of_ne_cont nofun
  · intro h
    rw [places, List.head?_map, Option.map_eq_some_iff] at h
    obtain ⟨x, _, hx⟩ := h
    cases hx

lemma fills_awsKey : marking.Fills awsKey fillMark (inserted redactedText) := by
  apply fills_mark
  intro before s m h
  obtain ⟨n, _, _, rfl⟩ := awsKey_eq_some h
  simp only [Match.length]
  omega

lemma fills_keyValue : marking.Fills keyValue fillMark (inserted redactedText) := by
  apply fills_mark
  intro before s m h
  obtain ⟨n, gap, gap', _, _, _, _, rfl, hpos⟩ := keyValue_eq_some h
  simp only [Match.length] at hpos ⊢
  omega

lemma fills_bearer : marking.Fills bearer fillMark (inserted redactedText) := by
  apply fills_mark
  intro before s m h
  obtain ⟨n, gap, _, _, _, rfl, hpos⟩ := bearer_eq_some h
  simp only [Match.length] at hpos ⊢
  omega

lemma fills_secretHeuristic : marking.Fills (secretHeuristic isWord) (fillAfter (' ', none))
    (inserted (' ' :: redactedText)) := by
  apply fills_after
  intro before s m h
  obtain ⟨_, n, gap, _, hsep, rfl⟩ := secretHeuristic_eq_some h
  obtain ⟨hpos, _, hrun⟩ := separators_eq_some hsep
  rw [List.drop_drop] at hrun
  simp only [Match.length]
  omega

lemma joined_withoutKeys (u : List Char) : Joined (withoutKeys u) :=
  joined_masked blind_awsKey (joined_places u) fills_awsKey

lemma joined_withoutValues (u : List Char) : Joined (withoutValues u) :=
  joined_masked blind_keyValue (joined_withoutKeys u) fills_keyValue

lemma joined_withoutForms (u : List Char) : Joined (withoutForms u) :=
  joined_masked blind_bearer (joined_withoutValues u) fills_bearer

lemma joined_redactedPlaces (isWord : Char → Bool) (u : List Char) : Joined (redactedPlaces isWord u) :=
  joined_masked blind_secretHeuristic (joined_withoutForms u) fills_secretHeuristic

/-- The passes over the characters are the passes over the places. -/
theorem redact_places (isWord : Char → Bool) (u : List Char) :
    redact Prod.fst inserted isWord (traced u) = marking.render (redactedPlaces isWord u) := by
  have hkeys : replaceAll Prod.fst awsKey (inserted redactedText) (traced u) =
      marking.render (withoutKeys u) := by
    rw [withoutKeys, ← replaceAll_render blind_awsKey (joined_places u) fills_awsKey, places,
      render_items]
    rfl
  have hvalues : replaceAll Prod.fst keyValue (inserted redactedText)
      (marking.render (withoutKeys u)) = marking.render (withoutValues u) :=
    replaceAll_render blind_keyValue (joined_withoutKeys u) fills_keyValue
  have hforms : replaceAll Prod.fst bearer (inserted redactedText)
      (marking.render (withoutValues u)) = marking.render (withoutForms u) :=
    replaceAll_render blind_bearer (joined_withoutValues u) fills_bearer
  have hrest : replaceAll Prod.fst (secretHeuristic isWord) (inserted (' ' :: redactedText))
      (marking.render (withoutForms u)) = marking.render (redactedPlaces isWord u) :=
    replaceAll_render blind_secretHeuristic (joined_withoutForms u) fills_secretHeuristic
  rw [redact, hkeys, hvalues, hforms, hrest]

/-- The text each pass has before it, with a bracket at the places that are taken. -/
def keysText (u : List Char) : List Char := marking.chars (withoutKeys u)

def valuesText (u : List Char) : List Char := marking.chars (withoutValues u)

def formsText (u : List Char) : List Char := marking.chars (withoutForms u)

lemma chars_places (u : List Char) : marking.chars (places u) = u := by
  rw [Marking.chars, places, List.map_map]
  exact map_traced u

lemma getElem?_keysText (i : ℕ) :
    (keysText u)[i]? = if taken awsKey u i then some ']' else u[i]? := by
  have h := chars_masked (k := marking) (M := places u) fits_awsKey i
  rwa [chars_places] at h

lemma getElem?_valuesText (i : ℕ) : (valuesText u)[i]? =
    if taken keyValue (keysText u) i then some ']' else (keysText u)[i]? :=
  chars_masked (k := marking) (M := withoutKeys u) fits_keyValue i

lemma getElem?_formsText (i : ℕ) : (formsText u)[i]? =
    if taken bearer (valuesText u) i then some ']' else (valuesText u)[i]? :=
  chars_masked (k := marking) (M := withoutValues u) fits_bearer i

end Stages

section Survival

variable {isWord : Char → Bool} {u : List Char} {pattern : Pattern} {i j : ℕ} {x y : Traced}
  {M : List (Place Traced)}

/-- A character of the input that is in the output. -/
def Survives (isWord : Char → Bool) (u : List Char) (i : ℕ) : Prop :=
  ∃ c, (c, some i) ∈ redact Prod.fst inserted isWord (traced u)

lemma mem_render {c : Char} {n : ℕ} (h : (c, some n) ∈ marking.render M) :
    ∃ i : ℕ, M[i]? = some (.item (c, some n)) := by
  obtain ⟨y, hy, hshown⟩ := List.mem_flatMap.mp h
  cases y with
  | item x =>
      rw [List.mem_singleton.mp hshown]
      exact List.mem_iff_getElem?.mp hy
  | mark =>
      obtain ⟨d, _, hd⟩ := List.mem_map.mp hshown
      cases hd
  | cont => cases hshown

lemma item_of_masked (h : (marking.masked pattern fillMark M)[i]? = some (.item x)) :
    M[i]? = some (.item x) ∧ taken pattern (marking.chars M) i = false := by
  rw [taken]
  cases hfound : found pattern (marking.chars M) i with
  | none =>
      rw [masked_of_not_found hfound] at h
      exact ⟨h, rfl⟩
  | some sm =>
      obtain ⟨s, m⟩ := sm
      have hi : i < M.length := by
        have hlt := (List.getElem?_eq_some_iff.mp h).1
        rwa [length_masked] at hlt
      rw [masked_of_found hfound hi] at h
      split at h
      · next hkept => exact ⟨h, by simpa using hkept⟩
      · cases hn : i - (s + m.kept) <;> rw [hn] at h <;> cases h

lemma item_of_masked_after (h : (marking.masked pattern (fillAfter y) M)[i]? = some (.item x))
    (hne : x ≠ y) : M[i]? = some (.item x) := by
  cases hfound : found pattern (marking.chars M) i with
  | none => rwa [masked_of_not_found hfound] at h
  | some sm =>
      obtain ⟨s, m⟩ := sm
      have hi : i < M.length := by
        have hlt := (List.getElem?_eq_some_iff.mp h).1
        rwa [length_masked] at hlt
      rw [masked_of_found hfound hi] at h
      split at h
      · exact h
      · exfalso
        cases hn : i - (s + m.kept) with
        | zero =>
            rw [hn] at h
            exact hne (Place.item.inj (Option.some.inj h)).symm
        | succ n =>
            rw [hn] at h
            cases n <;> cases h

lemma place_of_item {c : Char} (h : (places u)[j]? = some (.item (c, some i))) :
    j = i ∧ u[j]? = some c := by
  rw [places, List.getElem?_map, traced, List.getElem?_mapIdx] at h
  cases hu : u[j]? with
  | none =>
      rw [hu] at h
      cases h
  | some d =>
      rw [hu] at h
      cases h
      exact ⟨rfl, rfl⟩

/-- What survives was taken by none of the first three passes. -/
lemma not_taken_of_survives (h : Survives isWord u i) : taken awsKey u i = false ∧
    taken keyValue (keysText u) i = false ∧ taken bearer (valuesText u) i = false := by
  obtain ⟨c, hc⟩ := h
  rw [redact_places] at hc
  obtain ⟨j, hj⟩ := mem_render hc
  have hforms := item_of_masked_after hj nofun
  obtain ⟨hvalues, hbearer⟩ := item_of_masked hforms
  obtain ⟨hkeys, hvalue⟩ := item_of_masked hvalues
  obtain ⟨hplace, hkey⟩ := item_of_masked hkeys
  have heq : j = i := (place_of_item hplace).1
  rw [chars_places] at hkey
  rw [heq] at hkey hvalue hbearer
  exact ⟨hkey, hvalue, hbearer⟩

/-- A character of the input that is left is at its place. -/
lemma place_of_redacted {c : Char} (h : (redactedPlaces isWord u)[j]? = some (.item (c, some i))) :
    j = i ∧ u[j]? = some c := by
  have hforms := item_of_masked_after h nofun
  have hvalues := (item_of_masked hforms).1
  have hkeys := (item_of_masked hvalues).1
  exact place_of_item (item_of_masked hkeys).1

end Survival

section Recognition

/-- A place in the value of a match that the scan of the text finds. -/
def inValue (pattern : Pattern) (u : List Char) (i : ℕ) : Bool :=
  (found pattern u i).any fun (s, m) => s + m.kept + m.passed ≤ i

/-- A place in what a match has before its value. -/
def inLead (pattern : Pattern) (u : List Char) (i : ℕ) : Bool :=
  (found pattern u i).any fun (s, m) => i < s + m.kept + m.passed

/-- A place in an AWS key, in the value of an assignment or in a bearer token of the text. -/
def Recognised (u : List Char) (i : ℕ) : Prop :=
  inValue awsKey u i = true ∨ inValue keyValue u i = true ∨ inValue bearer u i = true

def inKeyOrValue (u : List Char) (i : ℕ) : Bool := inValue awsKey u i || inValue keyValue u i

/-- No form loses its lead to another, and no bearer token is cut by a key inside it. -/
structure Undisturbed (u : List Char) : Prop where
  assignments : ∀ i < u.length, inLead keyValue u i = true → inValue awsKey u i = false
  forms : ∀ i < u.length, inLead bearer u i = true → inKeyOrValue u i = false
  tokens : ∀ i < u.length, inValue bearer u i = true → inValue bearer u (i + 1) = true →
    inKeyOrValue u i = true → inKeyOrValue u (i + 1) = true

end Recognition

section Undisturbed

variable {u : List Char} {i j s p : ℕ} {m : Match}

lemma value_of_key {c : Char} (h : isKeyChar c = true) :
    isValueChar c = true ∧ isTokenChar c = true := by
  have hlt : c.toNat < 128 := by
    simp only [isKeyChar, Char.isDigit, Char.isUpper, Bool.or_eq_true, Bool.and_eq_true,
      decide_eq_true_eq, ge_iff_le, UInt32.le_iff_toNat_le] at h
    have hnat : c.toNat = c.val.toNat := rfl
    have hnine : '9'.val.toNat = 57 := rfl
    have hz : 'Z'.val.toNat = 90 := rfl
    omega
  have hall : (List.range 128).all (fun n => !isKeyChar (Char.ofNat n) ||
      (isValueChar (Char.ofNat n) && isTokenChar (Char.ofNat n))) = true := by decide
  have hat := List.all_eq_true.mp hall c.toNat (List.mem_range.mpr hlt)
  rw [Char.ofNat_toNat, h] at hat
  simpa using hat

lemma taken_awsKey (u : List Char) (i : ℕ) : taken awsKey u i = inValue awsKey u i := by
  rw [taken, inValue]
  cases hfound : found awsKey u i with
  | none => rfl
  | some sm =>
      obtain ⟨s, m⟩ := sm
      obtain ⟨n, _, _, rfl⟩ := awsKey_eq_some (found_spec fits_awsKey hfound).2.2.1
      rfl

lemma taken_keyValue (u : List Char) (i : ℕ) : taken keyValue u i = inValue keyValue u i := by
  rw [taken, inValue]
  cases hfound : found keyValue u i with
  | none => rfl
  | some sm =>
      obtain ⟨s, m⟩ := sm
      obtain ⟨n, gap, gap', _, _, _, _, rfl, _⟩ :=
        keyValue_eq_some (found_spec fits_keyValue hfound).2.2.1
      rfl

lemma awsKey_char {before : Option Char} {s : List Char} (h : awsKey before s = some m)
    (hi : i < m.length) : ∃ c, s[i]? = some c ∧ isKeyChar c = true := by
  obtain ⟨n, hword, hrun, rfl⟩ := awsKey_eq_some h
  simp only [Match.length] at hi
  rcases Nat.lt_or_ge i n with hlt | hge
  · exact wordAt_char isKeyChar (by decide) hword hlt
  · obtain ⟨c, hc, hp⟩ := run_all (p := isKeyChar) (s := s.drop n) (i := i - n) (by omega)
    rw [List.getElem?_drop, Nat.add_sub_cancel' hge] at hc
    exact ⟨c, hc, hp⟩

/-- What a match has at a place that it is found to hold. -/
lemma char_of_found {pattern : Pattern} (hfits : pattern.Fits)
    (h : found pattern u i = some (s, m)) : matchAt pattern u s = some m ∧ s ≤ i ∧
      i - s < m.length ∧ (u.drop s)[i - s]? = u[i]? := by
  obtain ⟨hle, hlt, hmatch, _⟩ := found_spec hfits h
  refine ⟨hmatch, hle, by omega, ?_⟩
  rw [List.getElem?_drop, Nat.add_sub_cancel' hle]

lemma char_of_inKey (h : inValue awsKey u i = true) : ∃ c, u[i]? = some c ∧ isKeyChar c = true := by
  rw [inValue, Option.any_eq_true] at h
  obtain ⟨⟨s, m⟩, hfound, _⟩ := h
  obtain ⟨hmatch, _, hlt, hat⟩ := char_of_found fits_awsKey hfound
  rw [← hat]
  exact awsKey_char hmatch hlt

/-- Another character than the bracket was there before. -/
lemma keysText_of_ne {c : Char} (hc : (keysText u)[i]? = some c) (hne : c ≠ ']') :
    (keysText u)[i]? = u[i]? := by
  rw [getElem?_keysText] at hc ⊢
  split at hc
  · exact absurd (Option.some.inj hc).symm hne
  · next htaken => rw [if_neg htaken]

/-- Keys that are taken are seen as a value still. -/
lemma valueChar_keysText (i : ℕ) : (keysText u)[i]?.any isValueChar = u[i]?.any isValueChar := by
  rw [getElem?_keysText]
  split
  · next htaken =>
    rw [taken_awsKey] at htaken
    obtain ⟨c, hc, hkey⟩ := char_of_inKey htaken
    rw [hc, Option.any_some, Option.any_some, (value_of_key hkey).1]
    rfl
  · rfl

/-- Where no lead is taken, the assignments found are those of the input. -/
lemma found_keysText (h : Undisturbed u) (i : ℕ) :
    found keyValue (keysText u) i = found keyValue u i := by
  apply found_congr
  intro i hfresh
  cases hmatch : matchAt keyValue u i with
  | some m =>
      rw [hmatch] at hfresh
      have hfound : found keyValue u i = some (i, m) := hfresh
      apply keyValue_congr hmatch
      · intro j hj
        have hwithin := found_within hfound (Nat.le_add_right i j) (by rw [Match.length]; omega)
        have hlead : inLead keyValue u (i + j) = true := by
          rw [inLead, hwithin]
          exact decide_eq_true (by omega)
        have hend := found_le_length fits_keyValue hfound
        rw [Match.length] at hend
        have hfree := h.assignments (i + j) (by omega) hlead
        rw [List.getElem?_drop, List.getElem?_drop, getElem?_keysText, taken_awsKey, hfree]
        rfl
      · intro j _
        rw [List.getElem?_drop, List.getElem?_drop, valueChar_keysText]
  | none =>
      cases hmatch' : matchAt keyValue (keysText u) i with
      | none => rfl
      | some m =>
          have hback : matchAt keyValue u i = some m := by
            apply keyValue_congr hmatch'
            · intro j hj
              obtain ⟨c, hc, hchar⟩ := keyValue_leadChar hmatch' hj
              rw [List.getElem?_drop] at hc ⊢
              rw [List.getElem?_drop]
              exact (keysText_of_ne hc (ne_bracket_of_lead hchar)).symm
            · intro j _
              rw [List.getElem?_drop, List.getElem?_drop, valueChar_keysText]
          rw [hmatch] at hback
          cases hback

lemma valuesText_eq (h : Undisturbed u) (i : ℕ) :
    (valuesText u)[i]? = if inKeyOrValue u i then some ']' else u[i]? := by
  have hvalue : taken keyValue (keysText u) i = inValue keyValue u i := by
    rw [← taken_keyValue, taken, taken, found_keysText h]
  rw [getElem?_valuesText, getElem?_keysText, hvalue, taken_awsKey, inKeyOrValue]
  cases inValue keyValue u i <;> cases inValue awsKey u i <;> rfl

lemma valuesText_of_free (h : Undisturbed u) (hfree : inKeyOrValue u i = false) :
    (valuesText u)[i]? = u[i]? := by
  rw [valuesText_eq h, hfree]
  rfl

/-- Another character than the bracket is the input's, and no pass has taken it. -/
lemma free_of_ne (h : Undisturbed u) {c : Char} (hc : (valuesText u)[i]? = some c)
    (hne : c ≠ ']') : inKeyOrValue u i = false ∧ u[i]? = some c := by
  rw [valuesText_eq h] at hc
  cases hfree : inKeyOrValue u i with
  | true =>
      rw [hfree] at hc
      exact absurd (Option.some.inj hc).symm hne
  | false =>
      rw [hfree] at hc
      exact ⟨rfl, hc⟩

/-- Past its first free place, a bearer token is free until a key or value ends it. -/
lemma token_free (h : Undisturbed u) (hfound : found bearer u s = some (s, m)) (hij : i ≤ j)
    (hi : s + m.passed ≤ i) (hj : j < s + m.length) (hfree : inKeyOrValue u j = false) :
    inKeyOrValue u i = false := by
  obtain ⟨n, gap, _, _, _, hm, _⟩ :=
    bearer_eq_some (found_spec fits_bearer hfound).2.2.1
  have hkept : m.kept = 0 := by rw [hm]
  have hin : ∀ p, s + m.passed ≤ p → p < s + m.length → inValue bearer u p = true := by
    intro p hp hlt
    rw [inValue, found_within hfound (by omega) hlt]
    exact decide_eq_true (by omega)
  have hend := found_le_length fits_bearer hfound
  induction j, hij using Nat.le_induction with
  | base => exact hfree
  | succ j hle ih =>
      apply ih (by omega)
      cases hprev : inKeyOrValue u j with
      | false => rfl
      | true =>
          have hnext := h.tokens j (by omega) (hin j (by omega) (by omega))
            (hin (j + 1) (by omega) hj) hprev
          rw [hfree] at hnext
          cases hnext

/-- The lead of a bearer form of the input stands before the third pass. -/
lemma lead_free (h : Undisturbed u) (hfound : found bearer u s = some (s, m)) (hi : i < m.passed) :
    inKeyOrValue u (s + i) = false := by
  obtain ⟨n, gap, _, _, _, hm, _⟩ :=
    bearer_eq_some (found_spec fits_bearer hfound).2.2.1
  have hpassed : m.passed ≤ m.length := by
    rw [Match.length]
    omega
  have hend := found_le_length fits_bearer hfound
  apply h.forms (s + i) (by omega)
  rw [inLead, found_within hfound (Nat.le_add_right s i) (by omega)]
  exact decide_eq_true (by omega)

/-- A bearer form whose token begins with a free place is matched by the third pass, with the
token's free places. -/
lemma bearer_valuesText (h : Undisturbed u) (hfound : found bearer u s = some (s, m))
    (hfree : inKeyOrValue u (s + m.passed) = false) : matchAt bearer (valuesText u) s =
      some ⟨0, m.passed, run isTokenChar ((valuesText u).drop (s + m.passed))⟩ := by
  obtain ⟨_, _, hmatch, _⟩ := found_spec fits_bearer hfound
  have hlead : ∀ i < m.passed, ((valuesText u).drop s)[i]? = (u.drop s)[i]? := by
    intro i hi
    rw [List.getElem?_drop, List.getElem?_drop, valuesText_of_free h (lead_free h hfound hi)]
  have hfirst : ((valuesText u).drop s)[m.passed]?.any isTokenChar = true := by
    rw [List.getElem?_drop, valuesText_of_free h hfree, ← List.getElem?_drop]
    exact bearer_token hmatch le_rfl (bearer_passed_lt hmatch)
  have hcongr : matchAt bearer (valuesText u) s = some _ := bearer_congr hmatch hlead hfirst
  rw [List.drop_drop] at hcongr
  exact hcongr

/-- That match reaches every free place of the token. -/
lemma reaches_free (h : Undisturbed u) (hfound : found bearer u s = some (s, m))
    (hp : s + m.passed ≤ p) (hlt : p < s + m.length) (hfree : inKeyOrValue u p = false) :
    p < s + m.passed + run isTokenChar ((valuesText u).drop (s + m.passed)) := by
  obtain ⟨_, _, hmatch, _⟩ := found_spec fits_bearer hfound
  have hrun : p - (s + m.passed) + 1 ≤ run isTokenChar (u.drop (s + m.passed)) := by
    have hvalue := bearer_value hmatch
    rw [List.drop_drop] at hvalue
    omega
  have hreach : p - (s + m.passed) + 1 ≤
      run isTokenChar ((valuesText u).drop (s + m.passed)) := by
    apply le_run_congr hrun
    intro i hi
    have hplace := token_free h hfound (i := s + m.passed + i) (by omega) (by omega) hlt hfree
    rw [List.getElem?_drop, List.getElem?_drop, valuesText_of_free h hplace]
  omega

/-- What the third pass matches is free, and a match of the input at least as long. -/
lemma bearer_input (h : Undisturbed u) (hmatch : matchAt bearer (valuesText u) s = some m) :
    inKeyOrValue u s = false ∧
      ∃ m', matchAt bearer u s = some m' ∧ m.length ≤ m'.length := by
  have hplace : ∀ i < m.length, inKeyOrValue u (s + i) = false ∧
      (u.drop s)[i]? = ((valuesText u).drop s)[i]? := by
    intro i hi
    obtain ⟨c, hc, hne⟩ := bearer_char hmatch hi
    rw [List.getElem?_drop] at hc
    obtain ⟨hfree, hat⟩ := free_of_ne h hc hne
    refine ⟨hfree, ?_⟩
    rw [List.getElem?_drop, List.getElem?_drop, hat, hc]
  have hlt := bearer_passed_lt hmatch
  refine ⟨(hplace 0 (by omega)).1, ⟨0, m.passed, _⟩, bearer_congr hmatch ?_ ?_, ?_⟩
  · intro i hi
    exact (hplace i (by omega)).2
  · rw [(hplace m.passed hlt).2]
    exact bearer_token hmatch le_rfl hlt
  · rw [bearer_value hmatch, Match.length, Nat.zero_add]
    apply Nat.add_le_add_left
    apply le_run_congr le_rfl
    intro i hi
    have hvalue := bearer_value hmatch
    have hat := (hplace (m.passed + i) (by omega)).2
    simp only [List.getElem?_drop] at hat ⊢
    rw [hat]

/-- The third pass finds the input's bearer forms, as far as they are free. -/
lemma found_valuesText (h : Undisturbed u) (hfound : found bearer u s = some (s, m))
    (hfree : inKeyOrValue u (s + m.passed) = false) :
    ∃ m', found bearer (valuesText u) s = some (s, m') := by
  induction s using Nat.strong_induction_on generalizing m with
  | _ s ih =>
      have hmatch := bearer_valuesText h hfound hfree
      obtain ⟨s', m', hfound'⟩ := found_of_matchAt hmatch
      obtain ⟨hle, hlt, hmatch', hstart⟩ := found_spec fits_bearer hfound'
      rcases Nat.lt_or_eq_of_le hle with hbefore | rfl
      swap
      · exact ⟨m', hfound'⟩
      exfalso
      -- an earlier match of the third pass is one of the input, where one still earlier covers it
      obtain ⟨hfree', m₁, hmatch₁, hlong⟩ := bearer_input h hmatch'
      obtain ⟨s₂, m₂, hfound₂⟩ := found_of_matchAt hmatch₁
      obtain ⟨hle₂, hlt₂, hmatch₂, hstart₂⟩ := found_spec fits_bearer hfound₂
      rcases Nat.lt_or_eq_of_le hle₂ with hbefore₂ | rfl
      · rcases Nat.lt_or_ge (s' - s₂) m₂.passed with hlead | hvalue
        · have hnone := bearer_within hmatch₂ (by omega) hlead (charBefore u s')
          rw [List.drop_drop, Nat.add_sub_cancel' hle₂] at hnone
          rw [matchAt, hnone] at hmatch₁
          cases hmatch₁
        · have hfirst := token_free h hstart₂ (i := s₂ + m₂.passed) (j := s') (by omega) le_rfl hlt₂
            hfree'
          obtain ⟨m₃, hfound₃⟩ := ih s₂ (by omega) hstart₂ hfirst
          have hmatch₃ := (found_spec fits_bearer hfound₃).2.2.1
          rw [bearer_valuesText h hstart₂ hfirst] at hmatch₃
          obtain rfl := Option.some.inj hmatch₃
          have hreach := reaches_free h hstart₂ (p := s') (by omega) hlt₂ hfree'
          have hcovers := found_within (j := s') hfound₃ hle₂ (by
            simp only [Match.length]
            omega)
          rw [hstart] at hcovers
          cases hcovers
          omega
      · rw [hmatch₁] at hmatch₂
        obtain rfl := Option.some.inj hmatch₂
        have hcovers := found_within (j := s) hstart₂ hle (by omega)
        rw [hfound] at hcovers
        cases hcovers
        omega

/-- Nothing recognised survives where no form disturbs another. -/
theorem not_survives (isWord : Char → Bool) (h : Undisturbed u) (hrec : Recognised u i) :
    ¬ Survives isWord u i := by
  intro hsurvives
  obtain ⟨hkey, hvalue, hform⟩ := not_taken_of_survives hsurvives
  rw [taken_awsKey] at hkey
  have hvalue' : inValue keyValue u i = false := by
    rw [← taken_keyValue, taken, ← found_keysText h]
    exact hvalue
  rcases hrec with hrec | hrec | hrec
  · rw [hkey] at hrec
    cases hrec
  · rw [hvalue'] at hrec
    cases hrec
  · rw [inValue, Option.any_eq_true] at hrec
    obtain ⟨⟨s, m⟩, hfound, hplace⟩ := hrec
    obtain ⟨_, hlt, hmatch, hstart⟩ := found_spec fits_bearer hfound
    have hkept := bearer_kept hmatch
    have hp : s + m.passed ≤ i := by
      have hle := of_decide_eq_true hplace
      omega
    have hfree : inKeyOrValue u i = false := by
      rw [inKeyOrValue, hkey, hvalue']
      rfl
    have hfirst := token_free h hstart (i := s + m.passed) hp le_rfl hlt hfree
    obtain ⟨m', hfound'⟩ := found_valuesText h hstart hfirst
    have hmatch' := (found_spec fits_bearer hfound').2.2.1
    rw [bearer_valuesText h hstart hfirst] at hmatch'
    obtain rfl := Option.some.inj hmatch'
    have hreach := reaches_free h hstart hp hlt hfree
    have hcovers := found_within (j := i) hfound' (by omega) (by
      simp only [Match.length]
      omega)
    have htaken : taken bearer (valuesText u) i = true :=
      taken_iff.mpr ⟨_, _, hcovers, by dsimp only; omega⟩
    rw [hform] at htaken
    cases htaken

end Undisturbed

end Loker.RedactedSecrets
