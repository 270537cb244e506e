import Loker.PatternRuns
import Loker.TextOps

/-! `redact_secrets`: four patterns, one after the other on the text the one before left. -/

namespace Loker.SecretPatterns

open MatchScan PatternRuns
open TextOps (isWhiteSpace)

section Patterns

/-- `(?i)`: ASCII letters, and the two other characters that fold to one. -/
def fold (c : Char) : Char :=
  if c = Char.ofNat 0x17F then 's' else if c = Char.ofNat 0x212A then 'k' else c.toLower

def isKeyChar (c : Char) : Bool := c.isDigit || c.isUpper

def isAssign (c : Char) : Bool := c = '=' || c = ':'

def isValueChar (c : Char) : Bool := !isWhiteSpace c && c ≠ '\'' && c ≠ '"'

def isTokenChar (c : Char) : Bool :=
  (fold c).isAlphanum || ['.', '_', '-', '~', '+', '/', '='].contains c

def isSeparator (c : Char) : Bool := isWhiteSpace c || c = ':' || c = '='

def isSecretChar (c : Char) : Bool :=
  (fold c).isAlphanum || ['+', '/', '=', '_', '-'].contains c

def awsWord : List Char := ['A', 'K', 'I', 'A']

/-- `api[_-]?key|secret|token|password`. -/
def assignmentWords : List (List Char) :=
  [['a', 'p', 'i', '_', 'k', 'e', 'y'], ['a', 'p', 'i', '-', 'k', 'e', 'y'],
    ['a', 'p', 'i', 'k', 'e', 'y'], ['s', 'e', 'c', 'r', 'e', 't'], ['t', 'o', 'k', 'e', 'n'],
    ['p', 'a', 's', 's', 'w', 'o', 'r', 'd']]

def bearerWord : List Char := ['b', 'e', 'a', 'r', 'e', 'r']

def heuristicWords : List (List Char) :=
  [['k', 'e', 'y'], ['s', 'e', 'c', 'r', 'e', 't'], ['t', 'o', 'k', 'e', 'n']]

/-- `AWS_KEY_RE`. -/
def awsKey : Pattern := fun _ s =>
  (wordAt id [awsWord] s).bind fun n =>
    if 16 ≤ run isKeyChar (s.drop n) then some ⟨0, 0, n + 16⟩ else none

/-- `KEY_VALUE_RE`: the replacement keeps the word and the sign. -/
def keyValue : Pattern := fun _ s =>
  (wordAt fold assignmentWords s).bind fun n =>
    let gap := run isWhiteSpace (s.drop n)
    if (s.drop (n + gap)).head?.any isAssign then
      let lead := n + gap + 1 + run isWhiteSpace (s.drop (n + gap + 1))
      let value := run isValueChar (s.drop lead)
      if value = 0 then none else some ⟨lead, 0, value⟩
    else none

/-- `BEARER_RE`. -/
def bearer : Pattern := fun _ s =>
  (wordAt fold [bearerWord] s).bind fun n =>
    let gap := run isWhiteSpace (s.drop n)
    let token := run isTokenChar (s.drop (n + gap))
    if gap = 0 ∨ token = 0 then none else some ⟨0, n + gap, token⟩

/-- The most separators that leave 32 characters of the value's class. -/
def separators (s : List Char) : ℕ → Option ℕ
  | 0 => none
  | n + 1 => if 32 ≤ run isSecretChar (s.drop (n + 1)) then some (n + 1) else separators s n

/-- `SECRET_HEURISTIC_RE`; `isWord` is the Unicode table behind the word boundary. -/
def secretHeuristic (isWord : Char → Bool) : Pattern := fun before s =>
  if before.any isWord = s.head?.any isWord then none
  else
    (wordAt fold heuristicWords s).bind fun n =>
      (separators (s.drop n) (run isSeparator (s.drop n))).map fun gap =>
        ⟨n, gap, run isSecretChar (s.drop (n + gap))⟩

def redactedText : List Char := ['[', 'R', 'E', 'D', 'A', 'C', 'T', 'E', 'D', ']']

/-- The four passes, over characters with whatever stands beside them. -/
def redact {α : Type} (view : α → Char) (insert : List Char → List α) (isWord : Char → Bool)
    (s : List α) : List α :=
  let keys := replaceAll view awsKey (insert redactedText) s
  let values := replaceAll view keyValue (insert redactedText) keys
  let forms := replaceAll view bearer (insert redactedText) values
  replaceAll view (secretHeuristic isWord) (insert (' ' :: redactedText)) forms

def redactSecrets (isWord : Char → Bool) (input : String) : String :=
  String.ofList (redact id id isWord input.toList)

end Patterns

section Provenance

/-- A character with the place in the input it comes from. -/
abbrev Traced : Type := Char × Option ℕ

def traced (u : List Char) : List Traced := u.mapIdx fun i c => (c, some i)

def inserted (text : List Char) : List Traced := text.map (·, none)

variable {isWord : Char → Bool} {u : List Char}

lemma map_inserted (text : List Char) : (inserted text).map Prod.fst = text := by
  rw [inserted, List.map_map]
  exact List.map_id'' (fun _ => rfl) text

lemma map_traced (u : List Char) : (traced u).map Prod.fst = u := by
  apply List.ext_getElem?
  intro i
  rw [traced, List.getElem?_map, List.getElem?_mapIdx, Option.map_map]
  exact congrFun Option.map_id u[i]?

/-- Where characters come from has no part in what is redacted. -/
lemma map_redact (s : List Traced) : (redact Prod.fst inserted isWord s).map Prod.fst =
    redact id id isWord (s.map Prod.fst) := by
  have hpass : ∀ (pattern : Pattern) (text : List Char) (s : List Traced),
      (replaceAll Prod.fst pattern (inserted text) s).map Prod.fst =
        replaceAll id pattern text (s.map Prod.fst) := by
    intro pattern text s
    have hview : ∀ x : Traced, id x.1 = x.1 := fun _ => rfl
    rw [replaceAll, replaceFrom_map hview, map_inserted, replaceAll]
  rw [redact, hpass, hpass, hpass, hpass, redact]
  rfl

end Provenance

section Blindness

/-- A redacted stretch as the passes after it see it. -/
def marking : Marking Traced := ⟨Prod.fst, inserted redactedText, ']', rfl⟩

variable {isWord : Char → Bool}

lemma stopping_of {p : Char → Bool} (hstop : p ']' = false) (hfirst : p '[' = false) :
    Stopping marking p :=
  ⟨hstop, ('[', none), inserted redactedText.tail, rfl, hfirst⟩

lemma apart_of {f : Char → Char} {w : List Char} (hstop : f ']' ∉ w) (hfirst : f '[' ∉ w) :
    Apart marking f w :=
  ⟨hstop, ('[', none), inserted redactedText.tail, rfl, hfirst⟩

lemma stopping_keyChar : Stopping marking isKeyChar := stopping_of (by decide) (by decide)

lemma stopping_whiteSpace : Stopping marking isWhiteSpace := stopping_of (by decide) (by decide)

lemma stopping_assign : Stopping marking isAssign := stopping_of (by decide) (by decide)

lemma stopping_tokenChar : Stopping marking isTokenChar := stopping_of (by decide) (by decide)

lemma stopping_separator : Stopping marking isSeparator := stopping_of (by decide) (by decide)

lemma stopping_secretChar : Stopping marking isSecretChar := stopping_of (by decide) (by decide)

lemma passing_valueChar : Passing marking isValueChar :=
  ⟨by decide, List.all_eq_true.mp (by decide)⟩

lemma apart_aws : ∀ w ∈ [awsWord], Apart marking id w := by
  intro w hw
  rw [List.mem_singleton.mp hw]
  exact apart_of (by decide) (by decide)

lemma apart_assignment : ∀ w ∈ assignmentWords, Apart marking fold w := by
  intro w hw
  have hall : assignmentWords.all (fun w => fold ']' ∉ w ∧ fold '[' ∉ w) = true := by decide
  obtain ⟨hstop, hfirst⟩ := of_decide_eq_true (List.all_eq_true.mp hall w hw)
  exact apart_of hstop hfirst

lemma apart_bearer : ∀ w ∈ [bearerWord], Apart marking fold w := by
  intro w hw
  rw [List.mem_singleton.mp hw]
  exact apart_of (by decide) (by decide)

lemma apart_heuristic : ∀ w ∈ heuristicWords, Apart marking fold w := by
  intro w hw
  have hall : heuristicWords.all (fun w => fold ']' ∉ w ∧ fold '[' ∉ w) = true := by decide
  obtain ⟨hstop, hfirst⟩ := of_decide_eq_true (List.all_eq_true.mp hall w hw)
  exact apart_of hstop hfirst

lemma wordAt_pos {f : Char → Char} {words : List (List Char)} {s : List Char} {n : ℕ}
    (hwords : words.all (fun w => w ≠ []) = true) (h : wordAt f words s = some n) : 0 < n := by
  obtain ⟨w, hw, rfl, _⟩ := wordAt_eq_some h
  exact List.length_pos_iff.mpr (of_decide_eq_true (List.all_eq_true.mp hwords w hw))

lemma awsKey_eq_some {before : Option Char} {s : List Char} {m : Match}
    (h : awsKey before s = some m) : ∃ n, wordAt id [awsWord] s = some n ∧
      16 ≤ run isKeyChar (s.drop n) ∧ m = ⟨0, 0, n + 16⟩ := by
  rw [awsKey, Option.bind_eq_some_iff] at h
  obtain ⟨n, hword, h⟩ := h
  split at h
  · next hrun => exact ⟨n, hword, hrun, (Option.some.inj h).symm⟩
  · cases h

lemma fits_awsKey : awsKey.Fits := by
  intro before s m h
  obtain ⟨n, hword, hrun, rfl⟩ := awsKey_eq_some h
  have hle := wordAt_le hword
  have hrest := run_le (p := isKeyChar) (s := s.drop n)
  rw [List.length_drop] at hrest
  simp only [Match.length]
  omega

lemma keyValue_eq_some {before : Option Char} {s : List Char} {m : Match}
    (h : keyValue before s = some m) : ∃ n gap gap', wordAt fold assignmentWords s = some n ∧
      gap = run isWhiteSpace (s.drop n) ∧ (s.drop (n + gap)).head?.any isAssign = true ∧
      gap' = run isWhiteSpace (s.drop (n + gap + 1)) ∧
      m = ⟨n + gap + 1 + gap', 0, run isValueChar (s.drop (n + gap + 1 + gap'))⟩ ∧ 0 < m.value := by
  rw [keyValue, Option.bind_eq_some_iff] at h
  obtain ⟨n, hword, h⟩ := h
  dsimp only at h
  split at h
  · next hassign =>
    split at h
    · cases h
    · next hvalue =>
      obtain rfl := Option.some.inj h
      exact ⟨n, _, _, hword, rfl, hassign, rfl, rfl, Nat.pos_of_ne_zero hvalue⟩
  · cases h

lemma bearer_eq_some {before : Option Char} {s : List Char} {m : Match}
    (h : bearer before s = some m) : ∃ n gap, wordAt fold [bearerWord] s = some n ∧
      gap = run isWhiteSpace (s.drop n) ∧ 0 < gap ∧
      m = ⟨0, n + gap, run isTokenChar (s.drop (n + gap))⟩ ∧ 0 < m.value := by
  rw [bearer, Option.bind_eq_some_iff] at h
  obtain ⟨n, hword, h⟩ := h
  dsimp only at h
  split at h
  · cases h
  · next hne =>
    obtain rfl := Option.some.inj h
    exact ⟨n, _, hword, rfl, by omega, rfl, by dsimp only; omega⟩

lemma separators_eq_some {s : List Char} {n gap : ℕ} (h : separators s n = some gap) :
    0 < gap ∧ gap ≤ n ∧ 32 ≤ run isSecretChar (s.drop gap) := by
  induction n with
  | zero => cases h
  | succ n ih =>
      rw [separators] at h
      split at h
      · next hrun =>
        obtain rfl := Option.some.inj h
        exact ⟨n.succ_pos, le_rfl, hrun⟩
      · obtain ⟨hpos, hle, hrun⟩ := ih h
        exact ⟨hpos, by omega, hrun⟩

lemma separators_isSome {s : List Char} {n gap : ℕ} (hpos : 0 < gap) (hle : gap ≤ n)
    (hrun : 32 ≤ run isSecretChar (s.drop gap)) : ∃ gap', separators s n = some gap' := by
  induction n with
  | zero => omega
  | succ n ih =>
      rw [separators]
      split
      · exact ⟨n + 1, rfl⟩
      · next hshort =>
        have hne : gap ≠ n + 1 := by
          rintro rfl
          exact hshort hrun
        exact ih (by omega)

lemma secretHeuristic_eq_some {before : Option Char} {s : List Char} {m : Match}
    (h : secretHeuristic isWord before s = some m) :
    before.any isWord ≠ s.head?.any isWord ∧
      ∃ n gap, wordAt fold heuristicWords s = some n ∧
        separators (s.drop n) (run isSeparator (s.drop n)) = some gap ∧
        m = ⟨n, gap, run isSecretChar (s.drop (n + gap))⟩ := by
  rw [secretHeuristic] at h
  split at h
  · cases h
  · next hboundary =>
    obtain ⟨n, hword, h⟩ := Option.bind_eq_some_iff.mp h
    obtain ⟨gap, hgap, rfl⟩ := Option.map_eq_some_iff.mp h
    exact ⟨hboundary, n, gap, hword, hgap, rfl⟩

lemma fits_keyValue : keyValue.Fits := by
  intro before s m h
  obtain ⟨n, gap, gap', _, _, _, _, rfl, hpos⟩ := keyValue_eq_some h
  have hrest := run_le (p := isValueChar) (s := s.drop (n + gap + 1 + gap'))
  rw [List.length_drop] at hrest
  simp only [Match.length] at hpos ⊢
  omega

lemma fits_bearer : bearer.Fits := by
  intro before s m h
  obtain ⟨n, gap, _, _, _, rfl, hpos⟩ := bearer_eq_some h
  have hrest := run_le (p := isTokenChar) (s := s.drop (n + gap))
  rw [List.length_drop] at hrest
  simp only [Match.length] at hpos ⊢
  omega

lemma fits_secretHeuristic : (secretHeuristic isWord).Fits := by
  intro before s m h
  obtain ⟨_, n, gap, _, hgap, rfl⟩ := secretHeuristic_eq_some h
  obtain ⟨hpos, _, hrun⟩ := separators_eq_some hgap
  rw [List.drop_drop] at hrun
  have hrest := run_le (p := isSecretChar) (s := s.drop (n + gap))
  rw [List.length_drop] at hrest
  simp only [Match.length]
  omega

/-- Two texts differ where both have a character. -/
def differ (a b : List Char) : Bool := (a.zip b).any fun p => p.1 ≠ p.2

lemma not_prefix_of_differ {a b t : List Char} (h : differ a b = true) : ¬ a <+: b ++ t := by
  induction a generalizing b with
  | nil => cases h
  | cons x a ih =>
      cases b with
      | nil => cases h
      | cons y b =>
          intro hprefix
          rw [List.cons_append, List.cons_prefix_cons] at hprefix
          obtain ⟨rfl, hrest⟩ := hprefix
          rw [differ, List.zip_cons_cons, List.any_cons] at h
          exact ih (by simpa [differ] using h) hrest

/-- No word begins inside the redacted text. -/
lemma wordAt_inside {f : Char → Char} {words : List (List Char)} {v w : List Traced}
    (hwords : redactedText.tails.all (fun w => w = [] ∨
      words.all (fun word => differ word (w.map f)) = true) = true) (s : List Traced)
    (h : marking.marker = v ++ w) (hne : w ≠ []) :
    wordAt f words ((w ++ s).map marking.view) = none := by
  have hmem : w.map Prod.fst ∈ redactedText.tails := by
    rw [List.mem_tails, ← map_inserted redactedText]
    exact (h ▸ List.suffix_append v w : w <:+ marking.marker).map Prod.fst
  have hall := of_decide_eq_true (List.all_eq_true.mp hwords _ hmem)
  have hall := hall.resolve_left (by simpa using hne)
  cases hword : wordAt f words ((w ++ s).map marking.view) with
  | none => rfl
  | some n =>
      obtain ⟨word, hin, _, hprefix⟩ := wordAt_eq_some hword
      rw [List.map_append, List.map_append] at hprefix
      exact absurd hprefix (not_prefix_of_differ (List.all_eq_true.mp hall word hin))

/-- No word begins at a mark. -/
lemma wordAt_stop {f : Char → Char} {words : List (List Char)}
    (hwords : words.all (fun word => differ word [f ']']) = true) (s : List Char) :
    wordAt f words (marking.stop :: s) = none := by
  cases hword : wordAt f words (marking.stop :: s) with
  | none => rfl
  | some n =>
      obtain ⟨word, hin, _, hprefix⟩ := wordAt_eq_some hword
      rw [List.map_cons, ← List.singleton_append] at hprefix
      exact absurd hprefix (not_prefix_of_differ (List.all_eq_true.mp hwords word hin))

lemma blind_awsKey : marking.Blind awsKey where
  fits := fits_awsKey
  inside before v w s h hne := by
    rw [awsKey, wordAt_inside (by decide) s h hne]
    rfl
  stop before v := by
    rw [awsKey, wordAt_stop (by decide)]
    rfl
  agrees before x S h := by
    rw [awsKey, awsKey, wordAt_render apart_aws h]
    cases hword : wordAt id [awsWord] (marking.chars (.item x :: S)) with
    | none => rfl
    | some n =>
        have hplain := plain_of_wordAt apart_aws h hword
        obtain ⟨hrun, hitems⟩ := run_stopping_at h hplain stopping_keyChar
        rw [Option.bind_some, Option.bind_some, hrun]
        split
        · next hlong =>
          rw [Option.map_some, widened_plain]
          exact hitems.mono (by simp only [Match.length]; omega)
        · rfl

lemma blind_bearer : marking.Blind bearer where
  fits := fits_bearer
  inside before v w s h hne := by
    rw [bearer, wordAt_inside (by decide) s h hne]
    rfl
  stop before v := by
    rw [bearer, wordAt_stop (by decide)]
    rfl
  agrees before x S h := by
    rw [bearer, bearer, wordAt_render apart_bearer h]
    cases hword : wordAt fold [bearerWord] (marking.chars (.item x :: S)) with
    | none => rfl
    | some n =>
        have hplain := plain_of_wordAt apart_bearer h hword
        obtain ⟨hgap, hlead⟩ := run_stopping_at h hplain stopping_whiteSpace
        obtain ⟨htoken, hitems⟩ := run_stopping_at h hlead stopping_tokenChar
        rw [Option.bind_some, Option.bind_some, hgap]
        dsimp only
        rw [htoken]
        split
        · rfl
        · rw [Option.map_some, widened_plain]
          exact hitems.mono (by simp only [Match.length]; omega)

lemma blind_keyValue : marking.Blind keyValue where
  fits := fits_keyValue
  inside before v w s h hne := by
    rw [keyValue, wordAt_inside (by decide) s h hne]
    rfl
  stop before v := by
    rw [keyValue, wordAt_stop (by decide)]
    rfl
  agrees before x S h := by
    rw [keyValue, keyValue, wordAt_render apart_assignment h]
    cases hword : wordAt fold assignmentWords (marking.chars (.item x :: S)) with
    | none => rfl
    | some n =>
        have hplain := plain_of_wordAt apart_assignment h hword
        obtain ⟨hgap, hspaced⟩ := run_stopping_at h hplain stopping_whiteSpace
        obtain ⟨hsign, hsigned⟩ := head_stopping_at h hspaced stopping_assign
        rw [Option.bind_some, Option.bind_some, hgap]
        dsimp only
        rw [hsign]
        split
        · next hassign =>
          obtain ⟨hgap', hlead⟩ := run_stopping_at h (hsigned hassign) stopping_whiteSpace
          rw [hgap', run_passing_at hlead passing_valueChar]
          generalize hvalue : run isValueChar ((marking.chars (.item x :: S)).drop _) = value
          rcases Nat.eq_zero_or_pos value with rfl | hpos
          · rfl
          · have hlt := lt_of_run_pos (hvalue ▸ hpos)
            rw [length_chars] at hlt
            have hmarker : marking.marker ≠ [] := List.cons_ne_nil _ _
            have hshown := length_render_pos h hlead hmarker hpos hlt
            rw [if_neg hshown.ne', if_neg hpos.ne', Option.map_some, widened_lead]
            · rfl
            · exact hlead
        · rfl

lemma separators_shown {S : List (Place Traced)} {n : ℕ} (h : Joined S) (hplain : Plain n S) :
    separators ((marking.render S).map marking.view) n = separators (marking.chars S) n := by
  induction n with
  | zero => rfl
  | succ n ih =>
      have hrun := (run_stopping_at h hplain stopping_secretChar).1
      rw [separators, separators, hrun, ih (hplain.mono n.le_succ)]

lemma blind_secretHeuristic : marking.Blind (secretHeuristic isWord) where
  fits := fits_secretHeuristic
  inside before v w s h hne := by
    rw [secretHeuristic, wordAt_inside (by decide) s h hne]
    split <;> rfl
  stop before v := by
    rw [secretHeuristic, wordAt_stop (by decide)]
    split <;> rfl
  agrees before x S h := by
    have hhead : ((marking.render (.item x :: S)).map marking.view).head? =
        (marking.chars (.item x :: S)).head? := rfl
    rw [secretHeuristic, secretHeuristic, hhead, wordAt_render apart_heuristic h]
    split
    · rfl
    cases hword : wordAt fold heuristicWords (marking.chars (.item x :: S)) with
    | none => rfl
    | some n =>
        have hplain := plain_of_wordAt apart_heuristic h hword
        obtain ⟨hgap, hlead⟩ := run_stopping_at h hplain stopping_separator
        have hjoined := Joined.drop_plain h hplain
        rw [Option.bind_some, Option.bind_some, hgap, drop_shown hplain, drop_chars,
          separators_shown hjoined (drop_chars (k := marking) _ n ▸ hlead.of_add)]
        cases hsep : separators (marking.chars ((Place.item x :: S).drop n)) _ with
        | none => rfl
        | some gap =>
            obtain ⟨_, hle, _⟩ := separators_eq_some hsep
            have hspaced : Plain (n + gap) (.item x :: S) :=
              hlead.mono (by rw [drop_chars]; omega)
            obtain ⟨hvalue, hitems⟩ := run_stopping_at h hspaced stopping_secretChar
            rw [Option.map_some, Option.map_some, Option.map_some, hvalue, widened_plain]
            exact hitems.mono (by simp only [Match.length]; omega)

end Blindness

section Agreement

variable {isWord : Char → Bool} {before before' : Option Char} {s t : List Char} {m : Match}

lemma any_of_run {p : Char → Bool} {n : ℕ} (h : 0 < run p (s.drop n)) : s[n]?.any p = true := by
  obtain ⟨c, hc, hp⟩ := run_all h
  rw [List.getElem?_drop, Nat.add_zero] at hc
  rw [hc]
  exact hp

def whiteSpaceCodes : List ℕ :=
  [9, 10, 11, 12, 13, 32, 0x85, 0xa0, 0x1680, 0x2000, 0x2001, 0x2002, 0x2003, 0x2004, 0x2005,
    0x2006, 0x2007, 0x2008, 0x2009, 0x200a, 0x2028, 0x2029, 0x202f, 0x205f, 0x3000]

lemma of_isWhiteSpace {p : Char → Bool} {c : Char} (h : isWhiteSpace c = true)
    (hp : whiteSpaceCodes.all (fun n => p (Char.ofNat n)) = true) : p c = true := by
  have hmem : c.toNat ∈ whiteSpaceCodes := by
    simp only [isWhiteSpace, Bool.or_eq_true, Bool.and_eq_true, decide_eq_true_eq] at h
    simp only [whiteSpaceCodes, List.mem_cons, List.not_mem_nil, or_false]
    omega
  have hat := List.all_eq_true.mp hp _ hmem
  rwa [Char.ofNat_toNat] at hat

lemma not_tokenChar_of_whiteSpace {c : Char} (h : isWhiteSpace c = true) :
    isTokenChar c = false := by
  have hnot := of_isWhiteSpace (p := fun c => !isTokenChar c) h (by decide)
  simpa using hnot

lemma not_whiteSpace_of_token {o : Option Char} (h : o.any isTokenChar = true) :
    o.any isWhiteSpace = false := by
  cases o with
  | none => rfl
  | some c =>
      cases hc : isWhiteSpace c with
      | false => exact hc
      | true =>
          rw [Option.any_some, not_tokenChar_of_whiteSpace hc] at h
          cases h

lemma not_whiteSpace_of_value {o : Option Char} (h : o.any isValueChar = true) :
    o.any isWhiteSpace = false := by
  cases o with
  | none => rfl
  | some c =>
      rw [Option.any_some, isValueChar, Bool.and_eq_true, Bool.and_eq_true] at h
      simpa using h.1.1

lemma awsKey_congr (h : awsKey before s = some m) (hagree : ∀ i < m.length, t[i]? = s[i]?) :
    awsKey before' t = some m := by
  obtain ⟨n, hword, hrun, rfl⟩ := awsKey_eq_some h
  have hword' := wordAt_congr (t := t) (by decide) (fun i hi => hagree i (by
    simp only [Match.length]
    omega)) hword
  have hrun' : 16 ≤ run isKeyChar (t.drop n) := by
    apply le_run_congr hrun
    intro i hi
    rw [List.getElem?_drop, List.getElem?_drop, hagree (n + i) (by simp only [Match.length]; omega)]
  rw [awsKey, hword', Option.bind_some, if_pos hrun']

/-- A text with the same lead and the begin of a value matches, with the value it has. -/
lemma keyValue_lead_congr (h : keyValue before s = some m) (hlead : ∀ i < m.kept, t[i]? = s[i]?)
    (hfirst : t[m.kept]?.any isValueChar = true) :
    keyValue before' t = some ⟨m.kept, 0, run isValueChar (t.drop m.kept)⟩ := by
  obtain ⟨n, gap, gap', hword, hgap, hsign, hgap', rfl, hpos⟩ := keyValue_eq_some h
  dsimp only at hlead hfirst hpos ⊢
  have hword' := wordAt_congr (t := t) (by decide) (fun i hi => hlead i (by omega)) hword
  have hspace : run isWhiteSpace (t.drop n) = gap := by
    rw [hgap]
    apply run_congr
    intro i hi
    rw [List.getElem?_drop, List.getElem?_drop, hlead (n + i) (by omega)]
  have hsign' : (t.drop (n + gap)).head?.any isAssign = true := by
    rw [List.head?_drop] at hsign ⊢
    rwa [hlead (n + gap) (by omega)]
  have hspace' : run isWhiteSpace (t.drop (n + gap + 1)) = gap' := by
    rw [hgap']
    apply run_congr
    intro i hi
    rw [List.getElem?_drop, List.getElem?_drop]
    rcases Nat.lt_or_ge i gap' with hlt | hge
    · rw [hlead (n + gap + 1 + i) (by omega)]
    · have heq : i = gap' := by omega
      rw [heq, not_whiteSpace_of_value (any_of_run hpos), not_whiteSpace_of_value hfirst]
  have hrun : 1 ≤ run isValueChar (t.drop (n + gap + 1 + gap')) := by
    apply le_run_congr hpos
    intro i hi
    obtain rfl : i = 0 := by omega
    rw [List.getElem?_drop, List.getElem?_drop, Nat.add_zero, hfirst, any_of_run hpos]
  rw [keyValue, hword', Option.bind_some]
  dsimp only
  rw [hspace, if_pos hsign', hspace', if_neg (by omega)]

lemma keyValue_value (h : keyValue before s = some m) :
    m = ⟨m.kept, 0, run isValueChar (s.drop m.kept)⟩ ∧ 0 < m.value := by
  obtain ⟨n, gap, gap', _, _, _, _, rfl, hpos⟩ := keyValue_eq_some h
  exact ⟨rfl, hpos⟩

lemma keyValue_length (h : keyValue before s = some m) :
    m.length = m.kept + run isValueChar (s.drop m.kept) := by
  obtain ⟨n, gap, gap', _, _, _, _, rfl, _⟩ := keyValue_eq_some h
  simp only [Match.length]
  omega

lemma keyValue_kept_lt (h : keyValue before s = some m) : m.kept < m.length := by
  obtain ⟨n, gap, gap', _, _, _, _, rfl, hpos⟩ := keyValue_eq_some h
  simp only [Match.length] at hpos ⊢
  omega

/-- A value goes as far as it can. -/
lemma keyValue_end (h : keyValue before s = some m) : s[m.length]?.any isValueChar = false := by
  rw [keyValue_length h, ← List.getElem?_drop]
  cases hc : (s.drop m.kept)[run isValueChar (s.drop m.kept)]? with
  | none => rfl
  | some c => exact run_stops hc

/-- A text with the same lead, and a value of the same length, matches alike. -/
lemma keyValue_congr (h : keyValue before s = some m) (hlead : ∀ i < m.kept, t[i]? = s[i]?)
    (hvalue : ∀ i ≤ m.value, t[m.kept + i]?.any isValueChar = s[m.kept + i]?.any isValueChar) :
    keyValue before' t = some m := by
  obtain ⟨hm, hpos⟩ := keyValue_value h
  have hlength : m.value = run isValueChar (s.drop m.kept) := congrArg Match.value hm
  have hfirst : t[m.kept]?.any isValueChar = true :=
    (hvalue 0 (Nat.zero_le _)).trans (any_of_run (hlength ▸ hpos))
  have hrun : run isValueChar (t.drop m.kept) = run isValueChar (s.drop m.kept) := by
    apply run_congr
    intro i hi
    rw [List.getElem?_drop, List.getElem?_drop]
    exact hvalue i (by omega)
  rw [keyValue_lead_congr h hlead hfirst, hrun]
  exact congrArg some hm.symm

lemma bearer_congr (h : bearer before s = some m) (hlead : ∀ i < m.passed, t[i]? = s[i]?)
    (hfirst : t[m.passed]?.any isTokenChar = true) :
    bearer before' t = some ⟨0, m.passed, run isTokenChar (t.drop m.passed)⟩ := by
  obtain ⟨n, gap, hword, hgap, hgap_pos, rfl, hpos⟩ := bearer_eq_some h
  dsimp only at hlead hfirst hpos ⊢
  have hword' := wordAt_congr (t := t) (by decide) (fun i hi => hlead i (by omega)) hword
  have hspace : run isWhiteSpace (t.drop n) = gap := by
    rw [hgap]
    apply run_congr
    intro i hi
    rw [List.getElem?_drop, List.getElem?_drop]
    rcases Nat.lt_or_ge i gap with hlt | hge
    · rw [hlead (n + i) (by omega)]
    · have heq : i = gap := by omega
      rw [heq, not_whiteSpace_of_token hfirst, not_whiteSpace_of_token (any_of_run hpos)]
  have hrun : 1 ≤ run isTokenChar (t.drop (n + gap)) := by
    apply le_run_congr hpos
    intro i hi
    obtain rfl : i = 0 := by omega
    rw [List.getElem?_drop, List.getElem?_drop, Nat.add_zero, hfirst, any_of_run hpos]
  rw [bearer, hword', Option.bind_some]
  dsimp only
  rw [hspace, if_neg (by omega)]

/-- A match of the heuristic needs no more than 32 characters of its value. -/
lemma secretHeuristic_congr (h : secretHeuristic isWord before s = some m)
    (hagree : ∀ i < m.kept + m.passed + 32, t[i]? = s[i]?) :
    ∃ m', secretHeuristic isWord before t = some m' ∧ m'.kept = m.kept := by
  obtain ⟨hboundary, n, gap, hword, hsep, rfl⟩ := secretHeuristic_eq_some h
  obtain ⟨hpos, hle, hrun⟩ := separators_eq_some hsep
  dsimp only at hagree
  have hword' := wordAt_congr (t := t) (by decide) (fun i hi => hagree i (by omega)) hword
  have hhead : t.head? = s.head? := by
    rw [List.head?_eq_getElem?, List.head?_eq_getElem?, hagree 0 (by omega)]
  have hsep' : gap ≤ run isSeparator (t.drop n) := by
    apply le_run_congr hle
    intro i hi
    rw [List.getElem?_drop, List.getElem?_drop, hagree (n + i) (by omega)]
  have hrun' : 32 ≤ run isSecretChar ((t.drop n).drop gap) := by
    apply le_run_congr hrun
    intro i hi
    simp only [List.getElem?_drop]
    rw [hagree (n + (gap + i)) (by omega)]
  obtain ⟨gap', hgap'⟩ := separators_isSome hpos hsep' hrun'
  refine ⟨⟨n, gap', run isSecretChar (t.drop (n + gap'))⟩, ?_, rfl⟩
  rw [secretHeuristic, hhead, if_neg hboundary, hword', Option.bind_some, hgap', Option.map_some]

end Agreement

section Leads

variable {isWord : Char → Bool} {before : Option Char} {s : List Char} {m : Match} {c : Char}
  {words : List (List Char)} {i n : ℕ}

/-- The characters of the patterns' words. -/
def isWordChar (c : Char) : Bool := c.isLower || c = '_' || c = '-'

lemma not_wordChar_of_separator (h : isSeparator c = true) : isWordChar (fold c) = false := by
  rw [isSeparator, Bool.or_eq_true, Bool.or_eq_true] at h
  rcases h with (h | h) | h
  · have hnot := of_isWhiteSpace (p := fun c => !isWordChar (fold c)) h (by decide)
    simpa using hnot
  · rw [of_decide_eq_true h]
    decide
  · rw [of_decide_eq_true h]
    decide

lemma ne_bracket_of_lead (h : isWordChar (fold c) = true ∨ isSeparator c = true) : c ≠ ']' := by
  rintro rfl
  revert h
  decide

lemma separator_of_assign (h : isAssign c = true) : isSeparator c = true := by
  rw [isAssign, Bool.or_eq_true] at h
  rcases h with h | h
  · rw [of_decide_eq_true h]
    decide
  · rw [of_decide_eq_true h]
    decide

lemma separator_of_whiteSpace (h : isWhiteSpace c = true) : isSeparator c = true := by
  rw [isSeparator, h]
  rfl

/-- No word begins at a separator. -/
lemma wordAt_separator (hwords : words.all (fun w => w ≠ [] ∧ w.all isWordChar = true) = true)
    (hc : s[i]? = some c) (hsep : isSeparator c = true) : wordAt fold words (s.drop i) = none := by
  cases hword : wordAt fold words (s.drop i) with
  | none => rfl
  | some n =>
      have hne : words.all (fun w => w ≠ []) = true := by
        rw [List.all_eq_true] at hwords ⊢
        exact fun w hw => decide_eq_true (of_decide_eq_true (hwords w hw)).1
      have hcls : words.all (fun w => w.all isWordChar) = true := by
        rw [List.all_eq_true] at hwords ⊢
        exact fun w hw => (of_decide_eq_true (hwords w hw)).2
      obtain ⟨d, hd, hchar⟩ := wordAt_char isWordChar hcls hword (wordAt_pos hne hword)
      rw [List.getElem?_drop, Nat.add_zero, hc] at hd
      rw [← Option.some.inj hd, not_wordChar_of_separator hsep] at hchar
      cases hchar

lemma keyValue_lead (h : keyValue before s = some m) : ∃ n < m.kept,
    wordAt fold assignmentWords s = some n ∧
      ∀ i, n ≤ i → i < m.kept → ∃ c, s[i]? = some c ∧ isSeparator c = true := by
  obtain ⟨n, gap, gap', hword, hgap, hsign, hgap', rfl, _⟩ := keyValue_eq_some h
  refine ⟨n, by dsimp only; omega, hword, fun i hn hi => ?_⟩
  dsimp only at hi
  rcases Nat.lt_trichotomy i (n + gap) with hlt | heq | hgt
  · obtain ⟨c, hc, hp⟩ := run_all (p := isWhiteSpace) (s := s.drop n) (i := i - n) (by omega)
    rw [List.getElem?_drop, Nat.add_sub_cancel' hn] at hc
    exact ⟨c, hc, separator_of_whiteSpace hp⟩
  · rw [List.head?_drop, ← heq, Option.any_eq_true] at hsign
    obtain ⟨c, hc, hp⟩ := hsign
    exact ⟨c, hc, separator_of_assign hp⟩
  · obtain ⟨c, hc, hp⟩ := run_all (p := isWhiteSpace) (s := s.drop (n + gap + 1))
      (i := i - (n + gap + 1)) (by omega)
    rw [List.getElem?_drop, Nat.add_sub_cancel' (by omega)] at hc
    exact ⟨c, hc, separator_of_whiteSpace hp⟩

/-- A lead that ends with a blank has another separator before it. -/
lemma keyValue_blank (h : keyValue before s = some m) (hi : i + 1 = m.kept)
    (hblank : s[i]? = some ' ') : ∃ j c, i = j + 1 ∧ s[j]? = some c ∧ isSeparator c = true := by
  obtain ⟨n, gap, gap', hword, _, hsign, _, rfl, _⟩ := keyValue_eq_some h
  have hpos := wordAt_pos (by decide) hword
  have hne : i ≠ n + gap := by
    rintro rfl
    rw [List.head?_drop, hblank] at hsign
    exact absurd hsign (by decide)
  dsimp only at hi
  obtain ⟨n', hn', hword', hseps⟩ := keyValue_lead h
  rw [hword] at hword'
  obtain rfl := Option.some.inj hword'
  obtain ⟨c, hc, hsep⟩ := hseps (i - 1) (by omega) (by dsimp only; omega)
  exact ⟨i - 1, c, by omega, hc, hsep⟩

lemma keyValue_leadChar (h : keyValue before s = some m) (hi : i < m.kept) :
    ∃ c, s[i]? = some c ∧ (isWordChar (fold c) = true ∨ isSeparator c = true) := by
  obtain ⟨n, _, hword, hseps⟩ := keyValue_lead h
  rcases Nat.lt_or_ge i n with hlt | hge
  · obtain ⟨c, hc, hchar⟩ := wordAt_char isWordChar (by decide) hword hlt
    exact ⟨c, hc, .inl hchar⟩
  · obtain ⟨c, hc, hsep⟩ := hseps i hge hi
    exact ⟨c, hc, .inr hsep⟩

/-- No assignment begins inside the lead of another. -/
lemma keyValue_within (h : keyValue before s = some m) (hpos : 0 < i) (hi : i < m.kept)
    (before' : Option Char) : keyValue before' (s.drop i) = none := by
  obtain ⟨n, hn, hword, hseps⟩ := keyValue_lead h
  have hnone : wordAt fold assignmentWords (s.drop i) = none := by
    rcases Nat.lt_or_ge i n with hlt | hge
    · apply wordAt_within isWordChar (by decide) (by decide) hword _ hpos hlt
      intro c hc
      obtain ⟨d, hd, hsep⟩ := hseps n le_rfl hn
      rw [hc] at hd
      rw [Option.some.inj hd]
      exact not_wordChar_of_separator hsep
    · obtain ⟨c, hc, hsep⟩ := hseps i hge hi
      exact wordAt_separator (by decide) hc hsep
  rw [keyValue, hnone]
  rfl

lemma bearer_lead (h : bearer before s = some m) : ∃ n < m.passed,
    wordAt fold [bearerWord] s = some n ∧
      ∀ i, n ≤ i → i < m.passed → ∃ c, s[i]? = some c ∧ isWhiteSpace c = true := by
  obtain ⟨n, gap, hword, hgap, hpos, rfl, _⟩ := bearer_eq_some h
  refine ⟨n, by dsimp only; omega, hword, fun i hn hi => ?_⟩
  dsimp only at hi
  obtain ⟨c, hc, hp⟩ := run_all (p := isWhiteSpace) (s := s.drop n) (i := i - n) (by omega)
  rw [List.getElem?_drop, Nat.add_sub_cancel' hn] at hc
  exact ⟨c, hc, hp⟩

lemma bearer_kept (h : bearer before s = some m) : m.kept = 0 := by
  obtain ⟨n, gap, _, _, _, rfl, _⟩ := bearer_eq_some h
  rfl

lemma bearer_value (h : bearer before s = some m) :
    m.length = m.passed + run isTokenChar (s.drop m.passed) := by
  obtain ⟨n, gap, _, _, _, rfl, _⟩ := bearer_eq_some h
  simp only [Match.length]
  omega

lemma bearer_passed_lt (h : bearer before s = some m) : m.passed < m.length := by
  obtain ⟨n, gap, _, _, _, rfl, hpos⟩ := bearer_eq_some h
  simp only [Match.length] at hpos ⊢
  omega

lemma bearer_token (h : bearer before s = some m) (hi : m.passed ≤ i) (hlt : i < m.length) :
    s[i]?.any isTokenChar = true := by
  rw [bearer_value h] at hlt
  obtain ⟨c, hc, hp⟩ := run_all (p := isTokenChar) (s := s.drop m.passed) (i := i - m.passed)
    (by omega)
  rw [List.getElem?_drop, Nat.add_sub_cancel' hi] at hc
  rw [hc]
  exact hp

/-- A bearer form holds no bracket. -/
lemma bearer_char (h : bearer before s = some m) (hi : i < m.length) :
    ∃ c, s[i]? = some c ∧ c ≠ ']' := by
  obtain ⟨n, _, hword, hspaces⟩ := bearer_lead h
  rcases Nat.lt_or_ge i m.passed with hlt | hge
  · rcases Nat.lt_or_ge i n with hin | hout
    · obtain ⟨c, hc, hchar⟩ := wordAt_char isWordChar (by decide) hword hin
      exact ⟨c, hc, ne_bracket_of_lead (.inl hchar)⟩
    · obtain ⟨c, hc, hspace⟩ := hspaces i hout hlt
      exact ⟨c, hc, ne_bracket_of_lead (.inr (separator_of_whiteSpace hspace))⟩
  · have htoken := bearer_token h hge hi
    obtain ⟨c, hc, hp⟩ := (Option.any_eq_true _ _).mp htoken
    refine ⟨c, hc, ?_⟩
    rintro rfl
    revert hp
    decide

/-- No bearer form begins inside the lead of another. -/
lemma bearer_within (h : bearer before s = some m) (hpos : 0 < i) (hi : i < m.passed)
    (before' : Option Char) : bearer before' (s.drop i) = none := by
  obtain ⟨n, hn, hword, hspaces⟩ := bearer_lead h
  have hnone : wordAt fold [bearerWord] (s.drop i) = none := by
    rcases Nat.lt_or_ge i n with hlt | hge
    · apply wordAt_within isWordChar (by decide) (by decide) hword _ hpos hlt
      intro c hc
      obtain ⟨d, hd, hspace⟩ := hspaces n le_rfl hn
      rw [hc] at hd
      rw [Option.some.inj hd]
      exact not_wordChar_of_separator (separator_of_whiteSpace hspace)
    · obtain ⟨c, hc, hspace⟩ := hspaces i hge hi
      exact wordAt_separator (by decide) hc (separator_of_whiteSpace hspace)
  rw [bearer, hnone]
  rfl

lemma valueChar_of_word {c : Char} (h : isWordChar (fold c) = true) : isValueChar c = true := by
  have hspace : isWhiteSpace c = false := by
    cases hc : isWhiteSpace c with
    | false => rfl
    | true =>
        rw [not_wordChar_of_separator (separator_of_whiteSpace hc)] at h
        cases h
  have hsingle : c ≠ '\'' := by
    rintro rfl
    exact absurd h (by decide)
  have hdouble : c ≠ '"' := by
    rintro rfl
    exact absurd h (by decide)
  simp [isValueChar, hspace, hsingle, hdouble]

lemma bearer_first (h : bearer before s = some m) :
    s[0]?.any isValueChar = true := by
  obtain ⟨n, _, hword, _⟩ := bearer_lead h
  obtain ⟨c, hc, hchar⟩ := wordAt_char isWordChar (by decide) hword
    (wordAt_pos (by decide) hword)
  rw [hc]
  exact valueChar_of_word hchar

lemma keyValue_valueChar (h : keyValue before s = some m) (hi : m.kept ≤ i) (hlt : i < m.length) :
    s[i]?.any isValueChar = true := by
  obtain ⟨n, gap, gap', _, _, _, _, rfl, _⟩ := keyValue_eq_some h
  simp only [Match.length] at hi hlt
  obtain ⟨c, hc, hp⟩ := run_all (p := isValueChar) (s := s.drop (n + gap + 1 + gap'))
    (i := i - (n + gap + 1 + gap')) (by omega)
  rw [List.getElem?_drop, Nat.add_sub_cancel' hi] at hc
  rw [hc]
  exact hp

lemma secretHeuristic_word (h : secretHeuristic isWord before s = some m) :
    wordAt fold heuristicWords s = some m.kept ∧ 0 < m.kept ∧ 0 < m.passed ∧ 32 ≤ m.value := by
  obtain ⟨_, n, gap, hword, hsep, rfl⟩ := secretHeuristic_eq_some h
  obtain ⟨hpos, _, hrun⟩ := separators_eq_some hsep
  rw [List.drop_drop] at hrun
  exact ⟨hword, wordAt_pos (by decide) hword, hpos, hrun⟩

lemma secretHeuristic_separator (h : secretHeuristic isWord before s = some m) (hi : m.kept ≤ i)
    (hlt : i < m.kept + m.passed) : ∃ c, s[i]? = some c ∧ isSeparator c = true := by
  obtain ⟨_, n, gap, _, hsep, rfl⟩ := secretHeuristic_eq_some h
  obtain ⟨_, hle, _⟩ := separators_eq_some hsep
  dsimp only at hi hlt
  obtain ⟨c, hc, hp⟩ := run_all (p := isSeparator) (s := s.drop n) (i := i - n) (by omega)
  rw [List.getElem?_drop, Nat.add_sub_cancel' hi] at hc
  exact ⟨c, hc, hp⟩

lemma secretHeuristic_value (h : secretHeuristic isWord before s = some m)
    (hi : m.kept + m.passed ≤ i) (hlt : i < m.length) : s[i]?.any isSecretChar = true := by
  obtain ⟨_, n, gap, _, _, rfl⟩ := secretHeuristic_eq_some h
  simp only [Match.length] at hi hlt
  obtain ⟨c, hc, hp⟩ := run_all (p := isSecretChar) (s := s.drop (n + gap)) (i := i - (n + gap))
    (by omega)
  rw [List.getElem?_drop, Nat.add_sub_cancel' hi] at hc
  rw [hc]
  exact hp

lemma secretHeuristic_first (h : secretHeuristic isWord before s = some m) :
    s[0]?.any isSecretChar = true := by
  obtain ⟨hword, hkept, _⟩ := secretHeuristic_word h
  obtain ⟨c, hc, hlower⟩ := wordAt_char Char.isLower (by decide) hword hkept
  rw [hc, Option.any_some, isSecretChar, Char.isAlphanum, Char.isAlpha, hlower]
  simp

/-- A value of the heuristic goes as far as it can. -/
lemma secretHeuristic_end (h : secretHeuristic isWord before s = some m) :
    s[m.length]?.any isSecretChar = false := by
  obtain ⟨_, n, gap, _, _, rfl⟩ := secretHeuristic_eq_some h
  simp only [Match.length]
  cases hc : s[n + gap + run isSecretChar (s.drop (n + gap))]? with
  | none => rfl
  | some c =>
      rw [← List.getElem?_drop] at hc
      exact run_stops hc

lemma secretHeuristic_char (h : secretHeuristic isWord before s = some m) (hi : i < m.length) :
    ∃ c, s[i]? = some c ∧ c ≠ ']' := by
  obtain ⟨hword, _⟩ := secretHeuristic_word h
  rcases Nat.lt_or_ge i m.kept with hlt | hge
  · obtain ⟨c, hc, hchar⟩ := wordAt_char isWordChar (by decide) hword hlt
    exact ⟨c, hc, ne_bracket_of_lead (.inl hchar)⟩
  rcases Nat.lt_or_ge i (m.kept + m.passed) with hlt | hvalue
  · obtain ⟨c, hc, hsep⟩ := secretHeuristic_separator h hge hlt
    exact ⟨c, hc, ne_bracket_of_lead (.inr hsep)⟩
  · obtain ⟨c, hc, hp⟩ := (Option.any_eq_true _ _).mp (secretHeuristic_value h hvalue hi)
    refine ⟨c, hc, ?_⟩
    rintro rfl
    revert hp
    decide

/-- No match of the heuristic begins inside the word of another. -/
lemma secretHeuristic_within (h : secretHeuristic isWord before s = some m) (hpos : 0 < i)
    (hi : i < m.kept) : wordAt fold heuristicWords (s.drop i) = none := by
  obtain ⟨hword, _, hpassed, _⟩ := secretHeuristic_word h
  apply wordAt_within isWordChar (by decide) (by decide) hword _ hpos hi
  intro c hc
  obtain ⟨d, hd, hsep⟩ := secretHeuristic_separator h le_rfl (Nat.lt_add_of_pos_right hpassed)
  rw [hc] at hd
  rw [Option.some.inj hd]
  exact not_wordChar_of_separator hsep

end Leads

end Loker.SecretPatterns
