import Loker.EditParser
import Loker.JsonReader
import Loker.TextLines
import Loker.TextSearch

/-! JSON that stands in prose, and what the workflow takes out of it. -/

namespace Loker.JsonExtraction

open TextOps TextLines TextSearch JsonReader EditParser

section Extract

/-- The text up to the bracket at which as many were closed as opened. The counter has 32 bits. -/
def matching (opening closing : Char) : ℤ → List Char → Option (List Char)
  | _, [] => none
  | depth, c :: cs =>
      if c = opening then (matching opening closing (depth + 1) cs).map (c :: ·)
      else if c = closing then
        if (depth - 1) % 2 ^ 32 = 0 then some [c]
        else (matching opening closing (depth - 1) cs).map (c :: ·)
      else (matching opening closing depth cs).map (c :: ·)

def extractRaw (opening closing : Char) (text : String) : Option String :=
  (matching opening closing 0 (text.toList.dropWhile (· ≠ opening))).map String.ofList

def extractJsonArrayFromText (text : String) : Option String := extractRaw '[' ']' text

-- The workflow has a copy of the edit parser's `find_closing_fence`.
def jsonFence (text : String) : Option String :=
  (splitAtFirst text "```json").bind fun parts => (findClosingFence parts.2).map trim

/-- A block of another language, if it holds an object. -/
def plainFence (text : String) : Option String :=
  (splitAtFirst text "```").bind fun parts => (findClosingFence parts.2).bind fun content =>
    let content := trim content
    let jsonContent :=
      if startsWith content "\x7b" then content
      else
        match splitOnce content '\n' with
        | some (_, rest) => trim rest
        | none => content
    if startsWith jsonContent "\x7b" then some jsonContent else none

def extractJsonFromText (text : String) : Option String :=
  ((jsonFence text).or (plainFence text)).or (extractRaw '{' '}' text)

end Extract

section Matching

def balance (opening closing : Char) (text : List Char) : ℤ :=
  text.count opening - text.count closing

variable {opening closing : Char} {m rest : List Char} {depth : ℤ}

@[simp] lemma balance_nil : balance opening closing [] = 0 := rfl

lemma balance_opening (h : opening ≠ closing) (text : List Char) :
    balance opening closing (opening :: text) = balance opening closing text + 1 := by
  simp only [balance, List.count_cons_self, List.count_cons_of_ne h]
  omega

lemma balance_closing (h : opening ≠ closing) (text : List Char) :
    balance opening closing (closing :: text) = balance opening closing text - 1 := by
  simp only [balance, List.count_cons_self, List.count_cons_of_ne h.symm]
  omega

lemma balance_other {c : Char} (ho : c ≠ opening) (hc : c ≠ closing) (text : List Char) :
    balance opening closing (c :: text) = balance opening closing text := by
  rw [balance, List.count_cons_of_ne ho, List.count_cons_of_ne hc, balance]

/-- The counter is at zero after the last closing bracket and after none before it. -/
def ClosesFrom (opening closing : Char) (depth : ℤ) (m : List Char) : Prop :=
  ∀ pre post, m = pre ++ closing :: post →
    ((depth + balance opening closing (pre ++ [closing])) % 2 ^ 32 = 0 ↔ post = [])

def Closes (opening closing : Char) (text : String) : Prop :=
  ClosesFrom opening closing 0 text.toList

lemma matching_ne_nil {cs : List Char} (h : matching opening closing depth cs = some m) :
    m ≠ [] := by
  rintro rfl
  cases cs with
  | nil => cases h
  | cons c cs =>
      simp only [matching] at h
      split at h
      · simp at h
      · split at h
        · split at h
          · cases h
          · simp at h
        · simp at h

/-- A character before the last one is read on over. -/
lemma closesFrom_cons {c : Char} {d : ℤ}
    (hstep : ∀ text, depth + balance opening closing (c :: text) =
      d + balance opening closing text)
    (hfirst : c = closing → d % 2 ^ 32 ≠ 0) (hm : m ≠ []) :
    ClosesFrom opening closing depth (c :: m) ↔ ClosesFrom opening closing d m := by
  constructor
  · intro h pre post hsplit
    have hone := h (c :: pre) post (by rw [hsplit]; rfl)
    rwa [List.cons_append, hstep] at hone
  · intro h pre post hsplit
    cases pre with
    | nil =>
        obtain ⟨hc, rfl⟩ := List.cons.inj hsplit
        have hvalue := hstep []
        rw [hc, balance_nil, Int.add_zero] at hvalue
        rw [List.nil_append, hvalue]
        exact iff_of_false (hfirst hc) hm
    | cons e pre =>
        obtain ⟨rfl, htail⟩ := List.cons.inj hsplit
        rw [List.cons_append, hstep]
        exact h pre post htail

lemma balance_first (hne : opening ≠ closing) :
    depth + balance opening closing [closing] = depth - 1 := by
  rw [balance_closing hne, balance_nil]
  omega

lemma ClosesFrom.first {c : Char} (h : ClosesFrom opening closing depth (c :: m))
    (hne : opening ≠ closing) (hc : c = closing) : (depth - 1) % 2 ^ 32 = 0 ↔ m = [] := by
  have hfirst := h [] m (by rw [hc]; rfl)
  rwa [List.nil_append, balance_first hne] at hfirst

lemma map_cons_eq_some {c : Char} {o : Option (List Char)} :
    o.map (c :: ·) = some (c :: m) ↔ o = some m := by
  cases o <;> simp

lemma matching_iff (hne : opening ≠ closing) (hlast : m.getLast? = some closing) :
    matching opening closing depth (m ++ rest) = some m ↔ ClosesFrom opening closing depth m := by
  induction m generalizing depth with
  | nil => cases hlast
  | cons c m ih =>
      have hend : m ≠ [] → m.getLast? = some closing := by
        intro hm
        obtain ⟨e, l, rfl⟩ := List.exists_cons_of_ne_nil hm
        rwa [List.getLast?_cons_cons] at hlast
      have hone : m = [] → c = closing := by
        rintro rfl
        exact Option.some.inj hlast
      rw [List.cons_append, matching]
      by_cases ho : c = opening
      · have hm : m ≠ [] := fun hnil => hne (ho ▸ hone hnil)
        rw [if_pos ho, map_cons_eq_some, ih (hend hm)]
        refine (closesFrom_cons (fun text => ?_) (fun hc => (hne (ho ▸ hc)).elim) hm).symm
        rw [ho, balance_opening hne]
        omega
      · rw [if_neg ho]
        by_cases hc : c = closing
        · rw [if_pos hc]
          by_cases hzero : (depth - 1) % 2 ^ 32 = 0
          · rw [if_pos hzero]
            constructor
            · intro heq
              obtain rfl : [] = m := (List.cons.inj (Option.some.inj heq)).2
              intro pre post hsplit
              cases pre with
              | nil =>
                  rw [List.nil_append, balance_first hne]
                  exact iff_of_true hzero (List.cons.inj hsplit).2.symm
              | cons e pre => simp at hsplit
            · intro h
              rw [(h.first hne hc).mp hzero]
          · rw [if_neg hzero, map_cons_eq_some]
            by_cases hm : m = []
            · exact iff_of_false (fun h => matching_ne_nil h hm)
                (fun h => hzero ((h.first hne hc).mpr hm))
            · rw [ih (hend hm)]
              refine (closesFrom_cons (fun text => ?_) (fun _ => hzero) hm).symm
              rw [hc, balance_closing hne]
              omega
        · have hm : m ≠ [] := fun hnil => hc (hone hnil)
          rw [if_neg hc, map_cons_eq_some, ih (hend hm)]
          refine (closesFrom_cons (fun text => ?_) (fun h => (hc h).elim) hm).symm
          rw [balance_other ho hc]

end Matching

section Prose

def tick : Char := Char.ofNat 96

/-- Neither brackets nor braces nor backticks. -/
def isProse (c : Char) : Bool :=
  c ≠ '[' && c ≠ ']' && c ≠ '\x7b' && c ≠ '\x7d' && c ≠ tick

def IsProse (s : String) : Prop := ∀ c ∈ s.toList, isProse c = true

/-- JSON from its first bracket to its last, as a serializer writes it. -/
structure Serialised (opening closing : Char) (text : String) : Prop where
  value : (readJson text.toList).isSome = true
  begins : text.toList.head? = some opening
  ends : text.toList.getLast? = some closing

variable {before after o : String} {text : List Char} {c : Char}

lemma isProse_ne {l : List Char} (hl : ∀ c ∈ l, isProse c = true) (hc : isProse c = false) :
    c ∉ l := by
  intro hmem
  rw [hl c hmem] at hc
  cases hc

/-- Two characters that stand next to each other. -/
lemma split_pair {i : ℕ} {d : Char} (hc : text[i]? = some c) (hd : text[i + 1]? = some d) :
    ∃ pre post, text = pre ++ c :: d :: post := by
  refine ⟨text.take i, text.drop (i + 2), ?_⟩
  obtain ⟨hi, hget⟩ := List.getElem?_eq_some_iff.mp hc
  obtain ⟨hi', hget'⟩ := List.getElem?_eq_some_iff.mp hd
  calc text = text.take i ++ text.drop i := (List.take_append_drop i text).symm
    _ = text.take i ++ c :: d :: text.drop (i + 2) := by
      rw [List.drop_eq_getElem_cons hi, List.drop_eq_getElem_cons hi', hget, hget']

/-- A line break is outside strings, a backtick inside. -/
lemma no_tick_after_break {i : ℕ} (h : (readJson text).isSome = true) (hi : text[i]? = some '\n') :
    text[i + 1]? ≠ some tick := by
  intro htick
  obtain ⟨pre, post, rfl⟩ := split_pair hi htick
  obtain ⟨v, hv⟩ := Option.isSome_iff_exists.mp h
  obtain ⟨st, st', hrun, hspot, hstep⟩ := readJson_reaches hv
  have hout : st.spot = .outside := by
    by_contra hinside
    exact absurd (step_inside hinside hstep) (by decide)
  have hassoc : pre ++ '\n' :: tick :: post = (pre ++ ['\n']) ++ tick :: post := by simp
  rw [hassoc] at hv
  obtain ⟨mid, mid', hmid, hmidspot, hmidstep⟩ := readJson_reaches hv
  have hmidout : mid.spot = .outside := by
    rw [State.run_append, hrun, Option.bind_some, State.run, hstep, Option.bind_some] at hmid
    cases hmid
    rw [step_spot hstep, hout]
    rfl
  have hstructural := step_outside hmidout hmidstep
  revert hstructural
  unfold IsStructural
  decide

/-- No line of a reply begins with a fence where JSON stands in prose. -/
lemma no_fence_line {l r : List Char} (hl : tick ∉ l) (hr : tick ∉ r)
    (htext : (readJson text).isSome = true) (hbegins : text.head? = some '{') :
    ¬ "\n```".toList <:+: l ++ (text ++ r) := by
  intro hinfix
  obtain ⟨i, hi⟩ := infix_iff_occursAt.mp hinfix
  have hbreak := hi.get (j := 0) (by decide)
  have htick : (l ++ (text ++ r))[i + 1]? = some tick := hi.get (j := 1) (by decide)
  rw [Nat.add_zero] at hbreak
  rcases Nat.lt_or_ge (i + 1) l.length with hin | hout
  · rw [List.getElem?_append_left hin] at htick
    exact hl (List.mem_of_getElem? htick)
  · rw [List.getElem?_append_right hout] at htick
    rcases Nat.lt_or_ge (i + 1 - l.length) text.length with hin | hlate
    · rw [List.getElem?_append_left hin] at htick
      rcases Nat.lt_or_ge i l.length with hlast | hmore
      · have hzero : i + 1 - l.length = 0 := by omega
        rw [hzero, ← List.head?_eq_getElem?, hbegins] at htick
        exact absurd htick (by decide)
      · have hsucc : i + 1 - l.length = i - l.length + 1 := by omega
        rw [hsucc] at htick hin
        rw [List.getElem?_append_right hmore,
          List.getElem?_append_left (Nat.lt_of_succ_lt hin)] at hbreak
        exact no_tick_after_break htext hbreak htick
    · rw [List.getElem?_append_right hlate] at htick
      exact hr (List.mem_of_getElem? htick)

/-- A fence that is found is in the JSON text. -/
lemma occursAt_text {pat l r : List Char} {i : ℕ} (hpat : pat.head? = some tick)
    (hends : text.getLast? = some '}') (hclosing : '}' ∉ pat) (hl : tick ∉ l) (hr : tick ∉ r)
    (h : OccursAt pat i (l ++ (text ++ r))) : ∃ j, i = l.length + j ∧ OccursAt pat j text := by
  have hpos : 0 < pat.length := by
    cases pat with
    | nil => cases hpat
    | cons p ps => exact Nat.succ_pos _
  have htick := h.get hpos
  rw [Nat.add_zero, ← List.head?_eq_getElem?, hpat] at htick
  have hi : l.length ≤ i := by
    by_contra hlt
    rw [List.getElem?_append_left (Nat.lt_of_not_le hlt)] at htick
    exact hl (List.mem_of_getElem? htick)
  have hj : i - l.length < text.length := by
    by_contra hlate
    rw [List.getElem?_append_right hi, List.getElem?_append_right (Nat.le_of_not_lt hlate)] at htick
    exact hr (List.mem_of_getElem? htick)
  refine ⟨i - l.length, (Nat.add_sub_cancel' hi).symm, ?_⟩
  unfold OccursAt at h ⊢
  rw [List.drop_append, List.drop_eq_nil_of_le hi, List.nil_append,
    List.drop_append_of_le_length hj.le] at h
  refine List.prefix_of_prefix_length_le h (List.prefix_append _ _) ?_
  by_contra hlong
  -- else the closing brace would be one of the pattern's characters
  rw [List.length_drop] at hlong
  have hlast : pat[text.length - 1 - (i - l.length)]? = some '}' := by
    obtain ⟨q, hq⟩ := h
    have hget := congrArg (fun s : List Char => s[text.length - 1 - (i - l.length)]?) hq
    change (pat ++ q)[_]? = (text.drop (i - l.length) ++ r)[_]? at hget
    rw [List.getElem?_append_left (by omega), List.getElem?_append_left (by
      rw [List.length_drop]
      omega), List.getElem?_drop] at hget
    rw [hget, ← hends, List.getLast?_eq_getElem?]
    congr 1
    omega
  exact hclosing (List.mem_of_getElem? hlast)

end Prose

section Whole

variable {before after o a : String}

/-- A fence in a string of the object that the next fence follows at once. -/
def falseFence (o : String) : Bool :=
  (splitAtFirst o "```json").any fun parts => startsWith parts.2 "```"

lemma toList_whole (before o after : String) :
    (before ++ o ++ after).toList = before.toList ++ (o.toList ++ after.toList) := by
  rw [String.toList_append, String.toList_append, List.append_assoc]

lemma not_contains_fence {t rest : String} (h : ¬ "\n```".toList <:+: t.toList)
    (hrest : rest.toList <:+ t.toList) : contains rest "\n```" = false := by
  rw [contains, decide_eq_false_iff_not]
  exact fun hcut => h (hcut.trans hrest.isInfix)

/-- Without a fence on a line of its own a block is closed only where it is opened. -/
lemma findClosingFence_short {rest : String} (h : contains rest "\n```" = false) :
    findClosingFence rest = if startsWith rest "```" then some "" else none := by
  rw [findClosingFence, h, if_neg nofun]

lemma plainFence_none {t : String} (h : ¬ "\n```".toList <:+: t.toList) : plainFence t = none := by
  rw [plainFence]
  cases hsplit : splitAtFirst t "```" with
  | none => rfl
  | some parts =>
      have hparts := splitAtFirst_some (by decide) hsplit
      have hsuffix : parts.2.toList <:+ t.toList := ⟨_, hparts.symm⟩
      rw [Option.bind_some, findClosingFence_short (not_contains_fence h hsuffix)]
      cases startsWith parts.2 "```" with
      | true => rfl
      | false => rfl

/-- In the fences of the prose and the object only the object's own can be found. -/
lemma jsonFence_whole (ho : Serialised '{' '}' o) (hbefore : IsProse before)
    (hafter : IsProse after) (h : ¬ "\n```".toList <:+: (before ++ o ++ after).toList) :
    jsonFence (before ++ o ++ after) = if falseFence o then some "" else none := by
  have hl : tick ∉ before.toList := isProse_ne hbefore (by decide)
  have hr : tick ∉ after.toList := isProse_ne hafter (by decide)
  rw [jsonFence, falseFence]
  cases hsplit : splitAtFirst o "```json" with
  | none =>
      have hnone : splitAtFirst (before ++ o ++ after) "```json" = none := by
        rw [splitAtFirst_none, contains, decide_eq_false_iff_not] at hsplit ⊢
        intro hinfix
        rw [toList_whole] at hinfix
        obtain ⟨i, hi⟩ := infix_iff_occursAt.mp hinfix
        obtain ⟨j, -, hj⟩ := occursAt_text (by decide) ho.ends (by decide) hl hr hi
        exact hsplit (infix_iff_occursAt.mpr ⟨j, hj⟩)
      rw [hnone]
      rfl
  | some parts =>
      obtain ⟨b, rest⟩ := parts
      have htext := splitAtFirst_some (by decide) hsplit
      have hfirst : b = beforeFirst o "```json" := by
        unfold splitAtFirst at hsplit
        split at hsplit
        · exact (Prod.mk.inj (Option.some.inj hsplit)).1.symm
        · cases hsplit
      have hassoc : before.toList ++ b.toList ++ ("```json".toList ++ (rest.toList ++ after.toList)) =
          before.toList ++ (o.toList ++ after.toList) := by
        rw [htext]
        simp only [List.append_assoc]
      have hshifted : splitAtFirst (before ++ o ++ after) "```json" =
          some (String.ofList (before.toList ++ b.toList),
            String.ofList (rest.toList ++ after.toList)) := by
        have hgiven : before ++ o ++ after = String.ofList (before.toList ++ b.toList ++
            ("```json".toList ++ (rest.toList ++ after.toList))) := by
          rw [← String.toList_inj, String.toList_ofList, hassoc, toList_whole]
        rw [hgiven]
        apply splitAtFirst_first (by decide)
        intro i hi hoccurs
        rw [hassoc] at hoccurs
        obtain ⟨j, rfl, hj⟩ := occursAt_text (by decide) ho.ends (by decide) hl hr hoccurs
        have hle := takeBefore_length_le hj
        rw [hfirst, List.length_append, beforeFirst, String.toList_ofList] at hi
        omega
      have hsuffix : (String.ofList (rest.toList ++ after.toList)).toList <:+
          (before ++ o ++ after).toList := by
        rw [String.toList_ofList, toList_whole, ← hassoc]
        exact ⟨before.toList ++ b.toList ++ "```json".toList, by simp only [List.append_assoc]⟩
      have hstarts : startsWith (String.ofList (rest.toList ++ after.toList)) "```" =
          startsWith rest "```" := by
        have hchars : (String.ofList (rest.toList ++ after.toList)).toList =
            rest.toList ++ after.toList := String.toList_ofList
        rw [startsWith, startsWith, hchars, Bool.eq_iff_iff, List.isPrefixOf_iff_prefix,
          List.isPrefixOf_iff_prefix]
        refine ⟨fun hpre => ?_, fun hpre => hpre.trans (List.prefix_append _ _)⟩
        refine List.prefix_of_prefix_length_le hpre (List.prefix_append _ _) ?_
        by_contra hshort
        have hrest : '}' ∈ rest.toList := by
          have hend := ho.ends
          rw [htext] at hend
          cases hnil : rest.toList with
          | nil =>
              rw [hnil, List.append_nil, List.getLast?_append_of_ne_nil _ (by decide)] at hend
              exact absurd hend (by decide)
          | cons d ds =>
              rw [hnil, List.getLast?_append_of_ne_nil _ (List.cons_ne_nil d ds)] at hend
              exact List.mem_of_getLast? hend
        have hpre' := List.prefix_of_prefix_length_le (List.prefix_append rest.toList _) hpre
          (Nat.le_of_not_le hshort)
        exact absurd (hpre'.subset hrest) (by decide)
      rw [hshifted, Option.bind_some, findClosingFence_short (not_contains_fence h hsuffix),
        hstarts, Option.any_some]
      cases startsWith rest "```" with
      | true => rfl
      | false => rfl

lemma extractRaw_whole {opening closing : Char} (ho : o.toList.head? = some opening)
    (hopening : isProse opening = false) (hbefore : IsProse before) :
    extractRaw opening closing (before ++ o ++ after) =
      (matching opening closing 0 (o.toList ++ after.toList)).map String.ofList := by
  have hdrop : (before ++ o ++ after).toList.dropWhile (· ≠ opening) =
      o.toList ++ after.toList := by
    rw [toList_whole]
    have hno : ∀ c ∈ before.toList, decide (c ≠ opening) = true := by
      intro c hc
      rw [decide_eq_true_eq]
      rintro rfl
      exact isProse_ne hbefore hopening hc
    rw [List.dropWhile_append_of_pos hno]
    cases htext : o.toList with
    | nil =>
        rw [htext] at ho
        cases ho
    | cons d ds =>
        rw [htext] at ho
        rw [List.cons_append, List.dropWhile_cons_of_neg (by simpa using Option.some.inj ho)]
  rw [extractRaw, hdrop]

lemma map_ofList_eq_some {m : Option (List Char)} :
    m.map String.ofList = some o ↔ m = some o.toList := by
  cases m with
  | none => simp
  | some m => simp [String.ext_iff]

/-- The first bracket that the counter takes for the last one. -/
lemma extractRaw_iff {opening closing : Char} (ho : Serialised opening closing o)
    (hne : opening ≠ closing) (hopening : isProse opening = false) (hbefore : IsProse before) :
    extractRaw opening closing (before ++ o ++ after) = some o ↔ Closes opening closing o := by
  rw [extractRaw_whole ho.begins hopening hbefore, map_ofList_eq_some]
  exact matching_iff hne ho.ends

lemma extractJsonFromText_iff (ho : Serialised '{' '}' o) (hbefore : IsProse before)
    (hafter : IsProse after) : extractJsonFromText (before ++ o ++ after) = some o ↔
      Closes '{' '}' o ∧ falseFence o = false := by
  have hfence : ¬ "\n```".toList <:+: (before ++ o ++ after).toList := by
    rw [toList_whole]
    exact no_fence_line (isProse_ne hbefore (by decide)) (isProse_ne hafter (by decide)) ho.value
      ho.begins
  rw [extractJsonFromText, jsonFence_whole ho hbefore hafter hfence, plainFence_none hfence]
  cases falseFence o with
  | true =>
      refine iff_of_false (fun h => ?_) (fun h => nomatch h.2)
      have hempty := ho.begins
      rw [← Option.some.inj h] at hempty
      cases hempty
  | false =>
      rw [if_neg nofun, Option.or_none, Option.none_or,
        extractRaw_iff ho (by decide) (by decide) hbefore]
      exact (and_iff_left rfl).symm

/-- A block of its own is found whatever the object's strings hold. -/
lemma extractJsonFromText_fenced (ho : Serialised '{' '}' o) (hbefore : IsProse before) :
    extractJsonFromText (before ++ "```json\n" ++ o ++ "\n```" ++ after) = some o := by
  have hl : tick ∉ before.toList := isProse_ne hbefore (by decide)
  have hsplit : splitAtFirst (before ++ "```json\n" ++ o ++ "\n```" ++ after) "```json" =
      some (before, String.ofList ('\n' :: o.toList ++ ("\n```".toList ++ after.toList))) := by
    have hgiven : before ++ "```json\n" ++ o ++ "\n```" ++ after =
        String.ofList (before.toList ++ ("```json".toList ++
          ('\n' :: o.toList ++ ("\n```".toList ++ after.toList)))) := by
      rw [← String.toList_inj, String.toList_ofList]
      simp
    rw [hgiven, splitAtFirst_first (by decide), String.ofList_toList]
    intro i hi hoccurs
    have htick := hoccurs.get (show 0 < "```json".toList.length by decide)
    rw [Nat.add_zero, List.getElem?_append_left hi] at htick
    exact hl (List.mem_of_getElem? htick)
  have hbefore : takeBefore "\n```".toList ('\n' :: o.toList ++ ("\n```".toList ++ after.toList)) =
      '\n' :: o.toList := by
    rw [takeBefore_append_iff (by decide) (List.prefix_append _ _)]
    intro i hi hoccurs
    have hbreak := hoccurs.get (show 0 < "\n```".toList.length by decide)
    have htick := hoccurs.get (show 1 < "\n```".toList.length by decide)
    rw [Nat.add_zero, List.getElem?_append_left hi] at hbreak
    rw [List.length_cons] at hi
    rcases Nat.lt_or_ge i o.toList.length with hin | hend
    · rw [List.getElem?_append_left (by simpa using hin), List.getElem?_cons_succ] at htick
      cases i with
      | zero =>
          rw [← List.head?_eq_getElem?, ho.begins] at htick
          exact absurd htick (by decide)
      | succ i =>
          rw [List.getElem?_cons_succ] at hbreak
          exact no_tick_after_break ho.value hbreak htick
    · have hlast : i + 1 = ('\n' :: o.toList).length := by
        rw [List.length_cons]
        omega
      rw [hlast, List.getElem?_append_right (Nat.le_refl _), Nat.sub_self] at htick
      exact absurd (Option.some.inj htick) (show '\n' ≠ tick by decide)
  have hchars : (String.ofList ('\n' :: o.toList ++ ("\n```".toList ++ after.toList))).toList =
      '\n' :: o.toList ++ ("\n```".toList ++ after.toList) := String.toList_ofList
  have hcontains : contains (String.ofList ('\n' :: o.toList ++ ("\n```".toList ++ after.toList)))
      "\n```" = true := by
    rw [contains, decide_eq_true_eq, hchars]
    exact ⟨'\n' :: o.toList, after.toList, List.append_assoc _ _ _⟩
  have hclosing : findClosingFence
      (String.ofList ('\n' :: o.toList ++ ("\n```".toList ++ after.toList))) =
        some (String.ofList ('\n' :: o.toList)) := by
    rw [findClosingFence, if_pos hcontains, beforeFirst, hchars, hbefore]
  have htrim : trim (String.ofList ('\n' :: o.toList)) = o := by
    obtain ⟨front, hfront⟩ := List.getLast?_eq_some_iff.mp ho.ends
    have hdrop : ('\n' :: o.toList).dropWhile isWhiteSpace = o.toList := by
      rw [List.dropWhile_cons_of_pos (by decide)]
      cases htext : o.toList with
      | nil =>
          rw [htext] at hfront
          simp at hfront
      | cons d ds =>
          have hd := ho.begins
          rw [htext] at hd
          obtain rfl := Option.some.inj hd
          exact List.dropWhile_cons_of_neg (by decide)
    rw [← String.toList_inj, toList_trim, String.toList_ofList, hdrop, hfront]
    exact List.rdropWhile_concat_neg _ _ _ (by decide)
  rw [extractJsonFromText, jsonFence, hsplit, Option.bind_some, hclosing, Option.map_some, htrim]
  rfl

/-- The object is extracted from prose and from a block of its own. -/
structure ExtractedWhole (o : String) : Prop where
  raw : ∀ before after, IsProse before → IsProse after →
    extractJsonFromText (before ++ o ++ after) = some o
  fenced : ∀ before after, IsProse before → IsProse after →
    extractJsonFromText (before ++ "```json\n" ++ o ++ "\n```" ++ after) = some o

/-- Brackets and fences inside strings are counted and searched like all others. -/
theorem extracted_whole_iff (ho : Serialised '{' '}' o) (ha : Serialised '[' ']' a) :
    (ExtractedWhole o ∧ ∀ before after, IsProse before → IsProse after →
        extractJsonArrayFromText (before ++ a ++ after) = some a) ↔
      (Closes '{' '}' o ∧ falseFence o = false) ∧ Closes '[' ']' a := by
  have hempty : IsProse "" := nofun
  constructor
  · rintro ⟨hobject, harray⟩
    exact ⟨(extractJsonFromText_iff ho hempty hempty).mp (hobject.raw "" "" hempty hempty),
      (extractRaw_iff ha (by decide) (by decide) hempty).mp (harray "" "" hempty hempty)⟩
  · rintro ⟨hobject, harray⟩
    refine ⟨⟨?_, ?_⟩, ?_⟩
    · intro before after hbefore hafter
      exact (extractJsonFromText_iff ho hbefore hafter).mpr hobject
    · intro before after hbefore _
      exact extractJsonFromText_fenced ho hbefore
    · intro before after hbefore _
      exact (extractRaw_iff ha (by decide) (by decide) hbefore).mpr harray

def review : String := "\x7b\"files\": [\"a[0].rs\", \x7b\"fix\": \"x\x7by\x7dz\"\x7d]\x7d"

def names : String := "[\"a\", [\"[b]\"]]"

theorem extracted_whole_review :
    (ExtractedWhole review ∧ ∀ before after, IsProse before → IsProse after →
      extractJsonArrayFromText (before ++ names ++ after) = some names) := by
  have ho : Serialised '{' '}' review := ⟨by decide, by decide, by decide⟩
  have ha : Serialised '[' ']' names := ⟨by decide, by decide, by decide⟩
  have hempty : IsProse "" := nofun
  have hobject : Closes '{' '}' review := by
    have hraw : extractRaw '{' '}' ("" ++ review ++ "") = some review := by decide
    exact (extractRaw_iff ho (by decide) (by decide) hempty).mp hraw
  have harray : Closes '[' ']' names := by
    have hraw : extractRaw '[' ']' ("" ++ names ++ "") = some names := by decide
    exact (extractRaw_iff ha (by decide) (by decide) hempty).mp hraw
  exact (extracted_whole_iff ho ha).mpr ⟨⟨hobject, by decide⟩, harray⟩

def braceInString : String := "\x7b\"fix\": \"\x7d\"\x7d"

def fencesInString : String := "\x7b\"fix\": \"```json```\"\x7d"

def bracketInString : String := "[\"]\"]"

theorem extraction_cut_short :
    (Serialised '{' '}' braceInString ∧ ¬ ExtractedWhole braceInString ∧
      extractJsonFromText braceInString = some "\x7b\"fix\": \"\x7d") ∧
    (Serialised '{' '}' fencesInString ∧ ¬ ExtractedWhole fencesInString ∧
      extractJsonFromText fencesInString = some "") ∧
    (Serialised '[' ']' bracketInString ∧
      extractJsonArrayFromText bracketInString = some "[\"]" ∧
      bracketInString ≠ "[\"]") := by
  have hbrace : Serialised '{' '}' braceInString := ⟨by decide, by decide, by decide⟩
  have hfences : Serialised '{' '}' fencesInString := ⟨by decide, by decide, by decide⟩
  have hbracket : Serialised '[' ']' bracketInString := ⟨by decide, by decide, by decide⟩
  refine ⟨⟨hbrace, fun h => ?_, by decide⟩, ⟨hfences, fun h => ?_, by decide⟩,
    hbracket, by decide, by decide⟩
  · exact absurd (h.raw "" "" nofun nofun) (by decide)
  · exact absurd (h.raw "" "" nofun nofun) (by decide)

end Whole

end Loker.JsonExtraction
