import Loker.LoopPrompts

/-! When the second pass of a loop prompt leaves alone what the first pass put in. -/

namespace Loker.LoopDelivery

open TextOps JsonReader Template LoopVariables LoopPrompts

section LoopEngine

/-- An engine for templates of text, raw blocks, expressions and loop variables alone. -/
def fill (tagAt : List Char → Option (List Char × ℕ)) : ℕ → List Char → Option (List Char)
  | _, [] => some []
  | skip + 1, _ :: cs => fill tagAt skip cs
  | 0, c :: cs =>
      match tagAt (c :: cs) with
      | some (v, length) => (fill tagAt (length - 1) cs).map (v ++ ·)
      | none => if hasDelimiter ((c :: cs).take 2) then none else (fill tagAt 0 cs).map (c :: ·)

def displayText : Json → List Char
  | .string s => s
  | .number digits => digits
  | _ => []

def rawAt (cs : List Char) : Option (List Char × ℕ) :=
  if rawOpen.isPrefixOf cs then
    (loopVarAt (cs.drop rawOpen.length)).bind fun (_, rest) =>
      let body := matched (cs.drop rawOpen.length) rest
      if rawClose.isPrefixOf rest then
        some (body, (rawOpen ++ (body ++ rawClose)).length)
      else none
  else none

def expressionAt (values : List Char → Option (List Char)) (cs : List Char) :
    Option (List Char × ℕ) :=
  if ['{', '{'].isPrefixOf cs then
    let body := (cs.drop 2).takeWhile (· ≠ '}')
    if ['}', '}'].isPrefixOf ((cs.drop 2).dropWhile (· ≠ '}')) then
      (values body).map fun v => (v, body.length + 4)
    else none
  else none

def tagAt : Context → List Char → Option (List Char × ℕ)
  | .steps values, cs => (rawAt cs).or (expressionAt values cs)
  | .loop item index, cs =>
      (loopVarAt cs).bind fun (path, rest) =>
        (loopValue displayText item index path).map fun v => (v, (matched cs rest).length)

variable {ctx : Context} {t rest : List Char}

lemma opens_take {c : Char} (h : hasDelimiter ((c :: (t ++ rest)).take 2) = false) :
    tagAt ctx (c :: (t ++ rest)) = none := by
  have hbraces : ['{', '{'].isPrefixOf (c :: (t ++ rest)) = false := by
    rw [Bool.eq_false_iff, Ne, List.isPrefixOf_iff_prefix]
    rintro ⟨r, hr⟩
    rw [← hr] at h
    cases h
  have hraw : rawOpen.isPrefixOf (c :: (t ++ rest)) = false := by
    rw [Bool.eq_false_iff, Ne, List.isPrefixOf_iff_prefix]
    rintro ⟨r, hr⟩
    rw [← hr] at h
    cases h
  cases ctx with
  | steps values =>
      rw [tagAt, rawAt, hraw, expressionAt, hbraces]
      rfl
  | loop item index =>
      rw [tagAt, loopVarAt_none hbraces]
      rfl

lemma fill_plain (ht : PlainBefore t) :
    fill (tagAt ctx) 0 (t ++ rest) = (fill (tagAt ctx) 0 rest).map (t ++ ·) := by
  induction t with
  | nil => simp
  | cons c t ih =>
      have hopen : hasDelimiter ((c :: (t ++ rest)).take 2) = false := by
        cases t with
        | nil =>
            cases rest with
            | nil => rfl
            | cons d rest =>
                have hc : c ≠ '{' := fun hc => ht.last (by rw [hc]; rfl)
                simp [hasDelimiter, hc]
        | cons d t =>
            have hpair := (Bool.or_eq_false_iff.mp ht.plain).1
            simp [hasDelimiter, hpair]
      have htail : PlainBefore t := hasDelimiter_tail ht
      rw [List.cons_append, fill, opens_take hopen, hopen, if_neg Bool.false_ne_true, ih htail,
        Option.map_map]
      rfl

lemma fill_last (ht : hasDelimiter t = false) : fill (tagAt ctx) 0 t = some t := by
  induction t with
  | nil => rfl
  | cons c t ih =>
      have hopen : hasDelimiter ((c :: (t ++ [])).take 2) = false := by
        cases t with
        | nil => rfl
        | cons d t =>
            have hpair := (Bool.or_eq_false_iff.mp ht).1
            simp [hasDelimiter, hpair]
      have hnone : tagAt ctx (c :: (t ++ [])) = none := opens_take hopen
      rw [List.append_nil] at hnone hopen
      rw [fill, hnone, hopen, if_neg Bool.false_ne_true, ih (hasDelimiter_tail ht)]
      rfl

lemma fill_skip (matchAt : List Char → Option (List Char × ℕ)) (p : List Char) :
    fill matchAt p.length (p ++ rest) = fill matchAt 0 rest := by
  induction p with
  | nil => cases rest <;> rfl
  | cons c p ih => exact ih

lemma fill_match {p v : List Char} (hp : p ≠ []) (h : tagAt ctx (p ++ rest) = some (v, p.length)) :
    fill (tagAt ctx) 0 (p ++ rest) = (fill (tagAt ctx) 0 rest).map (v ++ ·) := by
  obtain ⟨c, cs, rfl⟩ := List.exists_cons_of_ne_nil hp
  rw [List.cons_append] at h ⊢
  rw [fill, h]
  exact congrArg (Option.map (v ++ ·)) (fill_skip (tagAt ctx) cs)

/-- A tag without a value ends the rendering. -/
lemma fill_braces {cs : List Char} (h : tagAt ctx ('{' :: '{' :: cs) = none) :
    fill (tagAt ctx) 0 ('{' :: '{' :: cs) = none := by
  rw [fill, h]
  rfl

lemma source_last (body : List Char) :
    ('{' :: '{' :: (body ++ ['}', '}'])).getLast? = some '}' := by
  have hassoc : '{' :: '{' :: (body ++ ['}', '}']) = ('{' :: '{' :: (body ++ ['}'])) ++ ['}'] := by
    simp
  rw [hassoc, List.getLast?_concat]

lemma LoopVar_last (m : LoopVar) : m.source.getLast? = some '}' := by
  have hbody := source_last (m.before ++ (m.path.text ++ m.after))
  simpa [LoopVar.source] using hbody

/-- A line break can only be lost behind the last tag. -/
lemma chomp_tag {p : List Char} (hp : p.getLast? = some '}') (t rest : List Char) :
    chomp (t ++ (p ++ rest)) = t ++ (p ++ chomp rest) := by
  have hne : p ≠ [] := by
    rintro rfl
    cases hp
  have hlast : (t ++ p).getLast? ≠ some '\n' := by
    rw [List.getLast?_append_of_ne_nil _ hne, hp]
    decide
  rw [← List.append_assoc, chomp_append hlast, List.append_assoc]

lemma tagAt_loopVar (item : Json) (index : ℕ) (m : LoopVar) :
    tagAt (.loop item index) (m.source ++ rest) =
      (loopValue displayText item index m.path).map fun v => (v, m.source.length) := by
  simp only [tagAt, loopVarAt_source, Option.bind_some, matched_append]

lemma tagAt_expression (values : List Char → Option (List Char)) (e : Expression) :
    tagAt (.steps values) (e.source ++ rest) =
      (values e.body).map fun v => (v, e.source.length) := by
  have hraw : rawAt (e.source ++ rest) = none := rfl
  have hopen : ['{', '{'].isPrefixOf (e.source ++ rest) = true :=
    List.isPrefixOf_iff_prefix.mpr ⟨_, rfl⟩
  have hdrop : (e.source ++ rest).drop 2 = e.body ++ (['}', '}'] ++ rest) := by
    simp [Expression.source]
  have hkept : ∀ c ∈ e.body, decide (c ≠ '}') = true := by
    intro c hc
    rw [decide_eq_true_eq]
    rintro rfl
    exact e.closed hc
  have htake : (e.body ++ (['}', '}'] ++ rest)).takeWhile (· ≠ '}') = e.body := by
    rw [List.takeWhile_append_of_pos hkept, List.cons_append,
      List.takeWhile_cons_of_neg (by decide), List.append_nil]
  have hskip : (e.body ++ (['}', '}'] ++ rest)).dropWhile (· ≠ '}') = ['}', '}'] ++ rest := by
    rw [List.dropWhile_append_of_pos hkept, List.cons_append,
      List.dropWhile_cons_of_neg (by decide)]
  have hclose : ['}', '}'].isPrefixOf (['}', '}'] ++ rest) = true :=
    List.isPrefixOf_iff_prefix.mpr (List.prefix_append _ _)
  have hlength : e.source.length = e.body.length + 4 := by simp [Expression.source]
  rw [tagAt, hraw, Option.none_or, expressionAt, if_pos hopen]
  simp only [hdrop, htake, hskip, if_pos hclose, hlength]

lemma tagAt_raw (values : List Char → Option (List Char)) (m : LoopVar) :
    tagAt (.steps values) (rawOpen ++ (m.source ++ rawClose) ++ rest) =
      some (m.source, (rawOpen ++ (m.source ++ rawClose)).length) := by
  have hopen : rawOpen.isPrefixOf (rawOpen ++ (m.source ++ rawClose) ++ rest) = true := by
    rw [List.append_assoc]
    exact List.isPrefixOf_iff_prefix.mpr (List.prefix_append _ _)
  have hdrop : (rawOpen ++ (m.source ++ rawClose) ++ rest).drop rawOpen.length =
      m.source ++ (rawClose ++ rest) := by
    rw [List.append_assoc, List.drop_left, List.append_assoc]
  have hclose : rawClose.isPrefixOf (rawClose ++ rest) = true :=
    List.isPrefixOf_iff_prefix.mpr (List.prefix_append _ _)
  have hraw : rawAt (rawOpen ++ (m.source ++ rawClose) ++ rest) =
      some (m.source, (rawOpen ++ (m.source ++ rawClose)).length) := by
    rw [rawAt, if_pos hopen, hdrop, loopVarAt_source]
    simp only [Option.bind_some, matched_append, if_pos hclose]
  rw [tagAt, hraw]
  rfl

lemma hasDelimiter_chomp (ht : hasDelimiter t = false) : hasDelimiter (chomp t) = false := by
  rw [chomp]
  split
  · next hlast =>
    obtain ⟨l, rfl⟩ := List.getLast?_eq_some_iff.mp hlast
    rw [hasDelimiter_append, Bool.or_eq_false_iff, Bool.or_eq_false_iff] at ht
    rw [List.dropLast_concat]
    exact ht.1.1
  · exact ht

def loopEngine : Engine where
  render ctx s := fill (tagAt ctx) 0 (chomp s)
  display := displayText
  display_string _ := rfl
  plain _ _ ht := fill_last (hasDelimiter_chomp ht)
  loopVar item index t m rest ht := by
    rw [chomp_tag (LoopVar_last m), fill_plain ht]
    cases hvalue : loopValue displayText item index m.path with
    | none =>
        have hnone : tagAt (.loop item index) (m.source ++ chomp rest) = none := by
          rw [tagAt_loopVar, hvalue]
          rfl
        have hfill : fill (tagAt (.loop item index)) 0 (m.source ++ chomp rest) = none :=
          fill_braces hnone
        rw [hfill]
        rfl
    | some v =>
        have hsome : tagAt (.loop item index) (m.source ++ chomp rest) =
            some (v, m.source.length) := by
          rw [tagAt_loopVar, hvalue]
          rfl
        rw [fill_match m.source_ne_nil hsome, Option.map_map]
        rfl
  expression values t e rest ht := by
    have hlast : e.source.getLast? = some '}' := source_last e.body
    have hne : e.source ≠ [] := List.cons_ne_nil _ _
    rw [chomp_tag hlast, fill_plain ht]
    cases hvalue : values e.body with
    | none =>
        have hnone : tagAt (.steps values) (e.source ++ chomp rest) = none := by
          rw [tagAt_expression, hvalue]
          rfl
        have hfill : fill (tagAt (.steps values)) 0 (e.source ++ chomp rest) = none :=
          fill_braces hnone
        rw [hfill]
        rfl
    | some v =>
        have hsome : tagAt (.steps values) (e.source ++ chomp rest) =
            some (v, e.source.length) := by
          rw [tagAt_expression, hvalue]
          rfl
        rw [fill_match hne hsome, Option.map_map]
        rfl
  raw values t m rest ht := by
    have hlast : (rawOpen ++ (m.source ++ rawClose)).getLast? = some '}' := by
      rw [← List.append_assoc, List.getLast?_append_of_ne_nil _ (by decide)]
      rfl
    have hne : rawOpen ++ (m.source ++ rawClose) ≠ [] := by
      rw [← List.append_assoc]
      exact List.append_ne_nil_of_right_ne_nil _ (by decide)
    rw [chomp_tag hlast, fill_plain ht, fill_match hne (tagAt_raw values m), Option.map_map]
    rfl

end LoopEngine

section Result

/-- What a value brings in is delivered unchanged where it is plain; a loop variable in it never is,
nor a line break at the end. -/
theorem delivered_clean (E : Engine) (ps : List Piece) :
    (Clean ps → Delivered E ps) ∧ (OnlyLoopVars [] ps → ¬ Clean ps → ¬ Delivered E ps) := by
  constructor
  · intro h item index
    rw [interpolateLoopVars_source h.plain]
    by_cases hne : source ps = []
    · rw [filled_empty hne, delivered_empty hne]
      rfl
    · exact filled_clean h.own h.ending hne
  · intro hplain hnot hdelivered
    by_cases hown : ∀ m, Piece.foreign m ∉ ps
    · have hend : EndsInBreak ps := by
        by_contra hend
        exact hnot ⟨hplain, hown, hend⟩
      have hgiven := hdelivered .null 0
      rw [interpolateLoopVars_source hplain] at hgiven
      have hlength : (filled E .null 0 [] ps).length + 1 = ([] ++ delivered E .null 0 ps).length :=
        filled_break hown hend
      rw [hgiven, List.nil_append] at hlength
      omega
    · obtain ⟨m, hm⟩ := not_forall_not.mp hown
      have hgiven := hdelivered (.string []) 0
      rw [interpolateLoopVars_source hplain] at hgiven
      have hcount := congrArg (List.count '{') hgiven
      rw [count_filled, count_delivered, List.count_nil] at hcount
      have hpos := foreignBraces_pos hm
      omega

def itemVar : LoopVar where
  before := [' ']
  path := .item
  after := [' ']
  before_blank := rfl
  after_blank := rfl
  name_ok := nofun

def quotedPrompt : List Piece :=
  [.author "Fix ".toList, .marker itemVar, .author ": ".toList,
    .inserted "use \x7b braces \x7d".toList, .author ".\n".toList]

theorem quotedPrompt_delivered : Delivered loopEngine quotedPrompt := by
  have hplain : OnlyLoopVars [] quotedPrompt :=
    ⟨show hasDelimiter _ = false by decide, show hasDelimiter _ = false by decide⟩
  have hown : ∀ m, Piece.foreign m ∉ quotedPrompt := by simp [quotedPrompt]
  have hending : ¬ EndsInBreak quotedPrompt := by
    simp [quotedPrompt, EndsInBreak, source, Piece.source, itemVar, LoopVar.source]
  exact (delivered_clean loopEngine quotedPrompt).1 ⟨hplain, hown, hending⟩

/-- The output of the step `scan` speaks of the loop variable itself. -/
def scanOutput (body : List Char) : Option (List Char) :=
  if body = " steps.scan.output ".toList then some "use \x7b\x7b item \x7d\x7d".toList else none

def markedPrompt : List Piece :=
  [.author "Fix ".toList, .marker itemVar, .author ": ".toList, .inserted "use ".toList,
    .foreign itemVar]

theorem foreign_marker_filled :
    interpolateWithFields loopEngine scanOutput
        "Fix \x7b\x7b item \x7d\x7d: \x7b\x7b steps.scan.output \x7d\x7d".toList =
        some (source markedPrompt) ∧
      interpolateLoopVars loopEngine (source markedPrompt) (.string "a.rs".toList) 0 =
        "Fix a.rs: use a.rs".toList ∧
      ¬ Delivered loopEngine markedPrompt := by
  have hfirst : interpolateWithFields loopEngine scanOutput
      "Fix \x7b\x7b item \x7d\x7d: \x7b\x7b steps.scan.output \x7d\x7d".toList =
        some (source markedPrompt) := by decide
  have hfilled : interpolateLoopVars loopEngine (source markedPrompt) (.string "a.rs".toList) 0 =
      "Fix a.rs: use a.rs".toList := by decide
  refine ⟨hfirst, hfilled, fun h => ?_⟩
  have hgiven := h (.string "a.rs".toList) 0
  rw [hfilled] at hgiven
  revert hgiven
  decide

end Result

end Loker.LoopDelivery
