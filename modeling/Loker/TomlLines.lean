import Loker.TomlStatements

/-! A reader of files in which each line is blank, a comment or a pair of a bare key and a basic
string without other escapes than the backslash's own. -/

namespace Loker.TomlLines

open TextLines TomlText TomlStatements

section Strings

variable {cs v rest : List Char}

/-- The characters of a string up to its quotation mark, and what stands behind it. -/
def unquote : List Char → Option (List Char × List Char)
  | [] => none
  | c :: cs =>
      if c = '"' then some ([], cs)
      else if c = '\\' then
        match cs with
        | [] => none
        | d :: ds => if d = '\\' then (unquote ds).map (Prod.map ('\\' :: ·) id) else none
      else (unquote cs).map (Prod.map (c :: ·) id)

lemma unquote_quote (cs : List Char) : unquote ('"' :: cs) = some ([], cs) := by
  rw [unquote.eq_def]
  exact if_pos rfl

lemma unquote_back (cs : List Char) :
    unquote ('\\' :: '\\' :: cs) = (unquote cs).map (Prod.map ('\\' :: ·) id) := by
  rw [unquote.eq_def]
  rfl

lemma unquote_escape {d : Char} (h : d ≠ '\\') (ds : List Char) :
    unquote ('\\' :: d :: ds) = none := by
  rw [unquote.eq_def]
  exact if_neg h

lemma unquote_char {c : Char} (hquote : c ≠ '"') (hback : c ≠ '\\') (cs : List Char) :
    unquote (c :: cs) = (unquote cs).map (Prod.map (c :: ·) id) := by
  rw [unquote.eq_def]
  simp only [if_neg hquote, if_neg hback]

lemma unquote_doubled (h : Writable v) (rest : List Char) :
    unquote (doubled v ++ '"' :: rest) = some (v, rest) := by
  induction v with
  | nil => exact unquote_quote rest
  | cons c v ih =>
      have hrest := ih fun d hd => h d (List.mem_cons_of_mem _ hd)
      by_cases hback : c = '\\'
      · subst hback
        have htext : doubled ('\\' :: v) ++ '"' :: rest =
            '\\' :: '\\' :: (doubled v ++ '"' :: rest) := by
          rw [doubled, List.flatMap_cons, if_pos rfl]
          rfl
        rw [htext, unquote_back, hrest]
        rfl
      · have htext : doubled (c :: v) ++ '"' :: rest = c :: (doubled v ++ '"' :: rest) := by
          rw [doubled, List.flatMap_cons, if_neg hback]
          rfl
        rw [htext, unquote_char (h c List.mem_cons_self).1 hback, hrest]
        rfl

/-- What is read of a string does not depend on what stands behind it. -/
lemma unquote_append (h : unquote cs = some (v, rest)) (t : List Char) :
    unquote (cs ++ t) = some (v, rest ++ t) := by
  induction cs using unquote.induct generalizing v with
  | case1 => cases h
  | case2 cs =>
      rw [unquote_quote] at h
      cases h
      exact unquote_quote _
  | case3 => cases h
  | case4 hquote ds ih =>
      rw [unquote_back, Option.map_eq_some_iff] at h
      obtain ⟨⟨v', rest'⟩, hread, heq⟩ := h
      cases heq
      rw [List.cons_append, List.cons_append, unquote_back, ih hread]
      rfl
  | case5 d ds hback =>
      rw [unquote_escape hback] at h
      cases h
  | case6 c cs hquote hback ih =>
      rw [unquote_char hquote hback, Option.map_eq_some_iff] at h
      obtain ⟨⟨v', rest'⟩, hread, heq⟩ := h
      cases heq
      rw [List.cons_append, unquote_char hquote hback, ih hread]
      rfl

end Strings

section Statements

variable {e lead gap gap' cs v rest t : List Char} {key : String} {s : Statement}

def isTrailing (t : List Char) : Bool :=
  let comment := t.dropWhile isBlank
  decide (comment = []) || decide (comment.head? = some '#')

/-- A pair of a bare key and a string, without its line break. -/
def pairOf (e : List Char) : Option Statement :=
  let body := e.dropWhile isBlank
  let key := body.takeWhile isBareChar
  match (body.dropWhile isBareChar).dropWhile isBlank with
  | '=' :: cs =>
      match cs.dropWhile isBlank with
      | '"' :: ds => (unquote ds).bind fun r =>
          if key ≠ [] ∧ isTrailing r.2 = true then
            some (.pair (String.ofList key) [] (.string (String.ofList r.1)))
          else none
      | _ => none
  | _ => none

def statementOf (e : List Char) : Option Statement :=
  if e.any isControl then none else if isTrailing e then some .nothing else pairOf e

lemma dropWhile_class {p : Char → Bool} (hlead : lead.all p = true)
    (hrest : ∀ c, rest.head? = some c → p c = false) : (lead ++ rest).dropWhile p = rest := by
  rw [List.dropWhile_append_of_pos fun c hc => List.all_eq_true.mp hlead c hc]
  cases rest with
  | nil => rfl
  | cons c rest => exact List.dropWhile_cons_of_neg (by simp [hrest c rfl])

lemma takeWhile_class {p : Char → Bool} (hlead : lead.all p = true)
    (hrest : ∀ c, rest.head? = some c → p c = false) : (lead ++ rest).takeWhile p = lead := by
  rw [List.takeWhile_append_of_pos fun c hc => List.all_eq_true.mp hlead c hc]
  cases rest with
  | nil => exact List.append_nil lead
  | cons c rest => rw [List.takeWhile_cons_of_neg (by simp [hrest c rfl]), List.append_nil]

lemma isTrailing_iff (hplain : t.any isControl = false) : isTrailing t = true ↔ Trailing t := by
  rw [isTrailing, Bool.or_eq_true, decide_eq_true_eq, decide_eq_true_eq]
  have hsplit : t.takeWhile isBlank ++ t.dropWhile isBlank = t := List.takeWhile_append_dropWhile
  have hblank : (t.takeWhile isBlank).all isBlank = true := by
    rw [List.all_eq_true]
    exact fun c hc => List.mem_takeWhile_imp hc
  constructor
  · rintro (hnone | hcomment)
    · exact ⟨_, _, hsplit.symm, hblank, .inl hnone⟩
    · refine ⟨_, _, hsplit.symm, hblank, .inr ⟨_, (List.cons_head?_tail hcomment).symm, ?_⟩⟩
      intro c hc
      have hmem : c ∈ t := (List.dropWhile_sublist _).subset (List.mem_of_mem_tail hc)
      exact Bool.not_eq_true _ ▸ fun hcontrol =>
        Bool.false_ne_true (hplain.symm.trans (List.any_eq_true.mpr ⟨c, hmem, hcontrol⟩))
  · rintro ⟨blanks, comment, rfl, hblanks, rfl | ⟨body, rfl, hbody⟩⟩
    · left
      exact dropWhile_class hblanks nofun
    · right
      rw [dropWhile_class hblanks (by rintro c ⟨⟩; decide)]
      rfl

lemma plain_of_trailing (h : Trailing t) : t.any isControl = false := by
  obtain ⟨blanks, comment, rfl, hblanks, hcomment⟩ := h
  rw [List.any_append, Bool.or_eq_false_iff]
  constructor
  · rw [List.any_eq_false]
    intro c hc
    have hblank := List.all_eq_true.mp hblanks c hc
    rw [isBlank, Bool.or_eq_true, decide_eq_true_eq, decide_eq_true_eq] at hblank
    rcases hblank with rfl | rfl <;> decide
  · rcases hcomment with rfl | ⟨body, rfl, hbody⟩
    · rfl
    · rw [List.any_cons, Bool.or_eq_false_iff]
      exact ⟨by decide, List.any_eq_false.mpr fun c hc => by simp [hbody c hc]⟩

/-- What stands behind a statement may be followed by more. -/
lemma isTrailing_append (h : isTrailing rest = true) (ht : Trailing t) :
    isTrailing (rest ++ t) = true := by
  have hsplit : rest.takeWhile isBlank ++ rest.dropWhile isBlank = rest :=
    List.takeWhile_append_dropWhile
  have hblank : (rest.takeWhile isBlank).all isBlank = true := List.all_takeWhile
  rw [isTrailing, Bool.or_eq_true, decide_eq_true_eq, decide_eq_true_eq] at h
  rcases h with hnone | hcomment
  · have hall : ∀ c ∈ rest, isBlank c = true := by
      rw [hnone, List.append_nil] at hsplit
      rw [hsplit] at hblank
      exact fun c hc => List.all_eq_true.mp hblank c hc
    rw [isTrailing, List.dropWhile_append_of_pos hall]
    exact (isTrailing_iff (plain_of_trailing ht)).mpr ht
  · obtain ⟨body, hbody⟩ : ∃ body, rest.dropWhile isBlank = '#' :: body :=
      ⟨_, (List.cons_head?_tail hcomment).symm⟩
    have hdrop : (rest ++ t).dropWhile isBlank = '#' :: (body ++ t) := by
      rw [← hsplit, hbody, List.append_assoc]
      exact dropWhile_class hblank (by rintro c ⟨⟩; decide)
    rw [isTrailing, hdrop]
    rfl

lemma head_bare (hkey : IsBareKey key) {c : Char} (h : (key.toList ++ t).head? = some c) :
    isBareChar c = true := by
  cases hchars : key.toList with
  | nil => exact absurd (String.toList_inj.mp hchars) hkey.1
  | cons d ds =>
      rw [hchars] at h
      cases h
      have hall := hkey.2
      rw [hchars, List.all_cons, Bool.and_eq_true] at hall
      exact hall.1

lemma not_blank_of_bare {c : Char} (h : isBareChar c = true) : isBlank c = false := by
  rw [isBlank, Bool.or_eq_false_iff, decide_eq_false_iff_not, decide_eq_false_iff_not]
  constructor
  · rintro rfl
    exact absurd h (by decide)
  · rintro rfl
    exact absurd h (by decide)

lemma not_bare_of_blank {c : Char} (h : isBlank c = true) : isBareChar c = false := by
  by_contra hbare
  rw [not_blank_of_bare (Bool.not_eq_false _ ▸ hbare)] at h
  cases h

lemma head_gap {d c : Char} (hgap : gap.all isBlank = true) (h : (gap ++ d :: t).head? = some c) :
    isBlank c = true ∨ c = d := by
  cases gap with
  | nil =>
      cases h
      exact .inr rfl
  | cons g gap =>
      cases h
      rw [List.all_cons, Bool.and_eq_true] at hgap
      exact .inl hgap.1

/-- A line that is a pair of a key and a string, the string given by what stands behind its first
quotation mark. -/
def lineText (lead : List Char) (key : String) (gap gap' cs : List Char) : List Char :=
  lead ++ (key.toList ++ (gap ++ '=' :: (gap' ++ '"' :: cs)))

lemma pairOf_lineText (hlead : lead.all isBlank = true) (hkey : IsBareKey key)
    (hgap : gap.all isBlank = true) (hgap' : gap'.all isBlank = true)
    (hread : unquote cs = some (v, rest)) (hrest : isTrailing rest = true) :
    pairOf (lineText lead key gap gap' cs) =
      some (.pair key [] (.string (String.ofList v))) := by
  have hbody : (lineText lead key gap gap' cs).dropWhile isBlank =
      key.toList ++ (gap ++ '=' :: (gap' ++ '"' :: cs)) :=
    dropWhile_class hlead fun c hc => not_blank_of_bare (head_bare hkey hc)
  have hstop : ∀ c, (gap ++ '=' :: (gap' ++ '"' :: cs)).head? = some c → isBareChar c = false := by
    intro c hc
    rcases head_gap hgap hc with hblank | rfl
    · exact not_bare_of_blank hblank
    · decide
  have hname : (key.toList ++ (gap ++ '=' :: (gap' ++ '"' :: cs))).takeWhile isBareChar =
      key.toList := takeWhile_class hkey.2 hstop
  have hsign : ((key.toList ++ (gap ++ '=' :: (gap' ++ '"' :: cs))).dropWhile isBareChar).dropWhile
      isBlank = '=' :: (gap' ++ '"' :: cs) := by
    rw [dropWhile_class hkey.2 hstop]
    exact dropWhile_class hgap (by rintro c ⟨⟩; decide)
  have hquote : (gap' ++ '"' :: cs).dropWhile isBlank = '"' :: cs :=
    dropWhile_class hgap' (by rintro c ⟨⟩; decide)
  have hne : key.toList ≠ [] := fun hnil => hkey.1 (String.toList_inj.mp hnil)
  simp only [pairOf, hbody, hname, hsign, hquote, hread, Option.bind_some]
  rw [if_pos ⟨hne, hrest⟩, String.ofList_toList]

/-- Every line that is read as a pair is written so. -/
lemma lineText_of_pairOf (h : pairOf e = some s) : ∃ lead key gap gap' cs v rest,
    e = lineText lead key gap gap' cs ∧ lead.all isBlank = true ∧ IsBareKey key ∧
      gap.all isBlank = true ∧ gap'.all isBlank = true ∧ unquote cs = some (v, rest) ∧
      isTrailing rest = true ∧ s = .pair key [] (.string (String.ofList v)) := by
  have hall : ∀ (p : Char → Bool) (l : List Char), (l.takeWhile p).all p = true := by
    intro p l
    exact List.all_takeWhile
  rw [pairOf] at h
  split at h
  next cs hsign =>
    split at h
    next ds hquote =>
      obtain ⟨⟨v, rest⟩, hread, hs⟩ := Option.bind_eq_some_iff.mp h
      split at hs
      next hcond =>
        cases hs
        have hkey : ((e.dropWhile isBlank).takeWhile isBareChar) ≠ [] := hcond.1
        refine ⟨e.takeWhile isBlank, String.ofList ((e.dropWhile isBlank).takeWhile isBareChar),
          ((e.dropWhile isBlank).dropWhile isBareChar).takeWhile isBlank, cs.takeWhile isBlank, ds,
          v, rest, ?_, hall _ _, ⟨?_, ?_⟩, hall _ _, hall _ _, hread, hcond.2, rfl⟩
        · rw [lineText, ← hquote, List.takeWhile_append_dropWhile, ← hsign,
            List.takeWhile_append_dropWhile, String.toList_ofList, List.takeWhile_append_dropWhile,
            List.takeWhile_append_dropWhile]
        · intro hempty
          exact hkey (by rw [← String.toList_ofList (l := List.takeWhile _ _), hempty]; rfl)
        · rw [String.toList_ofList]
          exact hall _ _
      next => cases hs
    next => cases h
  next => cases h

lemma not_trailing_line (hlead : lead.all isBlank = true) (hkey : IsBareKey key) :
    isTrailing (lineText lead key gap gap' cs) = false := by
  have hbody : (lineText lead key gap gap' cs).dropWhile isBlank =
      key.toList ++ (gap ++ '=' :: (gap' ++ '"' :: cs)) :=
    dropWhile_class hlead fun c hc => not_blank_of_bare (head_bare hkey hc)
  rw [isTrailing, hbody, Bool.or_eq_false_iff, decide_eq_false_iff_not, decide_eq_false_iff_not]
  constructor
  · simp
  · intro hhead
    exact absurd (head_bare hkey hhead) (by decide)

lemma plain_of_bare {c : Char} (h : isBareChar c = true) : isControl c = false := by
  rw [isBareChar, Bool.or_eq_true, Bool.or_eq_true, decide_eq_true_eq, decide_eq_true_eq] at h
  rcases h with (hchar | rfl) | rfl
  · have hrange : ((65 ≤ c.toNat ∧ c.toNat ≤ 90) ∨ (97 ≤ c.toNat ∧ c.toNat ≤ 122)) ∨
        (48 ≤ c.toNat ∧ c.toNat ≤ 57) := by
      simpa [Char.isAlphanum, Char.isAlpha, Char.isUpper, Char.isLower, Char.isDigit,
        UInt32.le_iff_toNat_le] using hchar
    simp only [isControl, Bool.or_eq_false_iff, Bool.and_eq_false_iff, decide_eq_false_iff_not]
    omega
  · decide
  · decide

/-- A pair with a string written anew is read as the string. -/
lemma statementOf_pair (hkey : IsBareKey key) (hlead : lead.all isBlank = true) (hv : Writable v)
    (ht : Trailing t) : statementOf (lead ++ plainPair key.toList (doubled v) ++ t) =
      some (.pair key [] (.string (String.ofList v))) := by
  have hplain := plain_of_trailing ht
  have htext : lead ++ plainPair key.toList (doubled v) ++ t =
      lineText lead key [' '] [' '] (doubled v ++ '"' :: t) := by
    simp only [plainPair, pairText, lineText, List.append_assoc, List.cons_append, List.nil_append]
  have hvalue : (doubled v).any isControl = false := by
    rw [List.any_eq_false]
    intro c hc
    obtain ⟨d, hd, hin⟩ := List.mem_flatMap.mp hc
    split at hin
    · have hback : c = '\\' := by simpa using hin
      subst hback
      decide
    · rw [List.mem_singleton.mp hin, (hv d hd).2]
      exact Bool.false_ne_true
  have hbare : key.toList.any isControl = false := by
    rw [List.any_eq_false]
    intro c hc
    rw [plain_of_bare (List.all_eq_true.mp hkey.2 c hc)]
    exact Bool.false_ne_true
  have hblank : lead.any isControl = false :=
    plain_of_trailing ⟨lead, [], (List.append_nil lead).symm, hlead, .inl rfl⟩
  have hnone : (lineText lead key [' '] [' '] (doubled v ++ '"' :: t)).any isControl = false := by
    simp only [lineText, List.any_append, List.any_cons, List.any_nil, hblank, hbare, hvalue, hplain]
    decide
  rw [htext, statementOf, hnone, if_neg Bool.false_ne_true, not_trailing_line hlead hkey,
    if_neg Bool.false_ne_true]
  exact pairOf_lineText hlead hkey (by decide) (by decide) (unquote_doubled hv t)
    ((isTrailing_iff hplain).mpr ht)

lemma statementOf_append (h : statementOf e = some s) (ht : Trailing t) :
    statementOf (e ++ t) = some s := by
  rw [statementOf] at h
  split at h
  · cases h
  next hcontrol =>
    have hnone : (e ++ t).any isControl = false := by
      rw [List.any_append, Bool.eq_false_iff.mpr hcontrol, plain_of_trailing ht, Bool.or_self]
    rw [statementOf, hnone, if_neg Bool.false_ne_true]
    split at h
    next htrailing => rw [isTrailing_append htrailing ht, if_pos rfl, h]
    next htrailing =>
      obtain ⟨lead, key, gap, gap', cs, v, rest, rfl, hlead, hkey, hgap, hgap', hread, hrest,
        rfl⟩ := lineText_of_pairOf h
      have htext : lineText lead key gap gap' cs ++ t = lineText lead key gap gap' (cs ++ t) := by
        simp only [lineText, List.append_assoc, List.cons_append]
      rw [htext, not_trailing_line hlead hkey, if_neg Bool.false_ne_true]
      exact pairOf_lineText hlead hkey hgap hgap' (unquote_append hread t)
        (isTrailing_append hrest ht)

end Statements

section Reader

variable {key : String} {ss : List Statement}

/-- The top-level key that a statement is about. -/
def subjectOf : Statement → Option String
  | .nothing => none
  | .pair key _ _ => some key
  | .header _ key _ => some key

lemma itemsFrom_free {table : Option String} (htable : table ≠ some key)
    (h : ∀ s ∈ ss, subjectOf s ≠ some key) : itemsFrom key table ss = [] := by
  induction ss generalizing table with
  | nil => cases table <;> rfl
  | cons s ss ih =>
      have hs := h s List.mem_cons_self
      have hrest : ∀ s ∈ ss, subjectOf s ≠ some key := fun s hs =>
        h s (List.mem_cons_of_mem _ hs)
      cases s with
      | nothing =>
          have hskip : itemsFrom key table (.nothing :: ss) = itemsFrom key table ss := by
            cases table <;> rfl
          rw [hskip]
          exact ih htable hrest
      | pair k path v =>
          have hk : k ≠ key := fun heq => hs (congrArg some heq)
          cases table with
          | none =>
              rw [itemsFrom, if_neg hk]
              exact ih htable hrest
          | some t =>
              rw [itemsFrom, if_neg fun heq => htable (congrArg some heq)]
              exact ih htable hrest
      | header element k path =>
          have hk : k ≠ key := fun heq => hs (congrArg some heq)
          rw [itemsFrom, if_neg hk]
          exact ih (fun heq => hk (Option.some.inj heq)) hrest

/-- What is said of a key that is assigned at most once, and of no other. -/
def entryOf : List Item → Option (Option Toml)
  | [] => some none
  | [.assigned [] v] => some (some v)
  | _ => none

def documentOf (ss : List Statement) : Option Table :=
  if (ss.filterMap subjectOf).all (fun key => (entryOf (itemsOf key ss)).isSome) then
    some fun key => (entryOf (itemsOf key ss)).join
  else none

lemma documentOf_eq {doc : Table} (h : ∀ key, entryOf (itemsOf key ss) = some (doc key)) :
    documentOf ss = some doc := by
  have hall : (ss.filterMap subjectOf).all
      (fun key => (entryOf (itemsOf key ss)).isSome) = true := by
    rw [List.all_eq_true]
    intro key _
    rw [h key]
    rfl
  have hdoc : (fun key => (entryOf (itemsOf key ss)).join) = doc := by
    funext key
    rw [h key]
    rfl
  rw [documentOf, if_pos hall, hdoc]

/-- The document of statements that the reader accepts says of each key what they do. -/
lemma entries_of_documentOf {doc : Table} (h : documentOf ss = some doc) (key : String) :
    entryOf (itemsOf key ss) = some (doc key) := by
  rw [documentOf] at h
  split at h
  next hall =>
    cases h
    change entryOf (itemsOf key ss) = some (entryOf (itemsOf key ss)).join
    by_cases hkey : key ∈ ss.filterMap subjectOf
    · obtain ⟨r, hr⟩ := Option.isSome_iff_exists.mp (List.all_eq_true.mp hall key hkey)
      rw [hr]
      rfl
    · have hfree : itemsFrom key none ss = [] := by
        apply itemsFrom_free
        · exact nofun
        · intro s hs hsome
          exact hkey (List.mem_filterMap.mpr ⟨s, hs, hsome⟩)
      rw [itemsOf, hfree]
      rfl
  next => cases h

def readText (text : String) : Option Table :=
  ((text.toList.splitOn '\n').mapM fun l => statementOf (dropCR l)).bind documentOf

def stringReader : TomlReader where
  fromStr := readText
  statement := statementOf
  entry := entryOf

lemma joinLines_eq (ls : List (List Char)) : joinLines ls = ['\n'].intercalate ls := by
  induction ls with
  | nil => rfl
  | cons l ls ih =>
      cases ls with
      | nil => exact List.intercalate_singleton.symm
      | cons m ls =>
          rw [joinLines, ih, List.intercalate_cons_cons, List.append_assoc]
          · rfl
          · exact List.cons_ne_nil _ _

lemma mapM_means {es : List (List Char)} (h : Means stringReader es ss) :
    es.mapM (fun l => statementOf (dropCR l)) = some ss := by
  induction h with
  | nil => rfl
  | cons hs _ ih =>
      have hs : statementOf (dropCR _) = some _ := hs
      rw [List.mapM_cons, hs, ih]
      rfl

lemma not_control_of_statementOf {e : List Char} {s : Statement} (h : statementOf e = some s) :
    '\n' ∉ e := by
  intro hmem
  rw [statementOf, if_pos (List.any_eq_true.mpr ⟨'\n', hmem, by decide⟩)] at h
  cases h

lemma plain_means {es : List (List Char)} (h : Means stringReader es ss) :
    ∀ l ∈ es, '\n' ∉ l := by
  induction h with
  | nil => exact nofun
  | cons hs _ ih =>
      intro l hl
      rcases List.mem_cons.mp hl with rfl | hl
      · intro hmem
        apply not_control_of_statementOf hs
        rcases dropCR_cases l with hsame | hcr
        · rwa [hsame]
        · rw [hcr, List.mem_append] at hmem
          exact hmem.resolve_right (by decide)
      · exact ih l hl

lemma reads {es : List (List Char)} {doc : Table} (h : Document stringReader es ss doc) :
    readText (String.ofList (joinLines es)) = some doc := by
  have hdocument : documentOf ss = some doc := documentOf_eq h.entries
  rw [readText, String.toList_ofList, joinLines_eq]
  by_cases hes : es = []
  · subst hes
    cases h.means
    exact hdocument
  · rw [List.splitOn_intercalate '\n' (plain_means h.means) hes, mapM_means h.means]
    exact hdocument

lemma stringReader_lawful : stringReader.Lawful where
  reads _ _ _ h := reads h
  pair _ _ _ _ hkey hlead hv ht := statementOf_pair hkey hlead hv ht
  trailing _ _ _ h ht := statementOf_append h ht
  absent := rfl
  assigned _ := rfl
  alone items r v h hmem := by
    change entryOf items = some r at h
    rw [entryOf.eq_def] at h
    split at h
    · cases hmem
    · rw [List.mem_singleton.mp hmem]
    · cases h
  present items h := by
    change entryOf items = some none at h
    rw [entryOf.eq_def] at h
    split at h
    · rfl
    · cases h
    · cases h

end Reader

end Loker.TomlLines
