import Loker.EditParser
import Loker.JsonReader

/-! The two sanitizers of JSON texts, and the values that are read before and after them. -/

namespace Loker.JsonSanitizing

open JsonReader EditParser

def isControl (c : Char) : Bool := c.toNat < 32 || (127 ≤ c.toNat && c.toNat < 160)

section Workflow

/-- A quote turns the flag unless a backslash stands before it in the result. -/
def sanitizeStep (acc : List Char × Bool) (c : Char) : List Char × Bool :=
  if c = '"' ∧ acc.1.getLast? ≠ some '\\' then (acc.1 ++ [c], !acc.2)
  else if acc.2 ∧ isControl c then (acc.1 ++ escapeControl c, acc.2)
  else (acc.1 ++ [c], acc.2)

/-- The workflow's copy. -/
def sanitizeJsonStrings (json : String) : String :=
  String.ofList (json.toList.foldl sanitizeStep ([], false)).1

end Workflow

section Escaping

/-- Control characters escaped wherever the text before them says so. -/
def escapeWhere (P : List Char → Bool) : List Char → List Char → List Char
  | _, [] => []
  | pre, c :: cs => (if P pre then escapeControl c else [c]) ++ escapeWhere P (pre ++ [c]) cs

variable {P Q : List Char → Bool} {pre cs : List Char} {c : Char}

lemma escapeWhere_append (pre cs rest : List Char) :
    escapeWhere P pre (cs ++ rest) = escapeWhere P pre cs ++ escapeWhere P (pre ++ cs) rest := by
  induction cs generalizing pre with
  | nil => rw [List.nil_append, escapeWhere, List.nil_append, List.append_nil]
  | cons c cs ih =>
      rw [List.cons_append, escapeWhere, escapeWhere, ih, List.append_assoc, List.append_assoc,
        List.singleton_append]

lemma escapeControl_of_not (h : isControl c = false) : escapeControl c = [c] := by
  have hc : ¬ (c.toNat < 32 ∨ (127 ≤ c.toNat ∧ c.toNat < 160)) := by
    simpa [isControl] using h
  have hlow : ∀ d : Char, d.toNat < 32 → c ≠ d := by
    rintro d hd rfl
    exact hc (.inl hd)
  rw [escapeControl, if_neg (hlow '\n' (by decide)), if_neg (hlow '\t' (by decide)),
    if_neg (hlow '\r' (by decide)), if_neg hc]

/-- What is said of every control character can be looked up. -/
lemma control_cases {p : Char → Bool}
    (hall : (List.range 160).all (fun n => !isControl (Char.ofNat n) || p (Char.ofNat n)) = true)
    (hc : isControl c = true) : p c = true := by
  have hlt : c.toNat < 160 := by
    simp only [isControl, Bool.or_eq_true, Bool.and_eq_true, decide_eq_true_eq] at hc
    omega
  have hone := List.all_eq_true.mp hall c.toNat (List.mem_range.mpr hlt)
  rw [Char.ofNat_toNat, hc] at hone
  exact hone

lemma escapeControl_head (hc : isControl c = true) :
    (escapeControl c).head? = some '\\' ∧ c ≠ '\\' ∧ c ≠ '"' := by
  have hp := control_cases (p := fun c =>
    (escapeControl c).head? = some '\\' && c ≠ '\\' && c ≠ '"') (by decide) hc
  simpa [and_assoc] using hp

lemma escapeControl_last (c : Char) :
    (escapeControl c).getLast? = some '\\' ↔ c = '\\' := by
  cases hc : isControl c with
  | false => simp [escapeControl_of_not hc]
  | true =>
      have hp := control_cases (p := fun c => (escapeControl c).getLast? ≠ some '\\')
        (by decide) hc
      have hlast := of_decide_eq_true hp
      have hne := (escapeControl_head hc).2.1
      exact ⟨fun h => (hlast h).elim, fun h => (hne h).elim⟩

lemma piece_ne_nil (b : Bool) (c : Char) : (if b then escapeControl c else [c]) ≠ [] := by
  cases b with
  | false => exact List.cons_ne_nil c []
  | true =>
      intro hnil
      have hnil : escapeControl c = [] := hnil
      cases hc : isControl c with
      | false =>
          rw [escapeControl_of_not hc] at hnil
          cases hnil
      | true =>
          have hhead := (escapeControl_head hc).1
          rw [hnil] at hhead
          cases hhead

/-- Two ways of escaping agree when they treat every control character alike. -/
lemma escapeWhere_eq_iff : escapeWhere P pre cs = escapeWhere Q pre cs ↔
    ∀ l c r, cs = l ++ c :: r → isControl c = true → P (pre ++ l) = Q (pre ++ l) := by
  induction cs generalizing pre with
  | nil =>
      constructor
      · intro _ l c r h
        simp at h
      · intro _
        rfl
  | cons d cs ih =>
      have hlater : (∀ l c r, cs = l ++ c :: r → isControl c = true →
            P (pre ++ [d] ++ l) = Q (pre ++ [d] ++ l)) ↔
          ∀ l c r, cs = l ++ c :: r → isControl c = true →
            P (pre ++ d :: l) = Q (pre ++ d :: l) := by
        simp
      have hall : (∀ l c r, d :: cs = l ++ c :: r → isControl c = true →
            P (pre ++ l) = Q (pre ++ l)) ↔
          (isControl d = true → P pre = Q pre) ∧
            ∀ l c r, cs = l ++ c :: r → isControl c = true →
              P (pre ++ d :: l) = Q (pre ++ d :: l) := by
        constructor
        · intro h
          refine ⟨fun hd => ?_, fun l c r hcs hc => h (d :: l) c r (by rw [hcs]; rfl) hc⟩
          have hhere := h [] d cs rfl hd
          rwa [List.append_nil] at hhere
        · rintro ⟨hhere, hrest⟩ l c r hcs hc
          cases l with
          | nil =>
              obtain ⟨rfl, -⟩ := List.cons.inj hcs
              rw [List.append_nil]
              exact hhere hc
          | cons e l =>
              obtain ⟨rfl, htail⟩ := List.cons.inj hcs
              exact hrest l c r htail hc
      rw [hall, ← hlater, ← ih, escapeWhere, escapeWhere]
      cases hd : isControl d with
      | false => simp [escapeControl_of_not hd]
      | true =>
          obtain ⟨hhead, hne, -⟩ := escapeControl_head hd
          by_cases hsame : P pre = Q pre
          · simp [hsame]
          · refine iff_of_false ?_ (fun h => hsame (h.1 rfl))
            intro heq
            have hfirst := congrArg List.head? heq
            rw [List.head?_append_of_ne_nil _ (piece_ne_nil (P pre) d),
              List.head?_append_of_ne_nil _ (piece_ne_nil (Q pre) d)] at hfirst
            cases hP : P pre with
            | true =>
                cases hQ : Q pre with
                | true => exact hsame (hP.trans hQ.symm)
                | false =>
                    rw [hP, hQ] at hfirst
                    exact hne (Option.some.inj (hhead.symm.trans hfirst)).symm
            | false =>
                cases hQ : Q pre with
                | true =>
                    rw [hP, hQ] at hfirst
                    exact hne (Option.some.inj (hhead.symm.trans hfirst.symm)).symm
                | false => exact hsame (hP.trans hQ.symm)

end Escaping

section Scans

/-- The quotes that stand directly after no backslash. -/
def quotesFrom : Option Char → List Char → ℕ
  | _, [] => 0
  | prev, c :: cs => (if c = '"' ∧ prev ≠ some '\\' then 1 else 0) + quotesFrom (some c) cs

def freeQuotes (text : List Char) : ℕ := quotesFrom none text

lemma quotesFrom_concat (prev : Option Char) (pre : List Char) (c : Char) :
    quotesFrom prev (pre ++ [c]) = quotesFrom prev pre +
      (if c = '"' ∧ (pre.getLast?.or prev) ≠ some '\\' then 1 else 0) := by
  induction pre generalizing prev with
  | nil => exact Nat.add_comm _ 0
  | cons d pre ih =>
      have hlast : pre.getLast?.or (some d) = (d :: pre).getLast?.or prev := by
        cases pre with
        | nil => rfl
        | cons e pre =>
            rw [List.getLast?_cons_cons, List.getLast?_eq_some_getLast (List.cons_ne_nil e pre)]
            rfl
      rw [List.cons_append, quotesFrom, quotesFrom, ih, hlast, Nat.add_assoc]

/-- The flag of the workflow's copy. -/
def oddQuotes (pre : List Char) : Bool := freeQuotes pre % 2 = 1

/-- The flags of the edit parser's copy. -/
def insideString (pre : List Char) : Bool := spotAfter pre = .inside

lemma freeQuotes_concat (pre : List Char) (c : Char) : freeQuotes (pre ++ [c]) =
    freeQuotes pre + (if c = '"' ∧ pre.getLast? ≠ some '\\' then 1 else 0) := by
  rw [freeQuotes, quotesFrom_concat, Option.or_none, freeQuotes]

lemma escapeWhere_last (P : List Char → Bool) (cs : List Char) :
    (escapeWhere P [] cs).getLast? = some '\\' ↔ cs.getLast? = some '\\' := by
  induction cs using List.reverseRecOn with
  | nil => exact Iff.rfl
  | append_singleton cs c _ =>
      have hone : escapeWhere P ([] ++ cs) [c] = if P cs then escapeControl c else [c] := by
        rw [escapeWhere, escapeWhere, List.append_nil, List.nil_append]
      rw [escapeWhere_append, hone, List.getLast?_append_of_ne_nil _ (piece_ne_nil (P cs) c),
        List.getLast?_concat]
      cases P cs with
      | true => exact (escapeControl_last c).trans Option.some_inj.symm
      | false => exact Iff.rfl

lemma oddQuotes_concat (pre : List Char) (c : Char) : oddQuotes (pre ++ [c]) =
    if c = '"' ∧ pre.getLast? ≠ some '\\' then !oddQuotes pre else oddQuotes pre := by
  rw [oddQuotes, oddQuotes, freeQuotes_concat]
  by_cases hquote : c = '"' ∧ pre.getLast? ≠ some '\\'
  · rw [if_pos hquote, if_pos hquote, ← decide_not]
    exact decide_eq_decide.mpr (by omega)
  · rw [if_neg hquote, if_neg hquote, Nat.add_zero]

lemma sanitize_scan (cs : List Char) :
    cs.foldl sanitizeStep ([], false) = (escapeWhere oddQuotes [] cs, oddQuotes cs) := by
  induction cs using List.reverseRecOn with
  | nil => exact Prod.ext rfl rfl
  | append_singleton cs c ih =>
      have hone : escapeWhere oddQuotes ([] ++ cs) [c] =
          if oddQuotes cs then escapeControl c else [c] := by
        rw [escapeWhere, escapeWhere, List.append_nil, List.nil_append]
      rw [List.foldl_append, ih, List.foldl_cons, List.foldl_nil, escapeWhere_append, hone,
        oddQuotes_concat, sanitizeStep]
      have hlast : (c = '"' ∧ (escapeWhere oddQuotes [] cs).getLast? ≠ some '\\') ↔
          (c = '"' ∧ cs.getLast? ≠ some '\\') :=
        and_congr_right fun _ => not_congr (escapeWhere_last oddQuotes cs)
      by_cases hquote : c = '"' ∧ cs.getLast? ≠ some '\\'
      · have hplain : escapeControl c = [c] := by
          rw [hquote.1]
          rfl
        rw [if_pos (hlast.mpr hquote), if_pos hquote, hplain, ite_self]
      · rw [if_neg (fun h => hquote (hlast.mp h)), if_neg hquote]
        cases oddQuotes cs with
        | false => rfl
        | true =>
            cases hc : isControl c with
            | true => rfl
            | false =>
                rw [escapeControl_of_not hc]
                rfl

lemma sanitizeJsonStrings_eq (s : String) :
    (sanitizeJsonStrings s).toList = escapeWhere oddQuotes [] s.toList := by
  rw [sanitizeJsonStrings, String.toList_ofList, sanitize_scan]

/-- The two flags of the edit parser's copy as one place. -/
lemma sanitizeFrom_scan (pre cs : List Char) :
    sanitizeFrom (spotAfter pre ≠ .outside) (spotAfter pre = .escaped) cs =
      escapeWhere insideString pre cs := by
  induction cs generalizing pre with
  | nil => cases spotAfter pre <;> rfl
  | cons c cs ih =>
      have hnext := ih (pre ++ [c])
      have hspot : spotAfter (pre ++ [c]) = (spotAfter pre).step c := by
        rw [spotAfter, List.foldl_append]
        rfl
      rw [hspot] at hnext
      rw [escapeWhere, insideString, ← hnext]
      cases spotAfter pre with
      | outside => by_cases hquote : c = '"' <;> simp [sanitizeFrom, Spot.step, hquote]
      | inside =>
          by_cases hback : c = '\\'
          · rw [hback]
            rfl
          · by_cases hquote : c = '"'
            · rw [hquote]
              rfl
            · simp [sanitizeFrom, Spot.step, hback, hquote]
      | escaped => simp [sanitizeFrom, Spot.step]

lemma editParser_eq (s : String) :
    (EditParser.sanitizeJsonStrings s).toList = escapeWhere insideString [] s.toList := by
  rw [EditParser.sanitizeJsonStrings, String.toList_ofList, ← sanitizeFrom_scan]
  rfl

end Scans

section Values

variable {P : List Char → Bool} {st st' : State} {pre cs : List Char} {c : Char}

/-- A control character above the space stands in a string for itself only. -/
lemma step_high (hst : st.spot ≠ .outside) (hc : 127 ≤ c.toNat) (h : st.step c = some st') :
    ∃ stack asKey chars, st = ⟨stack, .string asKey ⟨chars, .plain⟩⟩ ∧
      st' = ⟨stack, .string asKey ⟨chars ++ [c], .plain⟩⟩ := by
  have hne : ∀ d : Char, d.toNat < 127 → c ≠ d := by
    rintro d hd rfl
    omega
  have hhex : hexDigit c = none := by
    have hle : ∀ d : Char, d.toNat < 127 → ¬ c ≤ d := by
      intro d hd hcd
      have hnat : c.toNat ≤ d.toNat := hcd
      omega
    rw [hexDigit, if_neg (fun h => hle '9' (by decide) h.2),
      if_neg (fun h => hle 'f' (by decide) h.2), if_neg (fun h => hle 'F' (by decide) h.2)]
  have hlookup : escapes.lookup c = none := by
    rw [List.lookup_eq_none_iff]
    intro e he
    have hall : escapes.all (fun e => e.1.toNat < 127) = true := by decide
    have hlow := of_decide_eq_true (List.all_eq_true.mp hall e he)
    simpa using hne e.1 hlow
  obtain ⟨stack, mode⟩ := st
  cases mode with
  | string asKey part =>
      obtain ⟨chars, place⟩ := part
      have hquote := hne '"' (by decide)
      have hback := hne '\\' (by decide)
      have hu := hne 'u' (by decide)
      cases place with
      | plain =>
          have hlow : ¬ c.toNat < 32 := by omega
          simp only [State.step, StringPart.step, hquote, hback, hlow, and_false, if_false,
            Option.map_some, Option.some.injEq] at h
          exact ⟨stack, asKey, chars, rfl, h.symm⟩
      | escape => simp [State.step, StringPart.step, hu, hlookup] at h
      | hex high digits => simp [State.step, StringPart.step, hhex] at h
      | low high => simp [State.step, StringPart.step, hback] at h
      | lowEscape high => simp [State.step, StringPart.step, hu] at h
  | value mayEnd => exact (hst rfl).elim
  | key mayEnd => exact (hst rfl).elim
  | colon key => exact (hst rfl).elim
  | next => exact (hst rfl).elim
  | done v => exact (hst rfl).elim
  | word cs => exact (hst rfl).elim

lemma escapeControl_digits (hc : isControl c = true) (hhigh : 127 ≤ c.toNat) :
    ∃ a b, escapeControl c = ['\\', 'u', '0', '0', a, b] ∧
      hexDigit a = some (c.toNat / 16) ∧ hexDigit b = some (c.toNat % 16) := by
  have hp := control_cases (p := fun c => c.toNat < 127 ||
    (escapeControl c = ['\\', 'u', '0', '0', (escapeControl c).getD 4 ' ',
        (escapeControl c).getD 5 ' '] &&
      hexDigit ((escapeControl c).getD 4 ' ') = some (c.toNat / 16) &&
      hexDigit ((escapeControl c).getD 5 ' ') = some (c.toNat % 16))) (by decide) hc
  have hlow : ¬ c.toNat < 127 := by omega
  simp only [hlow, decide_false, Bool.false_or, Bool.and_eq_true, decide_eq_true_eq] at hp
  exact ⟨_, _, hp.1.1, hp.1.2, hp.2⟩

/-- The escaped character is read as the character. -/
lemma run_escaped (hst : st.spot ≠ .outside) (h : st.step c = some st') :
    st.run (escapeControl c) = some st' := by
  have hlow := step_inside hst h
  cases hc : isControl c with
  | false =>
      rw [escapeControl_of_not hc, State.run, h]
      rfl
  | true =>
      have hhigh : 127 ≤ c.toNat := by
        simp only [isControl, Bool.or_eq_true, Bool.and_eq_true, decide_eq_true_eq] at hc
        omega
      have hmax : c.toNat < 160 := by
        simp only [isControl, Bool.or_eq_true, Bool.and_eq_true, decide_eq_true_eq] at hc
        omega
      obtain ⟨stack, asKey, chars, rfl, rfl⟩ := step_high hst hhigh h
      obtain ⟨a, b, htext, ha, hb⟩ := escapeControl_digits hc hhigh
      have hzero : hexDigit '0' = some 0 := rfl
      have hvalue : 16 * (16 * (16 * 0 + 0) + c.toNat / 16) + c.toNat % 16 = c.toNat := by omega
      rw [htext, run_unicode hzero hzero ha hb (by omega), hvalue, Char.ofNat_toNat]

/-- Outside strings no control character is escaped. -/
def KeepsOutside (P : List Char → Bool) (pre cs : List Char) : Prop :=
  ∀ l c r, cs = l ++ c :: r → isControl c = true → spotAfter (pre ++ l) = .outside →
    P (pre ++ l) = false

lemma KeepsOutside.tail (h : KeepsOutside P pre (c :: cs)) : KeepsOutside P (pre ++ [c]) cs := by
  intro l d r hcs hd hspot
  have hlater := h (c :: l) d r (by rw [hcs]; rfl) hd
  rw [List.append_assoc, List.singleton_append] at hspot ⊢
  exact hlater hspot

lemma spotAfter_concat (pre : List Char) (c : Char) :
    spotAfter (pre ++ [c]) = (spotAfter pre).step c := by
  rw [spotAfter, List.foldl_append]
  rfl

/-- One character, escaped or not. -/
lemma run_piece (hst : st.spot = spotAfter pre) (h : st.step c = some st')
    (hkeeps : isControl c = true → spotAfter pre = .outside → P pre = false) :
    st.run (if P pre then escapeControl c else [c]) = some st' := by
  cases hP : P pre with
  | false =>
      change (st.step c).bind _ = some st'
      rw [h]
      rfl
  | true =>
      cases hc : isControl c with
      | false =>
          rw [if_pos rfl, escapeControl_of_not hc, State.run, h]
          rfl
      | true =>
          have hinside : st.spot ≠ .outside := by
            intro hout
            rw [hkeeps hc (hst ▸ hout)] at hP
            cases hP
          exact run_escaped hinside h

lemma run_escapeWhere (hst : st.spot = spotAfter pre) (h : st.run cs = some st')
    (hkeeps : KeepsOutside P pre cs) : st.run (escapeWhere P pre cs) = some st' := by
  induction cs generalizing st pre with
  | nil => exact h
  | cons c cs ih =>
      obtain ⟨mid, hstep, hrun⟩ := Option.bind_eq_some_iff.mp h
      have hmid : mid.spot = spotAfter (pre ++ [c]) := by
        rw [spotAfter_concat, ← hst, step_spot hstep]
      have hpiece := run_piece hst hstep (P := P) (fun hc hout => by
        have hhere := hkeeps [] c cs rfl hc
        rw [List.append_nil] at hhere
        exact hhere hout)
      rw [escapeWhere, State.run_append, hpiece]
      exact ih hmid hrun hkeeps.tail

/-- No text is read on over a backslash outside strings. -/
lemma keepsOutside_of_run (hst : st.spot = spotAfter pre) (h : st.run cs = some st')
    (hescaped : (st.run (escapeWhere P pre cs)).isSome = true) : KeepsOutside P pre cs := by
  induction cs generalizing st pre with
  | nil =>
      intro l c r hcs
      simp at hcs
  | cons d cs ih =>
      obtain ⟨mid, hstep, hrun⟩ := Option.bind_eq_some_iff.mp h
      have hmid : mid.spot = spotAfter (pre ++ [d]) := by
        rw [spotAfter_concat, ← hst, step_spot hstep]
      rw [escapeWhere, State.run_append] at hescaped
      have hhere : isControl d = true → spotAfter pre = .outside → P pre = false := by
        intro hd hout
        by_contra hP
        rw [if_pos (Bool.eq_true_of_not_eq_false hP)] at hescaped
        obtain ⟨rest, hrest⟩ : ∃ rest, escapeControl d = '\\' :: rest := by
          have hhead := (escapeControl_head hd).1
          cases htext : escapeControl d with
          | nil =>
              rw [htext] at hhead
              cases hhead
          | cons e rest =>
              rw [htext] at hhead
              exact ⟨rest, congrArg (· :: rest) (Option.some.inj hhead)⟩
        have hnone : st.step '\\' = none := by
          rw [Option.eq_none_iff_forall_ne_some]
          intro next hnext
          have hstructural := step_outside (hst.trans hout) hnext
          revert hstructural
          unfold IsStructural
          decide
        rw [hrest, State.run, hnone] at hescaped
        cases hescaped
      rw [run_piece hst hstep hhere] at hescaped
      have hlater := ih hmid hrun hescaped
      intro l c r hcs hc hout
      cases l with
      | nil =>
          obtain ⟨rfl, -⟩ := List.cons.inj hcs
          rw [List.append_nil] at hout ⊢
          exact hhere hc hout
      | cons e l =>
          obtain ⟨rfl, htail⟩ := List.cons.inj hcs
          have hone := hlater l c r htail hc
          rw [List.append_assoc, List.singleton_append] at hone
          exact hone hout

end Values

section Copies

variable {s : String}

lemma readJson_escapeWhere {P : List Char → Bool} {text : List Char} {v : Json}
    (h : readJson text = some v) (hkeeps : KeepsOutside P [] text) :
    readJson (escapeWhere P [] text) = some v := by
  obtain ⟨last, hrun, hfinish⟩ := Option.bind_eq_some_iff.mp h
  rw [readJson, run_escapeWhere rfl hrun hkeeps]
  exact hfinish

/-- The edit parser's copy gives a text of the same value. -/
theorem editParser_preserves {v : Json} (h : readJson s.toList = some v) :
    readJson (EditParser.sanitizeJsonStrings s).toList = some v := by
  rw [editParser_eq]
  apply readJson_escapeWhere h
  intro l c r _ _ hout
  rw [insideString, decide_eq_false_iff_not]
  intro hinside
  rw [List.nil_append] at hout hinside
  rw [hout] at hinside
  cases hinside

/-- The workflow's copy gives a text of the same value where it takes no place between strings for
one inside. -/
theorem workflow_preserves_iff {v : Json} (h : readJson s.toList = some v) :
    readJson (sanitizeJsonStrings s).toList = some v ↔
      ∀ pre c post, s.toList = pre ++ c :: post → isControl c = true →
        spotAfter pre = .outside → freeQuotes pre % 2 = 0 := by
  have hcond : KeepsOutside oddQuotes [] s.toList ↔
      ∀ pre c post, s.toList = pre ++ c :: post → isControl c = true →
        spotAfter pre = .outside → freeQuotes pre % 2 = 0 := by
    simp [KeepsOutside, oddQuotes]
  rw [sanitizeJsonStrings_eq, ← hcond]
  constructor
  · intro hread
    obtain ⟨last, hrun, -⟩ := Option.bind_eq_some_iff.mp h
    obtain ⟨last', hrun', -⟩ := Option.bind_eq_some_iff.mp hread
    apply keepsOutside_of_run rfl hrun
    rw [hrun']
    rfl
  · intro hkeeps
    exact readJson_escapeWhere h hkeeps

/-- What is asked of the two copies at one text. -/
structure Sanitized (s : String) : Prop where
  agree : EditParser.sanitizeJsonStrings s = sanitizeJsonStrings s
  preserved : ∀ v, readJson s.toList = some v →
    readJson (EditParser.sanitizeJsonStrings s).toList = some v ∧
      readJson (sanitizeJsonStrings s).toList = some v

/-- At every control character the quotes must be counted as a reader of strings takes them. -/
theorem sanitized_iff (s : String) : Sanitized s ↔
    ∀ pre c post, s.toList = pre ++ c :: post → isControl c = true →
      (freeQuotes pre % 2 = 1 ↔ spotAfter pre = .inside) := by
  have hagree : EditParser.sanitizeJsonStrings s = sanitizeJsonStrings s ↔
      ∀ pre c post, s.toList = pre ++ c :: post → isControl c = true →
        (freeQuotes pre % 2 = 1 ↔ spotAfter pre = .inside) := by
    rw [← String.toList_inj, editParser_eq, sanitizeJsonStrings_eq, escapeWhere_eq_iff]
    simp only [List.nil_append, insideString, oddQuotes, decide_eq_decide]
    exact forall_congr' fun pre => forall_congr' fun c => forall_congr' fun post =>
      imp_congr_right fun _ => imp_congr_right fun _ => Iff.comm
  constructor
  · intro h
    exact hagree.mp h.agree
  · intro hcond
    have hsame := hagree.mpr hcond
    refine ⟨hsame, fun v hv => ?_⟩
    have hedit := editParser_preserves hv
    exact ⟨hedit, hsame ▸ hedit⟩

/-- A string that ends in a backslash, and a line break behind it. -/
def windowsPath : String := "\x7b\"dir\": \"C:\\\\\",\n \"n\": 1\x7d"

theorem line_break_escaped : (readJson windowsPath.toList).isSome = true ∧
    (readJson (sanitizeJsonStrings windowsPath).toList).isSome = false ∧
      ¬ Sanitized windowsPath := by
  have hread : (readJson windowsPath.toList).isSome = true := by decide
  have hbroken : (readJson (sanitizeJsonStrings windowsPath).toList).isSome = false := by
    decide
  refine ⟨hread, hbroken, fun h => ?_⟩
  obtain ⟨v, hv⟩ := Option.isSome_iff_exists.mp hread
  rw [(h.preserved v hv).2] at hbroken
  cases hbroken

end Copies

end Loker.JsonSanitizing
