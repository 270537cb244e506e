import Mathlib

/-! A reader of JSON texts that takes one character at a time and keeps the open arrays and objects
on a stack. -/

namespace Loker.JsonReader

/-- A number is the text it is written with. -/
inductive Json where
  | null
  | bool (b : Bool)
  | number (digits : List Char)
  | string (chars : List Char)
  | array (items : List Json)
  | object (members : List (List Char × Json))

section Words

def digitsThen (next : List Char → Bool) (cs : List Char) : Bool :=
  !(cs.takeWhile Char.isDigit).isEmpty && next (cs.dropWhile Char.isDigit)

def isExponent : List Char → Bool
  | [] => true
  | e :: cs =>
      (e = 'e' || e = 'E') &&
        digitsThen List.isEmpty (if cs.head? = some '+' ∨ cs.head? = some '-' then cs.tail else cs)

def isFraction (cs : List Char) : Bool :=
  if cs.head? = some '.' then digitsThen isExponent cs.tail else isExponent cs

/-- A number begins with no zero but a single one. -/
def isNumber (cs : List Char) : Bool :=
  let unsigned := if cs.head? = some '-' then cs.tail else cs
  if unsigned.head? = some '0' then isFraction unsigned.tail else digitsThen isFraction unsigned

def wordValue (cs : List Char) : Option Json :=
  if cs = "null".toList then some .null
  else if cs = "true".toList then some (.bool true)
  else if cs = "false".toList then some (.bool false)
  else if isNumber cs then some (.number cs)
  else none

def isWordChar (c : Char) : Bool := c.isAlphanum || c = '+' || c = '-' || c = '.'

def isBlank (c : Char) : Bool := c = ' ' || c = '\t' || c = '\n' || c = '\r'

end Words

section Strings

/-- Where in a string the reader is: an escape may be open, and a surrogate may wait for its other
half. -/
inductive Place where
  | plain
  | escape
  | hex (high : Option ℕ) (digits : List ℕ)
  | low (high : ℕ)
  | lowEscape (high : ℕ)
  deriving DecidableEq

structure StringPart where
  chars : List Char
  place : Place

def escapes : List (Char × Char) :=
  [('"', '"'), ('\\', '\\'), ('/', '/'), ('b', '\x08'), ('f', '\x0c'), ('n', '\n'), ('r', '\r'),
    ('t', '\t')]

def hexDigit (c : Char) : Option ℕ :=
  if '0' ≤ c ∧ c ≤ '9' then some (c.toNat - '0'.toNat)
  else if 'a' ≤ c ∧ c ≤ 'f' then some (c.toNat - 'a'.toNat + 10)
  else if 'A' ≤ c ∧ c ≤ 'F' then some (c.toNat - 'A'.toNat + 10)
  else none

/-- A code unit: a surrogate is a character only with its other half. -/
def addUnit (chars : List Char) (high : Option ℕ) (n : ℕ) : Option StringPart :=
  match high with
  | none =>
      if 0xd800 ≤ n ∧ n < 0xdc00 then some ⟨chars, .low n⟩
      else if 0xdc00 ≤ n ∧ n < 0xe000 then none
      else some ⟨chars ++ [Char.ofNat n], .plain⟩
  | some h =>
      if 0xdc00 ≤ n ∧ n < 0xe000 then
        some ⟨chars ++ [Char.ofNat (0x10000 + (h - 0xd800) * 0x400 + (n - 0xdc00))], .plain⟩
      else none

def addDigit (chars : List Char) (high : Option ℕ) (digits : List ℕ) (d : ℕ) : Option StringPart :=
  if digits.length = 3 then addUnit chars high ((digits ++ [d]).foldl (fun n d => 16 * n + d) 0)
  else some ⟨chars, .hex high (digits ++ [d])⟩

/-- A character of a string that does not end it. -/
def StringPart.step (part : StringPart) (c : Char) : Option StringPart :=
  match part.place with
  | .plain =>
      if c = '\\' then some ⟨part.chars, .escape⟩
      else if c.toNat < 32 then none
      else some ⟨part.chars ++ [c], .plain⟩
  | .escape =>
      if c = 'u' then some ⟨part.chars, .hex none []⟩
      else (escapes.lookup c).map fun d => ⟨part.chars ++ [d], .plain⟩
  | .hex high digits => (hexDigit c).bind (addDigit part.chars high digits)
  | .low high => if c = '\\' then some ⟨part.chars, .lowEscape high⟩ else none
  | .lowEscape high => if c = 'u' then some ⟨part.chars, .hex (some high) []⟩ else none

end Strings

section Reader

/-- What is open around the next value: an array, an object, or an object at one of its members. -/
inductive Frame where
  | items (vs : List Json)
  | members (ms : List (List Char × Json))
  | member (ms : List (List Char × Json)) (key : List Char)

/-- What comes next. An array or an object that has just begun may end. -/
inductive Mode where
  | value (mayEnd : Bool)
  | key (mayEnd : Bool)
  | colon (key : List Char)
  | next
  | done (v : Json)
  | string (asKey : Bool) (part : StringPart)
  | word (cs : List Char)

structure State where
  stack : List Frame
  mode : Mode

def complete (v : Json) : List Frame → Option State
  | [] => some ⟨[], .done v⟩
  | .items vs :: rest => some ⟨.items (vs ++ [v]) :: rest, .next⟩
  | .member ms key :: rest => some ⟨.members (ms ++ [(key, v)]) :: rest, .next⟩
  | .members _ :: _ => none

def close (c : Char) : List Frame → Option State
  | .items vs :: rest => if c = ']' then complete (.array vs) rest else none
  | .members ms :: rest => if c = '}' then complete (.object ms) rest else none
  | _ => none

def separate (c : Char) (stack : List Frame) : Option State :=
  if c = ',' then
    match stack with
    | .items _ :: _ => some ⟨stack, .value false⟩
    | .members _ :: _ => some ⟨stack, .key false⟩
    | _ => none
  else close c stack

def beginMember (key : List Char) (c : Char) : List Frame → Option State
  | .members ms :: rest => if c = ':' then some ⟨.member ms key :: rest, .value false⟩ else none
  | _ => none

def beginString (asKey : Bool) (stack : List Frame) : State := ⟨stack, .string asKey ⟨[], .plain⟩⟩

def beginValue (c : Char) (stack : List Frame) : Option State :=
  if c = '"' then some (beginString false stack)
  else if c = '[' then some ⟨.items [] :: stack, .value true⟩
  else if c = '{' then some ⟨.members [] :: stack, .key true⟩
  else if isWordChar c then some ⟨stack, .word [c]⟩
  else none

/-- A character outside strings and words. -/
def between (st : State) (c : Char) : Option State :=
  if isBlank c then some st
  else
    match st.mode with
    | .value mayEnd => if mayEnd ∧ c = ']' then close c st.stack else beginValue c st.stack
    | .key mayEnd =>
        if c = '"' then some (beginString true st.stack)
        else if mayEnd ∧ c = '}' then close c st.stack
        else none
    | .colon key => beginMember key c st.stack
    | .next => separate c st.stack
    | _ => none

def endString (asKey : Bool) (chars : List Char) (stack : List Frame) : Option State :=
  if asKey then some ⟨stack, .colon chars⟩ else complete (.string chars) stack

def endWord (cs : List Char) (stack : List Frame) : Option State :=
  (wordValue cs).bind fun v => complete v stack

def State.step (st : State) (c : Char) : Option State :=
  match st.mode with
  | .string asKey part =>
      if part.place = .plain ∧ c = '"' then endString asKey part.chars st.stack
      else (part.step c).map fun part => ⟨st.stack, .string asKey part⟩
  | .word cs =>
      if isWordChar c then some ⟨st.stack, .word (cs ++ [c])⟩
      else (endWord cs st.stack).bind fun st => between st c
  | _ => between st c

def State.run (st : State) : List Char → Option State
  | [] => some st
  | c :: cs => (st.step c).bind fun st => st.run cs

def State.finish (st : State) : Option Json :=
  match st.mode, st.stack with
  | .done v, _ => some v
  | .word cs, [] => wordValue cs
  | _, _ => none

def start : State := ⟨[], .value false⟩

def readJson (text : List Char) : Option Json := (start.run text).bind State.finish

lemma State.run_append (st : State) (xs ys : List Char) :
    st.run (xs ++ ys) = (st.run xs).bind fun st => st.run ys := by
  induction xs generalizing st with
  | nil => rfl
  | cons c xs ih =>
      rw [List.cons_append, State.run, State.run, Option.bind_assoc]
      exact congrArg _ (funext ih)

end Reader

section Spots

/-- Where a text is at its end when nothing but quotes and backslashes counts. -/
inductive Spot where
  | outside
  | inside
  | escaped
  deriving DecidableEq, Repr

def Spot.step : Spot → Char → Spot
  | .outside, c => if c = '"' then .inside else .outside
  | .inside, c => if c = '\\' then .escaped else if c = '"' then .outside else .inside
  | .escaped, _ => .inside

def spotAfter (text : List Char) : Spot := text.foldl Spot.step .outside

def Place.spot : Place → Spot
  | .escape => .escaped
  | .lowEscape _ => .escaped
  | _ => .inside

def State.spot (st : State) : Spot :=
  match st.mode with
  | .string _ part => part.place.spot
  | _ => .outside

variable {st st' : State} {c : Char}

lemma complete_spot {v : Json} {stack : List Frame} (h : complete v stack = some st) :
    st.spot = .outside := by
  cases stack with
  | nil =>
      cases h
      rfl
  | cons frame rest => cases frame <;> cases h <;> rfl

lemma close_spot {stack : List Frame} (h : close c stack = some st) :
    st.spot = .outside ∧ (c = ']' ∨ c = '}') := by
  cases stack with
  | nil => cases h
  | cons frame rest =>
      cases frame with
      | items vs =>
          obtain ⟨hc, h⟩ := Option.ite_none_right_eq_some.mp h
          exact ⟨complete_spot h, .inl hc⟩
      | members ms =>
          obtain ⟨hc, h⟩ := Option.ite_none_right_eq_some.mp h
          exact ⟨complete_spot h, .inr hc⟩
      | member ms key => cases h

/-- The characters that stand outside strings. -/
def IsStructural (c : Char) : Prop :=
  isBlank c = true ∨ isWordChar c = true ∨ c ∈ ['[', ']', '\x7b', '\x7d', ',', ':', '"']

lemma outside_step (h : c ≠ '"') : Spot.outside.step c = .outside := if_neg h

lemma inside_step (hquote : c ≠ '"') (hback : c ≠ '\\') : Spot.inside.step c = .inside := by
  simp [Spot.step, hquote, hback]

lemma separate_spot {stack : List Frame} (h : separate c stack = some st) :
    st.spot = .outside ∧ (c = ',' ∨ c = ']' ∨ c = '}') := by
  by_cases hc : c = ','
  · unfold separate at h
    rw [if_pos hc] at h
    cases stack with
    | nil => cases h
    | cons frame rest =>
        cases frame with
        | items vs =>
            cases h
            exact ⟨rfl, .inl hc⟩
        | members ms =>
            cases h
            exact ⟨rfl, .inl hc⟩
        | member ms key => cases h
  · unfold separate at h
    rw [if_neg hc] at h
    obtain ⟨hspot, hclose⟩ := close_spot h
    exact ⟨hspot, .inr hclose⟩

lemma beginMember_spot {key : List Char} {stack : List Frame}
    (h : beginMember key c stack = some st) : st.spot = .outside ∧ c = ':' := by
  cases stack with
  | nil => cases h
  | cons frame rest =>
      cases frame with
      | items vs => cases h
      | members ms =>
          obtain ⟨hc, h⟩ := Option.ite_none_right_eq_some.mp h
          cases h
          exact ⟨rfl, hc⟩
      | member ms key => cases h

lemma beginValue_spot {stack : List Frame} (h : beginValue c stack = some st) :
    st.spot = Spot.outside.step c ∧ (isWordChar c = true ∨ c ∈ ['"', '[', '{']) := by
  by_cases hquote : c = '"'
  · rw [beginValue, if_pos hquote] at h
    cases h
    rw [hquote]
    exact ⟨rfl, .inr (by simp)⟩
  · rw [beginValue, if_neg hquote] at h
    rw [outside_step hquote]
    by_cases hitems : c = '['
    · rw [if_pos hitems] at h
      cases h
      exact ⟨rfl, .inr (by simp [hitems])⟩
    · rw [if_neg hitems] at h
      by_cases hmembers : c = '{'
      · rw [if_pos hmembers] at h
        cases h
        exact ⟨rfl, .inr (by simp [hmembers])⟩
      · rw [if_neg hmembers] at h
        obtain ⟨hword, h⟩ := Option.ite_none_right_eq_some.mp h
        cases h
        exact ⟨rfl, .inl hword⟩

lemma ne_quote_of_isBlank (h : isBlank c = true) : c ≠ '"' := by
  rintro rfl
  cases h

lemma ne_quote_of_isWordChar (h : isWordChar c = true) : c ≠ '"' := by
  rintro rfl
  revert h
  decide

/-- Outside strings and words a quote begins a string, and nothing else does. -/
lemma between_spot (hst : st.spot = .outside) (h : between st c = some st') :
    st'.spot = Spot.outside.step c ∧ IsStructural c := by
  by_cases hblank : isBlank c = true
  · rw [between, if_pos hblank] at h
    cases h
    rw [outside_step (ne_quote_of_isBlank hblank)]
    exact ⟨hst, .inl hblank⟩
  · rw [between, if_neg hblank] at h
    obtain ⟨stack, mode⟩ := st
    cases mode with
    | value mayEnd =>
        simp only at h
        split at h
        · next hend =>
          obtain ⟨hspot, -⟩ := close_spot h
          rw [hspot, hend.2]
          exact ⟨rfl, .inr (.inr (by simp))⟩
        · obtain ⟨hspot, hchar⟩ := beginValue_spot h
          refine ⟨hspot, ?_⟩
          rcases hchar with hword | hmem
          · exact .inr (.inl hword)
          · refine .inr (.inr ?_)
            simp only [List.mem_cons, List.not_mem_nil, or_false] at hmem ⊢
            tauto
    | key mayEnd =>
        simp only at h
        split at h
        · next hquote =>
          cases h
          rw [hquote]
          exact ⟨rfl, .inr (.inr (by simp))⟩
        · obtain ⟨hend, h⟩ := Option.ite_none_right_eq_some.mp h
          obtain ⟨hspot, -⟩ := close_spot h
          rw [hspot, hend.2]
          exact ⟨rfl, .inr (.inr (by simp))⟩
    | colon key =>
        obtain ⟨hspot, hc⟩ := beginMember_spot h
        rw [hspot, hc]
        exact ⟨rfl, .inr (.inr (by simp))⟩
    | next =>
        obtain ⟨hspot, hc⟩ := separate_spot h
        rw [hspot]
        rcases hc with hc | hc | hc <;>
          · rw [hc]
            exact ⟨rfl, .inr (.inr (by simp))⟩
    | done v => cases h
    | string asKey part => cases h
    | word cs => cases h

lemma endWord_spot {cs : List Char} {stack : List Frame} (h : endWord cs stack = some st) :
    st.spot = .outside := by
  obtain ⟨v, -, h⟩ := Option.bind_eq_some_iff.mp h
  exact complete_spot h

lemma addUnit_spot {chars : List Char} {high : Option ℕ} {n : ℕ} {part : StringPart}
    (h : addUnit chars high n = some part) : part.place.spot = .inside := by
  unfold addUnit at h
  split at h
  · split at h
    · cases h
      rfl
    · split at h
      · cases h
      · cases h
        rfl
  · split at h
    · cases h
      rfl
    · cases h

lemma hexDigit_char {d : ℕ} (h : hexDigit c = some d) :
    32 ≤ c.toNat ∧ c ≠ '"' ∧ c ≠ '\\' := by
  have hrange : ('0' ≤ c ∧ c ≤ '9') ∨ ('a' ≤ c ∧ c ≤ 'f') ∨ ('A' ≤ c ∧ c ≤ 'F') := by
    unfold hexDigit at h
    split at h
    · exact .inl ‹_›
    · split at h
      · exact .inr (.inl ‹_›)
      · split at h
        · exact .inr (.inr ‹_›)
        · cases h
  have hlow : 48 ≤ c.toNat := by
    rcases hrange with hr | hr | hr
    · exact hr.1
    · have hletter : 97 ≤ c.toNat := hr.1
      omega
    · have hletter : 65 ≤ c.toNat := hr.1
      omega
  refine ⟨by omega, ?_, ?_⟩
  · rintro rfl
    exact absurd hlow (by decide)
  · rintro rfl
    revert hrange
    decide

/-- Inside a string the reader is where the quotes and backslashes say. -/
lemma part_spot {part part' : StringPart} (hquote : ¬ (part.place = .plain ∧ c = '"'))
    (h : part.step c = some part') :
    part'.place.spot = part.place.spot.step c ∧ 32 ≤ c.toNat := by
  obtain ⟨chars, place⟩ := part
  cases place with
  | plain =>
      simp only [StringPart.step] at h
      split at h
      · next hc =>
        cases h
        rw [hc]
        exact ⟨rfl, by decide⟩
      · next hc =>
        split at h
        · cases h
        · cases h
          have hne : c ≠ '"' := fun heq => hquote ⟨rfl, heq⟩
          exact ⟨(inside_step hne hc).symm, by omega⟩
  | escape =>
      simp only [StringPart.step] at h
      split at h
      · next hc =>
        cases h
        rw [hc]
        exact ⟨rfl, by decide⟩
      · obtain ⟨d, hd, rfl⟩ := Option.map_eq_some_iff.mp h
        refine ⟨rfl, ?_⟩
        have hmem : (c, d) ∈ escapes := by
          obtain ⟨l, r, heq, -⟩ := List.lookup_eq_some_iff.mp hd
          rw [heq]
          simp
        have hall : escapes.all (fun e => 32 ≤ e.1.toNat) = true := by decide
        have hc := List.all_eq_true.mp hall _ hmem
        exact of_decide_eq_true hc
  | hex high digits =>
      obtain ⟨d, hd, h⟩ := Option.bind_eq_some_iff.mp h
      obtain ⟨hlow, hne, hback⟩ := hexDigit_char hd
      refine ⟨?_, hlow⟩
      have hstep : (Place.hex high digits).spot.step c = .inside := inside_step hne hback
      rw [hstep]
      simp only [addDigit] at h
      split at h
      · exact addUnit_spot h
      · cases h
        rfl
  | low high =>
      obtain ⟨hc, h⟩ := Option.ite_none_right_eq_some.mp h
      cases h
      rw [hc]
      exact ⟨rfl, by decide⟩
  | lowEscape high =>
      obtain ⟨hc, h⟩ := Option.ite_none_right_eq_some.mp h
      cases h
      rw [hc]
      exact ⟨rfl, by decide⟩

lemma endString_spot {asKey : Bool} {chars : List Char} {stack : List Frame}
    (h : endString asKey chars stack = some st) : st.spot = .outside := by
  cases asKey with
  | true =>
      cases h
      rfl
  | false => exact complete_spot h

/-- A step leaves the reader where the quotes and backslashes say. -/
lemma step_spot (h : st.step c = some st') : st'.spot = st.spot.step c := by
  obtain ⟨stack, mode⟩ := st
  cases mode with
  | string asKey part =>
      simp only [State.step] at h
      split at h
      · next hend =>
        have hinside : part.place.spot = .inside := congrArg Place.spot hend.1
        change st'.spot = part.place.spot.step c
        rw [endString_spot h, hinside, hend.2]
        rfl
      · next hend =>
        obtain ⟨part', hpart, rfl⟩ := Option.map_eq_some_iff.mp h
        exact (part_spot hend hpart).1
  | word cs =>
      simp only [State.step] at h
      split at h
      · next hc =>
        cases h
        exact (outside_step (ne_quote_of_isWordChar hc)).symm
      · obtain ⟨mid, hword, h⟩ := Option.bind_eq_some_iff.mp h
        exact (between_spot (endWord_spot hword) h).1
  | value mayEnd => exact (between_spot rfl h).1
  | key mayEnd => exact (between_spot rfl h).1
  | colon key => exact (between_spot rfl h).1
  | next => exact (between_spot rfl h).1
  | done v => exact (between_spot rfl h).1

/-- Outside strings only blanks, words, brackets, separators and quotes stand. -/
lemma step_outside (hst : st.spot = .outside) (h : st.step c = some st') : IsStructural c := by
  obtain ⟨stack, mode⟩ := st
  cases mode with
  | string asKey part =>
      obtain ⟨chars, place⟩ := part
      cases place <;> cases hst
  | word cs =>
      simp only [State.step] at h
      split at h
      · next hc => exact .inr (.inl hc)
      · obtain ⟨mid, hword, h⟩ := Option.bind_eq_some_iff.mp h
        exact (between_spot (endWord_spot hword) h).2
  | value mayEnd => exact (between_spot rfl h).2
  | key mayEnd => exact (between_spot rfl h).2
  | colon key => exact (between_spot rfl h).2
  | next => exact (between_spot rfl h).2
  | done v => exact (between_spot rfl h).2

/-- Inside strings no control character below the space stands. -/
lemma step_inside (hst : st.spot ≠ .outside) (h : st.step c = some st') : 32 ≤ c.toNat := by
  obtain ⟨stack, mode⟩ := st
  cases mode with
  | string asKey part =>
      simp only [State.step] at h
      split at h
      · next hend =>
        rw [hend.2]
        decide
      · next hend =>
        obtain ⟨part', hpart, -⟩ := Option.map_eq_some_iff.mp h
        exact (part_spot hend hpart).2
  | value mayEnd => exact (hst rfl).elim
  | key mayEnd => exact (hst rfl).elim
  | colon key => exact (hst rfl).elim
  | next => exact (hst rfl).elim
  | done v => exact (hst rfl).elim
  | word cs => exact (hst rfl).elim

lemma run_spot {text : List Char} (h : st.run text = some st') :
    st'.spot = text.foldl Spot.step st.spot := by
  induction text generalizing st with
  | nil =>
      cases h
      rfl
  | cons c text ih =>
      obtain ⟨mid, hstep, hrun⟩ := Option.bind_eq_some_iff.mp h
      rw [ih hrun, List.foldl_cons, step_spot hstep]

/-- The reader of a text gets to every place of it. -/
lemma readJson_reaches {pre post : List Char} {v : Json}
    (h : readJson (pre ++ c :: post) = some v) :
    ∃ st st', start.run pre = some st ∧ st.spot = spotAfter pre ∧ st.step c = some st' := by
  obtain ⟨last, hrun, -⟩ := Option.bind_eq_some_iff.mp h
  rw [State.run_append] at hrun
  obtain ⟨st, hpre, hpost⟩ := Option.bind_eq_some_iff.mp hrun
  obtain ⟨st', hstep, -⟩ := Option.bind_eq_some_iff.mp hpost
  exact ⟨st, st', hpre, run_spot hpre, hstep⟩

end Spots

section Escapes

/-- An escaped code unit is the character that it counts. -/
lemma run_unicode {stack : List Frame} {asKey : Bool} {chars : List Char} {a b c d : Char}
    {i j k l : ℕ} (ha : hexDigit a = some i) (hb : hexDigit b = some j) (hc : hexDigit c = some k)
    (hd : hexDigit d = some l) (hn : 16 * (16 * (16 * i + j) + k) + l < 0xd800) :
    State.run ⟨stack, .string asKey ⟨chars, .plain⟩⟩ ['\\', 'u', a, b, c, d] =
      some ⟨stack, .string asKey
        ⟨chars ++ [Char.ofNat (16 * (16 * (16 * i + j) + k) + l)], .plain⟩⟩ := by
  have hunit : addUnit chars none (16 * (16 * (16 * i + j) + k) + l) =
      some ⟨chars ++ [Char.ofNat (16 * (16 * (16 * i + j) + k) + l)], .plain⟩ := by
    simp only [addUnit]
    rw [if_neg (by omega), if_neg (by omega)]
  simp [State.run, State.step, StringPart.step, ha, hb, hc, hd, addDigit, hunit]

end Escapes

end Loker.JsonReader
