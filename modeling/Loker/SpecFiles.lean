import Loker.FileTree
import Loker.TomlText

/-! The files in which the spec command leaves a plan and from which the implement command takes
it: strings are written in their debug form and read as TOML. -/

namespace Loker.SpecFiles

open FileTree TextOps TomlText

section Model

/-- What the debug form asks of the Unicode tables. -/
structure CharTables where
  isPrintable : Char → Bool
  isGraphemeExtended : Char → Bool
  not_control : ∀ c, isPrintable c = true → isControl c = false

structure SpecEntry where
  order : UInt32
  what : String
  why : String
  how : Option String
  backup : Option String
  inputs : Option String
  outputs : Option String
  dependencies : List String
  tests : Option String

structure SubtaskEntry where
  order : UInt32
  file : Option String
  what : String
  why : Option String
  how : Option String
  inputs : Option String
  outputs : Option String
  tests : Option String

variable (tables : CharTables)

def unicodeEscape (c : Char) : List Char :=
  '\\' :: 'u' :: '{' :: (Nat.toDigits 16 c.toNat ++ ['}'])

/-- A character in the debug form of a string. -/
def escapeDebug (c : Char) : List Char :=
  if c = '\x00' then ['\\', '0']
  else if c = '\t' then ['\\', 't']
  else if c = '\r' then ['\\', 'r']
  else if c = '\n' then ['\\', 'n']
  else if c = '\\' then ['\\', '\\']
  else if c = '"' then ['\\', '"']
  else if tables.isGraphemeExtended c then unicodeEscape c
  else if tables.isPrintable c then [c]
  else unicodeEscape c

def debug (s : String) : String :=
  String.ofList ('"' :: (s.toList.flatMap (escapeDebug tables) ++ ['"']))

def debugItems : List String → String
  | [] => ""
  | [s] => debug tables s
  | s :: ss => debug tables s ++ ", " ++ debugItems ss

def debugList (ss : List String) : String := "[" ++ debugItems tables ss ++ "]"

/-- One line of a file. -/
def pair (key value : String) : String := key ++ " = " ++ value ++ "\n"

def optionalPair (key : String) : Option String → String
  | some s => pair key (debug tables s)
  | none => ""

def listPair (key : String) (ss : List String) : String :=
  if ss = [] then "" else pair key (debugList tables ss)

/-- A number in at least two digits. -/
def twoDigits (n : ℕ) : String := if n < 10 then "0" ++ n.repr else n.repr

/-- The directory that a spec is written to, below the specs' own. -/
def stepDir (name : String) (spec : SpecEntry) : String :=
  twoDigits spec.order.toNat ++ "-" ++ name

def formatStep (step : String × SpecEntry) : String :=
  "[[steps]]\n" ++
    (pair "order" step.2.order.toNat.repr ++ (pair "spec" (debug tables step.1) ++
    (pair "dir" ("\"" ++ stepDir step.1 step.2 ++ "\"") ++
    (pair "summary" (debug tables step.2.what) ++
    (listPair tables "depends_on" step.2.dependencies ++ "\n")))))

def formatSteps : List (String × SpecEntry) → String
  | [] => ""
  | step :: steps => formatStep tables step ++ formatSteps steps

def formatRoadmap (task : String) (specs : List (String × SpecEntry)) : String :=
  pair "what" (debug tables task) ++
    (pair "why" "\"Structured implementation plan with dependency ordering\"" ++
    ("\n" ++ formatSteps tables specs))

def formatSpec (spec : SpecEntry) : String :=
  pair "order" spec.order.toNat.repr ++ (pair "what" (debug tables spec.what) ++
    (pair "why" (debug tables spec.why) ++ (optionalPair tables "how" spec.how ++
    (optionalPair tables "backup" spec.backup ++ ("\n" ++ ("[context]\n" ++
    (optionalPair tables "inputs" spec.inputs ++ (optionalPair tables "outputs" spec.outputs ++
    (listPair tables "dependencies" spec.dependencies ++
    optionalPair tables "tests" spec.tests)))))))))

def formatSubtask (subtask : SubtaskEntry) : String :=
  pair "order" subtask.order.toNat.repr ++ (pair "what" (debug tables subtask.what) ++
    (optionalPair tables "file" subtask.file ++ (optionalPair tables "why" subtask.why ++
    (optionalPair tables "how" subtask.how ++ ("\n" ++ ("[context]\n" ++
    (optionalPair tables "inputs" subtask.inputs ++
    (optionalPair tables "outputs" subtask.outputs ++
    optionalPair tables "tests" subtask.tests))))))))

end Model

section Implement

structure RoadmapStep where
  order : UInt32
  spec : String
  dir : String
  summary : String
  dependsOn : List String
  deriving DecidableEq

structure Roadmap where
  what : String
  steps : List RoadmapStep
  deriving DecidableEq

structure ContextSection where
  inputs : Option String
  outputs : Option String
  deriving DecidableEq

structure StepSpec where
  order : UInt32
  what : String
  why : Option String
  how : Option String
  context : Option ContextSection
  deriving DecidableEq

inductive SubtaskStatus where
  | pending
  | complete
  | failed
  deriving DecidableEq

structure SubtaskSpec where
  order : UInt32
  what : String
  file : Option String
  why : Option String
  how : Option String
  context : Option ContextSection
  status : SubtaskStatus
  deriving DecidableEq

def asString : Toml → Option String
  | .string s => some s
  | _ => none

def asU32 : Toml → Option UInt32
  | .integer n => if n < 2 ^ 32 then some (UInt32.ofNat n) else none
  | _ => none

def asArray {α : Type} (item : Toml → Option α) : Toml → Option (List α)
  | .array xs => xs.mapM item
  | _ => none

def asTable : Toml → Option Table
  | .table t => some t
  | _ => none

def asStatus : Toml → Option SubtaskStatus
  | .string "pending" => some .pending
  | .string "complete" => some .complete
  | .string "failed" => some .failed
  | _ => none

def required {α : Type} (item : Toml → Option α) (t : Table) (key : String) : Option α :=
  (t key).bind item

def defaulted {α : Type} (item : Toml → Option α) (t : Table) (key : String) (default : α) :
    Option α :=
  match t key with
  | some v => item v
  | none => some default

/-- A field that may be missing, but not of another kind. -/
def optional {α : Type} (item : Toml → Option α) (t : Table) (key : String) : Option (Option α) :=
  defaulted (fun v => (item v).map some) t key none

def decodeRoadmapStep (v : Toml) : Option RoadmapStep := do
  let t ← asTable v
  let order ← required asU32 t "order"
  let spec ← required asString t "spec"
  let dir ← required asString t "dir"
  let summary ← required asString t "summary"
  let dependsOn ← defaulted (asArray asString) t "depends_on" []
  pure ⟨order, spec, dir, summary, dependsOn⟩

def decodeRoadmap (t : Table) : Option Roadmap := do
  let what ← required asString t "what"
  let steps ← defaulted (asArray decodeRoadmapStep) t "steps" []
  pure ⟨what, steps⟩

def decodeContext (v : Toml) : Option ContextSection := do
  let t ← asTable v
  let inputs ← optional asString t "inputs"
  let outputs ← optional asString t "outputs"
  pure ⟨inputs, outputs⟩

def decodeStepSpec (t : Table) : Option StepSpec := do
  let order ← defaulted asU32 t "order" 0
  let what ← required asString t "what"
  let why ← optional asString t "why"
  let how ← optional asString t "how"
  let context ← optional decodeContext t "context"
  pure ⟨order, what, why, how, context⟩

def decodeSubtaskSpec (t : Table) : Option SubtaskSpec := do
  let order ← defaulted asU32 t "order" 0
  let what ← required asString t "what"
  let file ← optional asString t "file"
  let why ← optional asString t "why"
  let how ← optional asString t "how"
  let context ← optional decodeContext t "context"
  let status ← defaulted asStatus t "status" .pending
  pure ⟨order, what, file, why, how, context, status⟩

/-- `toml::from_str` at a type. -/
def load {α : Type} (lib : Library) (decode : Table → Option α) (text : String) : Option α :=
  match lib.fromStr text with
  | .ok t => decode t
  | .error _ => none

/-- The spec of a step; one that cannot be read is made up from the roadmap. -/
def readStepSpec (lib : Library) (step : RoadmapStep) (content : Option String) : StepSpec :=
  (content.bind (load lib decodeStepSpec)).getD ⟨step.order, step.summary, none, none, none⟩

end Implement

section Strings

variable (tables : CharTables)

/-- The debug form has the character as TOML has it. -/
def plainChar (c : Char) : Bool :=
  c = '\t' || c = '\r' || c = '\n' || c = '\\' || c = '"' ||
    (c ≠ '\x00' && !tables.isGraphemeExtended c && tables.isPrintable c)

def plain (s : String) : Bool := s.toList.all (plainChar tables)

variable {tables} {c : Char} {cs rest : List Char} {s : String}

lemma readBasic_unicodeEscape (c : Char) (rest : List Char) :
    readBasic 0 (unicodeEscape c ++ rest) = none := by
  have hescape : readEscape ('u' :: '{' :: (Nat.toDigits 16 c.toNat ++ ['}'] ++ rest)) = none := by
    rw [readEscape]
    split
    · have hbrace : hexValue '{' = none := by decide
      rw [List.take_succ_cons, hexChar, List.mapM_cons, hbrace]
      rfl
    · rfl
  rw [unicodeEscape, List.cons_append, List.cons_append, List.cons_append, readBasic,
    if_neg (by decide), if_pos rfl, hescape]

lemma readBasic_escapeDebug (c : Char) (rest : List Char) :
    readBasic 0 (escapeDebug tables c ++ rest) =
      if plainChar tables c then (readBasic 0 rest).map fun read => (c :: read.1, read.2)
      else none := by
  unfold escapeDebug plainChar
  by_cases hnul : c = '\x00'
  · subst hnul
    rfl
  by_cases htab : c = '\t'
  · subst htab
    rfl
  by_cases hreturn : c = '\r'
  · subst hreturn
    rfl
  by_cases hline : c = '\n'
  · subst hline
    rfl
  by_cases hback : c = '\\'
  · subst hback
    rfl
  by_cases hquote : c = '"'
  · subst hquote
    rfl
  simp only [hnul, htab, hreturn, hline, hback, hquote, if_false, decide_false, Bool.false_or,
    ne_eq, not_false_eq_true, decide_true, Bool.true_and]
  cases hextended : tables.isGraphemeExtended c with
  | true =>
      rw [if_pos rfl, readBasic_unicodeEscape]
      simp
  | false =>
      cases hprintable : tables.isPrintable c with
      | false =>
          rw [if_neg nofun, if_neg nofun, readBasic_unicodeEscape]
          simp
      | true =>
          rw [if_neg nofun, if_pos rfl, List.singleton_append, readBasic, if_neg hquote,
            if_neg hback, tables.not_control c hprintable, if_neg nofun]
          simp

/-- A plain string is read back; another one is no TOML. -/
lemma readBasic_debug (cs rest : List Char) :
    readBasic 0 (cs.flatMap (escapeDebug tables) ++ '"' :: rest) =
      if cs.all (plainChar tables) then some (cs, rest) else none := by
  induction cs with
  | nil => rfl
  | cons c cs ih =>
      rw [List.flatMap_cons, List.append_assoc, readBasic_escapeDebug, ih, List.all_cons]
      cases plainChar tables c with
      | false => simp
      | true =>
          cases cs.all (plainChar tables) with
          | false => simp
          | true => simp

lemma newline_not_mem_hex (n : ℕ) : '\n' ∉ Nat.toDigits 16 n := by
  have hdigit : ∀ d < 16, '\n' ≠ Nat.digitChar d := by decide
  induction n using Nat.strong_induction_on with
  | _ n ih =>
      rw [Nat.toDigits_eq_if (by decide)]
      split
      · next hlt =>
        rw [List.mem_singleton]
        exact hdigit n hlt
      · next hge =>
        rw [List.mem_append, List.mem_singleton, not_or]
        exact ⟨ih _ (by omega), hdigit _ (Nat.mod_lt n (by decide))⟩

lemma newline_not_mem_unicodeEscape (c : Char) : '\n' ∉ unicodeEscape c := by
  simp [unicodeEscape, newline_not_mem_hex]

lemma escapeDebug_cons (tables : CharTables) (c : Char) :
    ∃ d ds, escapeDebug tables c = d :: ds ∧ d ≠ '"' ∧ '\n' ∉ d :: ds := by
  have hunicode := newline_not_mem_unicodeEscape c
  unfold escapeDebug
  split_ifs with hnul htab hreturn hline hback hquote
  · exact ⟨_, _, rfl, by decide, by decide⟩
  · exact ⟨_, _, rfl, by decide, by decide⟩
  · exact ⟨_, _, rfl, by decide, by decide⟩
  · exact ⟨_, _, rfl, by decide, by decide⟩
  · exact ⟨_, _, rfl, by decide, by decide⟩
  · exact ⟨_, _, rfl, by decide, by decide⟩
  · exact ⟨_, _, rfl, by decide, hunicode⟩
  · exact ⟨_, _, rfl, hquote, by simpa using fun h => hline h.symm⟩
  · exact ⟨_, _, rfl, by decide, hunicode⟩

lemma toList_debug (s : String) :
    (debug tables s).toList = '"' :: (s.toList.flatMap (escapeDebug tables) ++ ['"']) :=
  String.toList_ofList

lemma newline_not_mem_debug (s : String) : '\n' ∉ (debug tables s).toList := by
  have hescapes : '\n' ∉ s.toList.flatMap (escapeDebug tables) := by
    rw [List.mem_flatMap]
    rintro ⟨c, _, hc⟩
    obtain ⟨d, ds, heq, _, hno⟩ := escapeDebug_cons tables c
    rw [heq] at hc
    exact hno hc
  rw [toList_debug]
  simp [hescapes]

lemma readString_debug (s : String) (hrest : rest.head? ≠ some '"') :
    readString ((debug tables s).toList ++ rest) =
      if plain tables s then .value s rest else .malformed := by
  have hthree : ['"', '"', '"'].isPrefixOf ((debug tables s).toList ++ rest) = false := by
    rw [toList_debug]
    cases hs : s.toList with
    | nil =>
        cases rest with
        | nil => rfl
        | cons c rest =>
            have hc : c ≠ '"' := fun h => hrest (by rw [h, List.head?_cons])
            simp [List.isPrefixOf, Ne.symm hc]
    | cons c cs =>
        obtain ⟨d, ds, heq, hd, _⟩ := escapeDebug_cons tables c
        rw [List.flatMap_cons, heq]
        simp [List.isPrefixOf, Ne.symm hd]
  have hread : readBasic 0 (s.toList.flatMap (escapeDebug tables) ++ ['"'] ++ rest) =
      if plain tables s then some (s.toList, rest) else none := by
    rw [List.append_assoc]
    exact readBasic_debug s.toList rest
  unfold readString
  rw [hthree, if_neg nofun, toList_debug]
  simp only [List.cons_append, hread]
  cases plain tables s with
  | true => simp
  | false => rfl

lemma toList_debugItems_cons (s t : String) (ss : List String) :
    (debugItems tables (s :: t :: ss)).toList =
      (debug tables s).toList ++ ',' :: ' ' :: (debugItems tables (t :: ss)).toList := by
  have hitems : debugItems tables (s :: t :: ss) =
      debug tables s ++ ", " ++ debugItems tables (t :: ss) := rfl
  rw [hitems, String.toList_append, String.toList_append, List.append_assoc]
  rfl

lemma length_debugItems (s : String) (ss : List String) :
    ss.length < (debugItems tables (s :: ss)).toList.length := by
  have hdebug : ∀ s, 0 < (debug tables s).toList.length := by
    intro s
    rw [toList_debug]
    exact Nat.succ_pos _
  induction ss generalizing s with
  | nil => exact hdebug s
  | cons t ss ih =>
      have hlast := ih t
      rw [toList_debugItems_cons]
      simp only [List.length_append, List.length_cons]
      omega

lemma readStrings_debugItems (s : String) (ss : List String) {fuel : ℕ} (hfuel : ss.length < fuel)
    (rest : List Char) :
    readStrings fuel ((debugItems tables (s :: ss)).toList ++ ']' :: rest) =
      if (s :: ss).all (plain tables) then .value (s :: ss) rest else .malformed := by
  induction ss generalizing s fuel with
  | nil =>
      obtain ⟨fuel, rfl⟩ := Nat.exists_eq_succ_of_ne_zero (Nat.ne_of_gt hfuel)
      rw [debugItems, readStrings, readString_debug s (by simp)]
      cases hplain : plain tables s with
      | true => simp [hplain]
      | false => simp [hplain]
  | cons t ss ih =>
      obtain ⟨fuel, rfl⟩ := Nat.exists_eq_succ_of_ne_zero (Nat.ne_zero_of_lt hfuel)
      have hless : ss.length < fuel := Nat.lt_of_succ_lt_succ hfuel
      rw [toList_debugItems_cons, List.append_assoc, readStrings, readString_debug s (by simp)]
      cases hplain : plain tables s with
      | true =>
          simp only [if_true, List.cons_append]
          have hall : (s :: t :: ss).all (plain tables) = (t :: ss).all (plain tables) := by
            rw [List.all_cons, hplain, Bool.true_and]
          rw [ih t hless, hall]
          split
          · rfl
          · rfl
      | false => simp [hplain]

lemma toList_debugList (ss : List String) :
    (debugList tables ss).toList = '[' :: ((debugItems tables ss).toList ++ [']']) := by
  rw [debugList, String.toList_append, String.toList_append]
  rfl

lemma newline_not_mem_debugItems (ss : List String) : '\n' ∉ (debugItems tables ss).toList := by
  induction ss with
  | nil => exact nofun
  | cons s ss ih =>
      cases ss with
      | nil => exact newline_not_mem_debug s
      | cons t ss =>
          rw [toList_debugItems_cons]
          simp [newline_not_mem_debug s, ih]

/-- A list of strings that is not empty is read back when they are all plain. -/
lemma readValue_debugList (s : String) (ss : List String) :
    readValue (debugList tables (s :: ss)).toList =
      if (s :: ss).all (plain tables) then .value (strings (s :: ss)) [] else .malformed := by
  have hquote : ∃ cs, (debugItems tables (s :: ss)).toList = '"' :: cs := by
    cases ss with
    | nil => exact ⟨_, toList_debug s⟩
    | cons t ss =>
        rw [toList_debugItems_cons, toList_debug]
        exact ⟨_, rfl⟩
  obtain ⟨cs, hcs⟩ := hquote
  have hlength : ss.length < (debugItems tables (s :: ss)).toList.length := length_debugItems s ss
  have hread : readStrings ((debugItems tables (s :: ss)).toList ++ [']']).length
      ((debugItems tables (s :: ss)).toList ++ [']']) =
        if (s :: ss).all (plain tables) then .value (s :: ss) [] else .malformed := by
    refine readStrings_debugItems s ss ?_ []
    rw [List.length_append]
    omega
  rw [toList_debugList, hcs]
  rw [hcs] at hread
  change (readStrings ('"' :: cs ++ [']']).length ('"' :: cs ++ [']'])).map strings = _
  rw [hread]
  split
  · rfl
  · rfl

lemma readValue_debug (s : String) :
    readValue (debug tables s).toList =
      if plain tables s then .value (.string s) [] else .malformed := by
  have hread : readString ((debug tables s).toList ++ []) =
      if plain tables s then .value s [] else .malformed := readString_debug s nofun
  rw [List.append_nil] at hread
  unfold readValue
  rw [toList_debug] at hread ⊢
  simp only [hread]
  split
  · rfl
  · rfl

end Strings

section Lines

variable {tables : CharTables} {d : Draft} {key : String} {rest : List Char}

/-- The key is not there yet. -/
def Fresh (key : String) (es : Entries) : Prop := es.lookup key = none

@[simp] lemma fresh_nil (key : String) : Fresh key [] := rfl

@[simp] lemma fresh_cons {key k : String} {v : Toml} {es : Entries} :
    Fresh key ((k, v) :: es) ↔ key ≠ k ∧ Fresh key es := by
  unfold Fresh
  by_cases hk : key = k
  · simp [hk]
  · simp [List.lookup_cons, beq_eq_false_iff_ne.mpr hk, hk]

@[simp] lemma lookup_cons_of_ne {key k : String} {v : Toml} {es : Entries} (h : key ≠ k) :
    ((k, v) :: es).lookup key = es.lookup key := by
  simp [List.lookup_cons, beq_eq_false_iff_ne.mpr h]

@[simp] lemma fresh_append {key : String} {es es' : Entries} :
    Fresh key (es ++ es') ↔ Fresh key es ∧ Fresh key es' := by
  simp [Fresh, List.lookup_append, -List.lookup_eq_none_iff]

lemma toList_pair (key value : String) (rest : List Char) : (pair key value).toList ++ rest =
    key.toList ++ ' ' :: '=' :: ' ' :: value.toList ++ '\n' :: rest := by
  simp [pair]

lemma newline_not_mem_key (hkey : IsBareKey key) : '\n' ∉ key.toList := by
  intro hmem
  exact absurd (List.all_eq_true.mp hkey.2 '\n' hmem) (by decide)

/-- A line with a key that is not there yet. -/
lemma readFrom_pair {value : String} (hkey : IsBareKey key) (hfresh : Fresh key d.current)
    (hvalue : '\n' ∉ value.toList) (rest : List Char) :
    readFrom d ((pair key value).toList ++ rest) =
      match readValue value.toList with
      | .value v [] => readFrom (d.add [(key, v)]) rest
      | .value v _ => .stopped (d.add [(key, v)])
      | .malformed => .malformed
      | .outside => .stopped d := by
  have hline : '\n' ∉ key.toList ++ ' ' :: '=' :: ' ' :: value.toList := by
    simp [newline_not_mem_key hkey, hvalue]
  rw [toList_pair, readFrom_line hline, readLine_pair hkey, readPair,
    show d.current.lookup key = none from hfresh, if_neg nofun]
  cases readValue value.toList with
  | value v left => cases left <;> rfl
  | malformed => rfl
  | outside => rfl

lemma readFrom_debug {s : String} (hkey : IsBareKey key) (hfresh : Fresh key d.current)
    (rest : List Char) :
    readFrom d ((pair key (debug tables s)).toList ++ rest) =
      if plain tables s then readFrom (d.add [(key, .string s)]) rest else .malformed := by
  rw [readFrom_pair hkey hfresh (newline_not_mem_debug s), readValue_debug]
  cases plain tables s with
  | true => rfl
  | false => rfl

lemma readValue_repr {n : ℕ} (hn : n < 2 ^ 32) :
    readValue n.repr.toList = .value (.integer n) [] := by
  have hdigits : ∀ c ∈ n.repr.toList, c ≠ '[' ∧ c ≠ '"' := by
    intro c hc
    have hdigit : c.isDigit = true := isDigit_of_mem_repr hc
    constructor
    · rintro rfl
      exact absurd hdigit (by decide)
    · rintro rfl
      exact absurd hdigit (by decide)
  unfold readValue
  split
  · next cs hcs => exact absurd rfl (hdigits '[' (by rw [hcs]; exact List.mem_cons_self)).1
  · next cs _ hcs => exact absurd rfl (hdigits '[' (by rw [hcs]; exact List.mem_cons_self)).1
  · next cs hcs => exact absurd rfl (hdigits '"' (by rw [hcs]; exact List.mem_cons_self)).2
  · exact readInteger_repr hn

lemma readFrom_order {order : UInt32} (hfresh : Fresh "order" d.current)
    (rest : List Char) :
    readFrom d ((pair "order" order.toNat.repr).toList ++ rest) =
      readFrom (d.add [("order", .integer order.toNat)]) rest := by
  have hdigits : '\n' ∉ order.toNat.repr.toList := by
    intro hmem
    have hdigit : '\n'.isDigit = true := isDigit_of_mem_repr hmem
    exact absurd hdigit (by decide)
  rw [readFrom_pair (by decide) hfresh hdigits, readValue_repr order.toNat_lt]

def optionalEntry (key : String) (o : Option String) : Entries :=
  o.toList.map fun s => (key, .string s)

def listEntry (key : String) (ss : List String) : Entries :=
  if ss = [] then [] else [(key, strings ss)]

lemma readFrom_optional {o : Option String} (hkey : IsBareKey key)
    (hfresh : Fresh key d.current) (rest : List Char) :
    readFrom d ((optionalPair tables key o).toList ++ rest) =
      if o.all (plain tables) then readFrom (d.add (optionalEntry key o)) rest
      else .malformed := by
  cases o with
  | none => simp [optionalPair, optionalEntry]
  | some s => exact readFrom_debug hkey hfresh rest

lemma readFrom_list {ss : List String} (hkey : IsBareKey key)
    (hfresh : Fresh key d.current) (rest : List Char) :
    readFrom d ((listPair tables key ss).toList ++ rest) =
      if ss.all (plain tables) then readFrom (d.add (listEntry key ss)) rest
      else .malformed := by
  cases ss with
  | nil => simp [listPair, listEntry]
  | cons s ss =>
      have hline : '\n' ∉ (debugList tables (s :: ss)).toList := by
        rw [toList_debugList]
        simp [newline_not_mem_debugItems]
      rw [listPair, if_neg nofun, readFrom_pair hkey hfresh hline, readValue_debugList]
      cases (s :: ss).all (plain tables) with
      | true => rfl
      | false => rfl

/-- The last line of a file. -/
lemma readFrom_optional_last {o : Option String} (hkey : IsBareKey key)
    (hfresh : Fresh key d.current) :
    readFrom d (optionalPair tables key o).toList =
      if o.all (plain tables) then .complete (d.add (optionalEntry key o)) else .malformed := by
  have hread : readFrom d ((optionalPair tables key o).toList ++ []) =
      if o.all (plain tables) then readFrom (d.add (optionalEntry key o)) [] else .malformed :=
    readFrom_optional hkey hfresh []
  rw [List.append_nil] at hread
  exact hread

lemma readFrom_newline (rest : List Char) : readFrom d ("\n".toList ++ rest) = readFrom d rest :=
  readFrom_blank rest

@[simp] lemma fresh_optionalEntry {k : String} {o : Option String} :
    Fresh k (optionalEntry key o) ↔ k ≠ key ∨ o = none := by
  cases o with
  | none => simp [optionalEntry]
  | some s => simp [optionalEntry]

@[simp] lemma fresh_listEntry {k : String} {ss : List String} :
    Fresh k (listEntry key ss) ↔ k ≠ key ∨ ss = [] := by
  unfold listEntry
  split
  · next hnil => simp [hnil]
  · next hne => simp [hne]

@[simp] lemma lookup_optionalEntry (key k : String) (o : Option String) :
    (optionalEntry key o).lookup k = if k = key then o.map .string else none := by
  cases o with
  | none => simp [optionalEntry]
  | some s =>
      by_cases hk : k = key
      · simp [optionalEntry, hk]
      · simp [optionalEntry, List.lookup_cons, beq_eq_false_iff_ne.mpr hk, hk]

@[simp] lemma lookup_listEntry (key k : String) (ss : List String) :
    (listEntry key ss).lookup k = if k = key ∧ ss ≠ [] then some (strings ss) else none := by
  unfold listEntry
  by_cases hss : ss = []
  · simp [hss]
  · by_cases hk : k = key
    · simp [hss, hk]
    · simp [hss, List.lookup_cons, beq_eq_false_iff_ne.mpr hk, hk]

end Lines

section Files

variable {tables : CharTables} {lib : Library} {root : Entries} {rest : List Char}

lemma readFrom_context (hfresh : Fresh "context" root) (rest : List Char) :
    readFrom ⟨root, []⟩ ("[context]\n".toList ++ rest) =
      readFrom ⟨root, [(.table "context", [])]⟩ rest := by
  have hline : "[context]\n".toList ++ rest =
      '[' :: ("context".toList ++ [']']) ++ '\n' :: rest := rfl
  rw [hline, readFrom_line (by decide), readLine_table (by decide), startTable,
    if_pos ⟨hfresh, rfl⟩]
  rfl

@[simp] lemma add_root (root es : Entries) : Draft.add ⟨root, []⟩ es = ⟨root ++ es, []⟩ := rfl

@[simp] lemma add_newest (root old es : Entries) (header : Header)
    (older : List (Header × Entries)) :
    Draft.add ⟨root, (header, old) :: older⟩ es = ⟨root, (header, old ++ es) :: older⟩ := rfl

@[simp] lemma current_root (root : Entries) : Draft.current ⟨root, []⟩ = root := rfl

@[simp] lemma current_newest (root entries : Entries) (header : Header)
    (older : List (Header × Entries)) :
    Draft.current ⟨root, (header, entries) :: older⟩ = entries := rfl

/-- A root and one table. -/
lemma assemble_table (root entries : Entries) (name key : String) :
    Draft.assemble ⟨root, [(.table name, entries)]⟩ key =
      (root.lookup key).or
        (if key = name then some (.table fun k => entries.lookup k) else none) := by
  have hnone : Draft.elements ⟨root, [(.table name, entries)]⟩ key = [] := rfl
  unfold Draft.assemble
  rw [hnone, if_neg (by simp)]
  by_cases hkey : key = name
  · simp [hkey]
  · have hheader : (Header.table key == Header.table name) = false := by simp [hkey]
    simp [List.lookup_cons, hheader, hkey]

@[simp] lemma asU32_toNat (order : UInt32) : asU32 (.integer order.toNat) = some order := by
  rw [asU32, if_pos order.toNat_lt, UInt32.ofNat_toNat]

lemma asArray_strings (ss : List String) : asArray asString (strings ss) = some ss := by
  induction ss with
  | nil => rfl
  | cons s ss ih =>
      have hrest : (ss.map Toml.string).mapM asString = some ss := ih
      simp only [asArray, strings, List.map_cons, List.mapM_cons, hrest]
      rfl

lemma required_string {t : Table} {key s : String} (h : t key = some (.string s)) :
    required asString t key = some s := by
  rw [required, h]
  rfl

lemma optional_string {t : Table} {key : String} {o : Option String}
    (h : t key = o.map .string) : optional asString t key = some o := by
  rw [optional, defaulted, h]
  cases o with
  | none => rfl
  | some s => rfl

lemma required_order {t : Table} {order : UInt32}
    (h : t "order" = some (.integer order.toNat)) : required asU32 t "order" = some order := by
  rw [required, h]
  exact asU32_toNat order

lemma defaulted_order {t : Table} {order : UInt32}
    (h : t "order" = some (.integer order.toNat)) : defaulted asU32 t "order" 0 = some order := by
  rw [defaulted, h]
  exact asU32_toNat order

/-- The context with these inputs and outputs. -/
lemma optional_context {t : Table} {entries : Entries} {inputs outputs : Option String}
    (h : t "context" = some (.table fun k => entries.lookup k))
    (hinputs : entries.lookup "inputs" = inputs.map .string)
    (houtputs : entries.lookup "outputs" = outputs.map .string) :
    optional decodeContext t "context" = some (some ⟨inputs, outputs⟩) := by
  have hcontext : decodeContext (.table fun k => entries.lookup k) = some ⟨inputs, outputs⟩ := by
    rw [decodeContext, asTable, Option.bind_eq_bind, Option.bind_some, optional_string hinputs,
      optional_string houtputs]
    rfl
  rw [optional, defaulted, h]
  simp only [hcontext, Option.map_some]

/-- A file that is read whole or not at all. -/
lemma load_of_read {α : Type} {decode : Table → Option α} {text : String} {d : Draft} {whole : Bool}
    (hlib : lib.ReadsToml)
    (h : TomlText.read text = if whole then .complete d else .malformed) :
    load lib decode text = if whole then decode d.assemble else none := by
  unfold load
  cases whole with
  | true =>
      rw [if_pos rfl] at h
      rw [hlib.complete _ _ h]
      rfl
  | false =>
      rw [if_neg nofun] at h
      obtain ⟨e, he⟩ := hlib.malformed _ h
      rw [he]
      rfl

section Spec

variable (tables)

def SpecEntry.plain (spec : SpecEntry) : Bool :=
  SpecFiles.plain tables spec.what && SpecFiles.plain tables spec.why &&
    spec.how.all (SpecFiles.plain tables) && spec.backup.all (SpecFiles.plain tables) &&
    spec.inputs.all (SpecFiles.plain tables) && spec.outputs.all (SpecFiles.plain tables) &&
    spec.dependencies.all (SpecFiles.plain tables) && spec.tests.all (SpecFiles.plain tables)

variable {tables}

def specContext (spec : SpecEntry) : Entries :=
  optionalEntry "inputs" spec.inputs ++ (optionalEntry "outputs" spec.outputs ++
    (listEntry "dependencies" spec.dependencies ++ optionalEntry "tests" spec.tests))

def specDraft (spec : SpecEntry) : Draft where
  root := [("order", .integer spec.order.toNat), ("what", .string spec.what),
    ("why", .string spec.why)] ++
      (optionalEntry "how" spec.how ++ optionalEntry "backup" spec.backup)
  sections := [(.table "context", specContext spec)]

/-- The spec as the implement command has it. -/
def stepSpecOf (spec : SpecEntry) : StepSpec :=
  ⟨spec.order, spec.what, some spec.why, spec.how, some ⟨spec.inputs, spec.outputs⟩⟩

lemma read_formatSpec (spec : SpecEntry) :
    TomlText.read (formatSpec tables spec) =
      if spec.plain tables then .complete (specDraft spec) else .malformed := by
  unfold TomlText.read formatSpec
  simp only [String.toList_append]
  rw [readFrom_order (by simp), readFrom_debug (by decide) (by simp),
    readFrom_debug (by decide) (by simp), readFrom_optional (by decide) (by simp),
    readFrom_optional (by decide) (by simp), readFrom_newline]
  simp only [add_root]
  rw [readFrom_context (by simp), readFrom_optional (by decide) (by simp),
    readFrom_optional (by decide) (by simp), readFrom_list (by decide) (by simp),
    readFrom_optional_last (by decide) (by simp)]
  simp only [SpecEntry.plain, Bool.and_eq_true]
  split_ifs <;> simp_all [specDraft, specContext]

lemma decode_specDraft (spec : SpecEntry) :
    decodeStepSpec (specDraft spec).assemble = some (stepSpecOf spec) := by
  have horder : (specDraft spec).assemble "order" = some (.integer spec.order.toNat) := by
    simp [specDraft, assemble_table]
  have hwhat : (specDraft spec).assemble "what" = some (.string spec.what) := by
    simp [specDraft, assemble_table]
  have hwhy : (specDraft spec).assemble "why" = (some spec.why).map .string := by
    simp [specDraft, assemble_table]
  have hhow : (specDraft spec).assemble "how" = spec.how.map .string := by
    simp [specDraft, assemble_table, List.lookup_append]
  have hcontext : (specDraft spec).assemble "context" =
      some (.table fun k => (specContext spec).lookup k) := by
    simp [specDraft, assemble_table, List.lookup_append]
  have hinputs : (specContext spec).lookup "inputs" = spec.inputs.map .string := by
    simp [specContext, List.lookup_append]
  have houtputs : (specContext spec).lookup "outputs" = spec.outputs.map .string := by
    simp [specContext, List.lookup_append]
  rw [decodeStepSpec, defaulted_order horder, required_string hwhat, optional_string hwhy,
    optional_string hhow, optional_context hcontext hinputs houtputs]
  rfl

/-- A spec file of plain strings is read back, and another one cannot be read. -/
lemma load_formatSpec (hlib : lib.ReadsToml) (spec : SpecEntry) :
    load lib decodeStepSpec (formatSpec tables spec) =
      if spec.plain tables then some (stepSpecOf spec) else none := by
  rw [load_of_read hlib (read_formatSpec spec), decode_specDraft]

end Spec

section Subtask

variable (tables)

def SubtaskEntry.plain (subtask : SubtaskEntry) : Bool :=
  SpecFiles.plain tables subtask.what && subtask.file.all (SpecFiles.plain tables) &&
    subtask.why.all (SpecFiles.plain tables) && subtask.how.all (SpecFiles.plain tables) &&
    subtask.inputs.all (SpecFiles.plain tables) && subtask.outputs.all (SpecFiles.plain tables) &&
    subtask.tests.all (SpecFiles.plain tables)

variable {tables}

def subtaskContext (subtask : SubtaskEntry) : Entries :=
  optionalEntry "inputs" subtask.inputs ++ (optionalEntry "outputs" subtask.outputs ++
    optionalEntry "tests" subtask.tests)

def subtaskDraft (subtask : SubtaskEntry) : Draft where
  root := [("order", .integer subtask.order.toNat), ("what", .string subtask.what)] ++
    (optionalEntry "file" subtask.file ++ (optionalEntry "why" subtask.why ++
      optionalEntry "how" subtask.how))
  sections := [(.table "context", subtaskContext subtask)]

/-- The subtask as the implement command has it. -/
def subtaskSpecOf (subtask : SubtaskEntry) : SubtaskSpec :=
  ⟨subtask.order, subtask.what, subtask.file, subtask.why, subtask.how,
    some ⟨subtask.inputs, subtask.outputs⟩, .pending⟩

lemma read_formatSubtask (subtask : SubtaskEntry) :
    TomlText.read (formatSubtask tables subtask) =
      if subtask.plain tables then .complete (subtaskDraft subtask) else .malformed := by
  unfold TomlText.read formatSubtask
  simp only [String.toList_append]
  rw [readFrom_order (by simp), readFrom_debug (by decide) (by simp),
    readFrom_optional (by decide) (by simp), readFrom_optional (by decide) (by simp),
    readFrom_optional (by decide) (by simp), readFrom_newline]
  simp only [add_root]
  rw [readFrom_context (by simp), readFrom_optional (by decide) (by simp),
    readFrom_optional (by decide) (by simp), readFrom_optional_last (by decide) (by simp)]
  simp only [SubtaskEntry.plain, Bool.and_eq_true]
  split_ifs <;> simp_all [subtaskDraft, subtaskContext]

lemma decode_subtaskDraft (subtask : SubtaskEntry) :
    decodeSubtaskSpec (subtaskDraft subtask).assemble = some (subtaskSpecOf subtask) := by
  have horder : (subtaskDraft subtask).assemble "order" = some (.integer subtask.order.toNat) := by
    simp [subtaskDraft, assemble_table]
  have hwhat : (subtaskDraft subtask).assemble "what" = some (.string subtask.what) := by
    simp [subtaskDraft, assemble_table]
  have hfile : (subtaskDraft subtask).assemble "file" = subtask.file.map .string := by
    simp [subtaskDraft, assemble_table, List.lookup_append]
  have hwhy : (subtaskDraft subtask).assemble "why" = subtask.why.map .string := by
    simp [subtaskDraft, assemble_table, List.lookup_append]
  have hhow : (subtaskDraft subtask).assemble "how" = subtask.how.map .string := by
    simp [subtaskDraft, assemble_table, List.lookup_append]
  have hcontext : (subtaskDraft subtask).assemble "context" =
      some (.table fun k => (subtaskContext subtask).lookup k) := by
    simp [subtaskDraft, assemble_table, List.lookup_append]
  have hinputs : (subtaskContext subtask).lookup "inputs" = subtask.inputs.map .string := by
    simp [subtaskContext, List.lookup_append]
  have houtputs : (subtaskContext subtask).lookup "outputs" = subtask.outputs.map .string := by
    simp [subtaskContext, List.lookup_append]
  have hstatus : (subtaskDraft subtask).assemble "status" = none := by
    simp [subtaskDraft, assemble_table, List.lookup_append, -List.lookup_eq_none_iff]
  rw [decodeSubtaskSpec, defaulted_order horder, required_string hwhat, optional_string hfile,
    optional_string hwhy, optional_string hhow, optional_context hcontext hinputs houtputs,
    defaulted, hstatus]
  rfl

lemma load_formatSubtask (hlib : lib.ReadsToml) (subtask : SubtaskEntry) :
    load lib decodeSubtaskSpec (formatSubtask tables subtask) =
      if subtask.plain tables then some (subtaskSpecOf subtask) else none := by
  rw [load_of_read hlib (read_formatSubtask subtask), decode_subtaskDraft]

end Subtask

end Files

section Quoted

variable {d : Draft} {doc : Table} {key : String} {raw cs v left rest : List Char}

def quotable (s : String) : Prop := Quotable s.toList

instance (s : String) : Decidable (quotable s) :=
  decidable_of_iff (s.toList.all fun c => c ≠ '"' && c ≠ '\\' && !isControl c)
    (by simp [quotable, Quotable, and_assoc])

lemma readValue_quote (h : cs.head? ≠ some '"') :
    readValue ('"' :: cs) =
      match readBasic 0 cs with
      | some (v, rest) => .value (.string (String.ofList v)) rest
      | none => .malformed := by
  have hthree : ['"', '"', '"'].isPrefixOf ('"' :: cs) = false := by
    cases cs with
    | nil => rfl
    | cons c cs =>
        have hc : c ≠ '"' := fun heq => h (by rw [heq, List.head?_cons])
        simp [List.isPrefixOf, Ne.symm hc]
  unfold readValue readString
  simp only [hthree]
  rw [if_neg Bool.false_ne_true]
  cases readBasic 0 cs with
  | none => rfl
  | some read => rfl

lemma readFrom_quoted {s : String} (hkey : IsBareKey key) (hfresh : Fresh key d.current)
    (hs : quotable s) (hne : s ≠ "") (rest : List Char) :
    readFrom d ((pair key ("\"" ++ s ++ "\"")).toList ++ rest) =
      readFrom (d.add [(key, .string s)]) rest := by
  have hchars : ("\"" ++ s ++ "\"").toList = '"' :: (s.toList ++ ['"']) := by simp
  have hline : '\n' ∉ ("\"" ++ s ++ "\"").toList := by
    have hno : '\n' ∉ s.toList := by
      intro hmem
      exact absurd (hs '\n' hmem).2.2 (by decide)
    rw [hchars]
    simp [hno]
  obtain ⟨c, cs, hcs⟩ :=
    List.exists_cons_of_ne_nil fun hnil => hne (String.toList_eq_nil_iff.mp hnil)
  have hhead : (s.toList ++ ['"']).head? ≠ some '"' := by
    rw [hcs, List.cons_append, List.head?_cons]
    intro heq
    exact (hs c (by rw [hcs]; exact List.mem_cons_self)).1 (Option.some.inj heq)
  have hvalue : readValue ("\"" ++ s ++ "\"").toList = .value (.string s) [] := by
    rw [hchars, readValue_quote hhead, readBasic_quotable hs]
    exact congrArg (fun t => Read.value (Toml.string t) []) String.ofList_toList
  rw [readFrom_pair hkey hfresh hline, hvalue]

/-- What is read of a text in quotes stays, whatever the text makes of the lines after it. -/
lemma quoted_kept {s : String} (hkey : IsBareKey key) (hfresh : Fresh key d.current)
    (hhead : ∃ c cs, s.toList = c :: cs ∧ c ≠ '"' ∧ c ≠ '\n')
    (h : (readFrom d ((pair key ("\"" ++ s ++ "\"")).toList ++ rest)).Admits doc) :
    ∃ v left, readBasic 0 ((s.toList ++ ['"']).takeWhile (· ≠ '\n')) = some (v, left) ∧
      Keeps (d.add [(key, .string (String.ofList v))]) doc := by
  have hchars : ("\"" ++ s ++ "\"").toList = '"' :: (s.toList ++ ['"']) := by simp
  obtain ⟨more, hmore⟩ :=
    splitLines_first (key.toList ++ ' ' :: '=' :: ' ' :: '"' :: (s.toList ++ ['"'])) rest
  have hfirst : (key.toList ++ ' ' :: '=' :: ' ' :: '"' :: (s.toList ++ ['"'])).takeWhile
      (· ≠ '\n') =
        key.toList ++ ' ' :: '=' :: ' ' :: '"' :: (s.toList ++ ['"']).takeWhile (· ≠ '\n') := by
    rw [List.takeWhile_append_of_pos]
    · rfl
    · intro c hc
      have hne : c ≠ '\n' := fun heq => newline_not_mem_key hkey (heq ▸ hc)
      simpa using hne
  rw [toList_pair, hchars, readFrom, hmore, hfirst, readLines, readLine_pair hkey, readPair,
    show d.current.lookup key = none from hfresh, if_neg (by simp)] at h
  obtain ⟨c, cs, hcs, hquote, hline⟩ := hhead
  have hnotquote : ((s.toList ++ ['"']).takeWhile (· ≠ '\n')).head? ≠ some '"' := by
    rw [hcs, List.cons_append, List.takeWhile_cons_of_pos (by simpa using hline), List.head?_cons]
    exact fun heq => hquote (Option.some.inj heq)
  rw [readValue_quote hnotquote] at h
  cases hread : readBasic 0 ((s.toList ++ ['"']).takeWhile (· ≠ '\n')) with
  | none =>
      rw [hread] at h
      exact h.elim
  | some read =>
      obtain ⟨v, left⟩ := read
      rw [hread] at h
      refine ⟨v, left, rfl, ?_⟩
      cases left with
      | nil => exact keeps_of_admits h
      | cons c left => exact h

/-- A text that is read as itself can be quoted. -/
lemma quotable_of_first
    (h : readBasic 0 ((raw ++ ['"']).takeWhile (· ≠ '\n')) = some (raw, left)) : Quotable raw := by
  have hlength := readBasic_length h
  by_cases hline : '\n' ∈ raw
  · obtain ⟨before, after, rfl⟩ := List.append_of_mem hline
    have hshort :
        ((before ++ '\n' :: after ++ ['"']).takeWhile (· ≠ '\n')).length ≤ before.length := by
      rw [List.append_assoc, List.takeWhile_append]
      split
      · simp
      · exact (List.takeWhile_prefix _).length_le
    rw [List.length_append] at hlength
    omega
  · have hall : (raw ++ ['"']).takeWhile (· ≠ '\n') = raw ++ ['"'] := by
      rw [List.takeWhile_eq_self_iff]
      intro c hc
      have hne : c ≠ '\n' := by
        rintro rfl
        rcases List.mem_append.mp hc with hraw | hquote
        · exact hline hraw
        · exact absurd hquote (by decide)
      simpa using hne
    rw [hall] at h
    exact quotable_of_readBasic h

end Quoted

section Roadmap

variable {tables : CharTables} {lib : Library} {d : Draft} {doc : Table} {rest : List Char}
  {task : String} {specs : List (String × SpecEntry)} {step : String × SpecEntry}

def stepEntries (step : String × SpecEntry) : Entries :=
  [("order", .integer step.2.order.toNat), ("spec", .string step.1),
    ("dir", .string (stepDir step.1 step.2)), ("summary", .string step.2.what)] ++
    listEntry "depends_on" step.2.dependencies

/-- The step as the implement command has it. -/
def roadmapStepOf (step : String × SpecEntry) : RoadmapStep :=
  ⟨step.2.order, step.1, stepDir step.1 step.2, step.2.what, step.2.dependencies⟩

def roadmapOf (task : String) (specs : List (String × SpecEntry)) : Roadmap :=
  ⟨task, specs.map roadmapStepOf⟩

/-- What the roadmap has of a spec can be written. -/
structure Writable (tables : CharTables) (step : String × SpecEntry) : Prop where
  name : plain tables step.1 = true
  quotable : quotable step.1
  what : plain tables step.2.what = true
  dependencies : step.2.dependencies.all (plain tables) = true

lemma mem_twoDigits {n : ℕ} {c : Char} (h : c ∈ (twoDigits n).toList) : c.isDigit = true := by
  unfold twoDigits at h
  split at h
  · rw [String.toList_append, List.mem_append] at h
    rcases h with hzero | hdigit
    · obtain rfl := List.mem_singleton.mp hzero
      decide
    · exact isDigit_of_mem_repr hdigit
  · exact isDigit_of_mem_repr h

lemma twoDigits_ne_nil (n : ℕ) : (twoDigits n).toList ≠ [] := by
  have hrepr : n.repr.toList ≠ [] := by
    rw [Nat.toList_repr]
    exact Nat.toDigits_ne_nil
  unfold twoDigits
  split
  · simp
  · exact hrepr

lemma toList_stepDir (name : String) (spec : SpecEntry) : (stepDir name spec).toList =
    (twoDigits spec.order.toNat).toList ++ '-' :: name.toList := by
  simp [stepDir]

lemma isDigit_quotable {c : Char} (h : c.isDigit = true) :
    c ≠ '"' ∧ c ≠ '\\' ∧ isControl c = false := by
  have hrange : 48 ≤ c.toNat ∧ c.toNat ≤ 57 := by
    simpa [Char.isDigit, UInt32.le_iff_toNat_le] using h
  refine ⟨?_, ?_, ?_⟩
  · rintro rfl
    exact absurd h (by decide)
  · rintro rfl
    exact absurd h (by decide)
  · have hlow : ¬ c.toNat < 32 := by omega
    have hdel : c.toNat ≠ 127 := by omega
    simp [isControl, hlow, hdel]

lemma quotable_stepDir (name : String) (spec : SpecEntry) :
    quotable (stepDir name spec) ↔ quotable name := by
  unfold quotable Quotable
  rw [toList_stepDir]
  constructor
  · intro h c hc
    exact h c (List.mem_append_right _ (List.mem_cons_of_mem _ hc))
  · intro h c hc
    rcases List.mem_append.mp hc with hdigit | hname
    · exact isDigit_quotable (mem_twoDigits hdigit)
    · rcases List.mem_cons.mp hname with rfl | hmem
      · decide
      · exact h c hmem

lemma stepDir_head (name : String) (spec : SpecEntry) :
    ∃ c cs, (stepDir name spec).toList = c :: cs ∧ c ≠ '"' ∧ c ≠ '\n' := by
  obtain ⟨c, cs, hcs⟩ := List.exists_cons_of_ne_nil (twoDigits_ne_nil spec.order.toNat)
  have hdigit : c.isDigit = true := by
    apply mem_twoDigits
    rw [hcs]
    exact List.mem_cons_self
  refine ⟨c, cs ++ '-' :: name.toList, by rw [toList_stepDir, hcs]; rfl,
    (isDigit_quotable hdigit).1, ?_⟩
  rintro rfl
  exact absurd hdigit (by decide)

lemma stepDir_ne_empty (name : String) (spec : SpecEntry) : stepDir name spec ≠ "" := by
  intro hempty
  obtain ⟨c, cs, hcs, _⟩ := stepDir_head name spec
  rw [hempty] at hcs
  cases hcs

/-- The steps can go on here. -/
structure TakesSteps (d : Draft) : Prop where
  fresh : Fresh "steps" d.root
  sections : d.sections.all (fun s => s.1 = .element "steps") = true

def openStep (d : Draft) : Draft := d.start (.element "steps")

lemma TakesSteps.next (h : TakesSteps d) (es : Entries) : TakesSteps ((openStep d).add es) :=
  ⟨h.fresh, by simpa [openStep, Draft.start, Draft.add] using h.sections⟩

lemma readFrom_element (h : TakesSteps d) (rest : List Char) :
    readFrom d ("[[steps]]\n".toList ++ rest) = readFrom (openStep d) rest := by
  have hline : "[[steps]]\n".toList ++ rest =
      '[' :: '[' :: ("steps".toList ++ [']', ']']) ++ '\n' :: rest := rfl
  have hnone : d.sections.all (fun s => s.1 ≠ .table "steps") = true := by
    rw [List.all_eq_true]
    intro s hs
    have hheader := List.all_eq_true.mp h.sections s hs
    simp only [decide_eq_true_eq] at hheader
    rw [hheader]
    decide
  rw [hline, readFrom_line (by decide), readLine_element (by decide), startElement,
    if_pos ⟨h.fresh, hnone⟩]
  rfl

@[simp] lemma current_openStep (d : Draft) : (openStep d).current = [] := rfl

/-- What a step has before its directory. -/
def stepStart (d : Draft) (step : String × SpecEntry) : Draft :=
  (openStep d).add [("order", .integer step.2.order.toNat), ("spec", .string step.1)]

/-- The text of a step after its directory. -/
def stepEnd (tables : CharTables) (step : String × SpecEntry) (rest : List Char) : List Char :=
  (pair "summary" (debug tables step.2.what)).toList ++
    ((listPair tables "depends_on" step.2.dependencies).toList ++ ("\n".toList ++ rest))

lemma readFrom_stepStart (h : TakesSteps d) (rest : List Char) :
    readFrom d ((formatStep tables step).toList ++ rest) =
      if plain tables step.1 then
        readFrom (stepStart d step) ((pair "dir" ("\"" ++ stepDir step.1 step.2 ++ "\"")).toList ++
          stepEnd tables step rest)
      else .malformed := by
  unfold formatStep
  simp only [String.toList_append, List.append_assoc]
  rw [readFrom_element h, readFrom_order (by simp), readFrom_debug (by decide) (by simp)]
  simp only [add_add]
  rfl

lemma readFrom_stepEnd (rest : List Char) :
    readFrom ((stepStart d step).add [("dir", .string (stepDir step.1 step.2))])
        (stepEnd tables step rest) =
      if plain tables step.2.what then
        if step.2.dependencies.all (plain tables) then
          readFrom ((openStep d).add (stepEntries step)) rest
        else .malformed
      else .malformed := by
  unfold stepEnd stepStart
  rw [readFrom_debug (by decide) (by simp), readFrom_list (by decide) (by simp), readFrom_newline]
  simp only [add_add]
  rfl

/-- A step that can be written adds its table. -/
lemma readFrom_step (h : TakesSteps d) (hstep : Writable tables step) (rest : List Char) :
    readFrom d ((formatStep tables step).toList ++ rest) =
      readFrom ((openStep d).add (stepEntries step)) rest := by
  have hdir := (quotable_stepDir step.1 step.2).mpr hstep.quotable
  rw [readFrom_stepStart h, hstep.name, if_pos rfl,
    readFrom_quoted (by decide) (by simp [stepStart]) hdir (stepDir_ne_empty step.1 step.2),
    readFrom_stepEnd, hstep.what, if_pos rfl, hstep.dependencies, if_pos rfl]

/-- The directory of a step in a document. -/
def dirOf (doc : Table) (i : ℕ) : Option Toml :=
  match doc "steps" with
  | some (.array xs) =>
      match xs[i]? with
      | some (.table t) => t "dir"
      | _ => none
  | _ => none

lemma elements_add_openStep (d : Draft) (es : Entries) :
    ((openStep d).add es).elements "steps" = d.elements "steps" ++ [es] := by
  have hcons := elements_cons d.root (.element "steps") es d.sections "steps"
  rw [if_pos rfl] at hcons
  exact hcons

lemma dirOf_of_keeps {es : Entries} {v : Toml} (h : Keeps ((openStep d).add es) doc)
    (hdir : es.lookup "dir" = some v) : dirOf doc (d.elements "steps").length = some v := by
  have hlast :
      (((openStep d).add es).elements "steps")[(d.elements "steps").length]? = some es := by
    rw [elements_add_openStep, List.getElem?_append_right (Nat.le_refl _), Nat.sub_self]
    rfl
  obtain ⟨xs, t, hdoc, hxs, ht⟩ := h "steps" _ es hlast
  rw [dirOf, hdoc]
  simp only [hxs]
  exact ht "dir" v hdir

/-- When the document has the step's directory, the step can be written. -/
lemma writable_of_admits (h : TakesSteps d)
    (hadmits : (readFrom d ((formatStep tables step).toList ++ rest)).Admits doc)
    (hdir : dirOf doc (d.elements "steps").length = some (.string (stepDir step.1 step.2))) :
    Writable tables step := by
  rw [readFrom_stepStart h] at hadmits
  cases hname : plain tables step.1 with
  | false =>
      rw [hname] at hadmits
      exact hadmits.elim
  | true =>
      rw [hname, if_pos rfl] at hadmits
      obtain ⟨v, left, hread, hkeeps⟩ := quoted_kept (by decide) (by simp [stepStart])
        (stepDir_head step.1 step.2) hadmits
      rw [stepStart, add_add] at hkeeps
      have hkept : dirOf doc (d.elements "steps").length = some (.string (String.ofList v)) :=
        dirOf_of_keeps hkeeps (by simp)
      rw [hdir] at hkept
      have hv : v = (stepDir step.1 step.2).toList := by
        have hstring := Toml.string.inj (Option.some.inj hkept)
        rw [hstring, String.toList_ofList]
      rw [hv] at hread
      have hquotable : quotable (stepDir step.1 step.2) := quotable_of_first hread
      rw [readFrom_quoted (by decide) (by simp [stepStart]) hquotable
        (stepDir_ne_empty step.1 step.2), readFrom_stepEnd] at hadmits
      cases hwhat : plain tables step.2.what with
      | false =>
          rw [hwhat] at hadmits
          exact hadmits.elim
      | true =>
          cases hdependencies : step.2.dependencies.all (plain tables) with
          | false =>
              rw [hwhat, if_pos rfl, hdependencies] at hadmits
              exact hadmits.elim
          | true =>
              exact ⟨hname, (quotable_stepDir step.1 step.2).mp hquotable, hwhat, hdependencies⟩

/-- The draft after all steps. -/
def addSteps : Draft → List (String × SpecEntry) → Draft
  | d, [] => d
  | d, step :: steps => addSteps ((openStep d).add (stepEntries step)) steps

lemma readFrom_steps (h : TakesSteps d) (hsteps : ∀ step ∈ specs, Writable tables step) :
    readFrom d (formatSteps tables specs).toList = .complete (addSteps d specs) := by
  induction specs generalizing d with
  | nil => rfl
  | cons step steps ih =>
      obtain ⟨hfirst, hrest⟩ := List.forall_mem_cons.mp hsteps
      rw [formatSteps, String.toList_append, readFrom_step h hfirst, addSteps]
      exact ih (h.next _) hrest

/-- Induction on the steps; the tables before say which one comes next. -/
lemma writable_of_dirs (h : TakesSteps d)
    (hadmits : (readFrom d (formatSteps tables specs).toList).Admits doc)
    (hdirs : ∀ i step, specs[i]? = some step →
      dirOf doc ((d.elements "steps").length + i) = some (.string (stepDir step.1 step.2))) :
    ∀ step ∈ specs, Writable tables step := by
  induction specs generalizing d with
  | nil => exact nofun
  | cons step steps ih =>
      rw [formatSteps, String.toList_append] at hadmits
      have hfirst := writable_of_admits h hadmits (hdirs 0 step rfl)
      rw [readFrom_step h hfirst] at hadmits
      refine List.forall_mem_cons.mpr ⟨hfirst, ih (h.next _) hadmits fun i step' hi => ?_⟩
      have hnext := hdirs (i + 1) step' hi
      rw [elements_add_openStep, List.length_append, List.length_singleton, Nat.add_right_comm,
        Nat.add_assoc]
      exact hnext

def roadmapRoot (task : String) : Entries :=
  [("what", .string task),
    ("why", .string "Structured implementation plan with dependency ordering")]

lemma takesSteps_root (task : String) : TakesSteps ⟨roadmapRoot task, []⟩ :=
  ⟨by simp [roadmapRoot], rfl⟩

/-- The roadmap's own two lines. -/
lemma read_formatRoadmap (task : String) (specs : List (String × SpecEntry)) :
    TomlText.read (formatRoadmap tables task specs) =
      if plain tables task then
        readFrom ⟨roadmapRoot task, []⟩ (formatSteps tables specs).toList
      else .malformed := by
  have hwhy : "\"Structured implementation plan with dependency ordering\"" =
      "\"" ++ "Structured implementation plan with dependency ordering" ++ "\"" := by decide
  have hquotable : quotable "Structured implementation plan with dependency ordering" := by
    decide
  unfold TomlText.read formatRoadmap
  simp only [String.toList_append]
  rw [readFrom_debug (by decide) (by simp), hwhy]
  cases plain tables task with
  | false => rfl
  | true =>
      rw [if_pos rfl, if_pos rfl, readFrom_quoted (by decide) (by simp) hquotable (by decide),
        readFrom_newline]
      rfl

lemma addSteps_eq (d : Draft) (specs : List (String × SpecEntry)) :
    addSteps d specs = ⟨d.root,
      (specs.map fun step => (Header.element "steps", stepEntries step)).reverse ++
        d.sections⟩ := by
  induction specs generalizing d with
  | nil => rfl
  | cons step steps ih =>
      rw [addSteps, ih, List.map_cons, List.reverse_cons, List.append_assoc]
      rfl

lemma elements_addSteps (root : Entries) (specs : List (String × SpecEntry)) (name : String) :
    (addSteps ⟨root, []⟩ specs).elements name =
      if name = "steps" then specs.map stepEntries else [] := by
  rw [addSteps_eq, Draft.elements, List.append_nil, List.reverse_reverse, List.filterMap_map]
  by_cases hname : name = "steps"
  · subst hname
    rw [if_pos rfl, ← List.filterMap_eq_map]
    congr 1
  · rw [if_neg hname, List.filterMap_eq_nil_iff]
    intro step _
    simp [Ne.symm hname]

lemma lookup_addSteps (root : Entries) (specs : List (String × SpecEntry)) (name : String) :
    (addSteps ⟨root, []⟩ specs).sections.lookup (.table name) = none := by
  rw [addSteps_eq, List.append_nil, List.lookup_eq_none_iff]
  intro s hs
  obtain ⟨step, _, rfl⟩ := List.mem_map.mp (List.mem_reverse.mp hs)
  rfl

lemma assemble_what (task : String) (specs : List (String × SpecEntry)) :
    (addSteps ⟨roadmapRoot task, []⟩ specs).assemble "what" = some (.string task) := by
  have hroot : (addSteps ⟨roadmapRoot task, []⟩ specs).root = roadmapRoot task := by
    rw [addSteps_eq]
  rw [Draft.assemble, elements_addSteps, if_neg (by simp), hroot]
  rfl

lemma assemble_steps (task : String) (specs : List (String × SpecEntry)) :
    (addSteps ⟨roadmapRoot task, []⟩ specs).assemble "steps" =
      if specs = [] then none
      else some (.array (specs.map fun step => .table fun k => (stepEntries step).lookup k)) := by
  have hroot : (addSteps ⟨roadmapRoot task, []⟩ specs).root = roadmapRoot task := by
    rw [addSteps_eq]
  rw [Draft.assemble, elements_addSteps, if_pos rfl, lookup_addSteps, hroot]
  cases specs with
  | nil => rfl
  | cons step steps =>
      rw [if_pos (by simp), if_neg (by simp), List.map_map]
      rfl

lemma decodeRoadmapStep_entries (step : String × SpecEntry) :
    decodeRoadmapStep (.table fun k => (stepEntries step).lookup k) =
      some (roadmapStepOf step) := by
  have horder : (stepEntries step).lookup "order" = some (.integer step.2.order.toNat) := rfl
  have hspec : (stepEntries step).lookup "spec" = some (.string step.1) := by
    simp [stepEntries]
  have hdir : (stepEntries step).lookup "dir" = some (.string (stepDir step.1 step.2)) := by
    simp [stepEntries]
  have hsummary : (stepEntries step).lookup "summary" = some (.string step.2.what) := by
    simp [stepEntries]
  have hdepends : (stepEntries step).lookup "depends_on" =
      if step.2.dependencies ≠ [] then some (strings step.2.dependencies) else none := by
    simp [stepEntries]
  have hlist : defaulted (asArray asString) (fun k => (stepEntries step).lookup k) "depends_on" [] =
      some step.2.dependencies := by
    rw [defaulted, hdepends]
    by_cases hnil : step.2.dependencies = []
    · rw [if_neg (not_not_intro hnil), hnil]
    · rw [if_pos hnil]
      exact asArray_strings step.2.dependencies
  rw [decodeRoadmapStep, asTable, Option.bind_eq_bind, Option.bind_some, required_order horder,
    required_string hspec, required_string hdir, required_string hsummary, hlist]
  rfl

lemma asArray_steps (specs : List (String × SpecEntry)) :
    asArray decodeRoadmapStep
        (.array (specs.map fun step => .table fun k => (stepEntries step).lookup k)) =
      some (specs.map roadmapStepOf) := by
  induction specs with
  | nil => rfl
  | cons step steps ih =>
      have hrest : (steps.map fun step => Toml.table fun k => (stepEntries step).lookup k).mapM
          decodeRoadmapStep = some (steps.map roadmapStepOf) := ih
      simp only [asArray, List.map_cons, List.mapM_cons, hrest, decodeRoadmapStep_entries]
      rfl

lemma decode_addSteps (task : String) (specs : List (String × SpecEntry)) :
    decodeRoadmap (addSteps ⟨roadmapRoot task, []⟩ specs).assemble =
      some (roadmapOf task specs) := by
  have hsteps : defaulted (asArray decodeRoadmapStep)
      (addSteps ⟨roadmapRoot task, []⟩ specs).assemble "steps" [] =
        some (specs.map roadmapStepOf) := by
    rw [defaulted, assemble_steps]
    cases specs with
    | nil => rfl
    | cons step steps => exact asArray_steps (step :: steps)
  rw [decodeRoadmap, required_string (assemble_what task specs), hsteps]
  rfl

lemma getElem?_of_mapM {α β : Type} {f : α → Option β} {xs : List α} {ys : List β}
    (h : xs.mapM f = some ys) {i : ℕ} {y : β} (hy : ys[i]? = some y) :
    ∃ x, xs[i]? = some x ∧ f x = some y := by
  induction xs generalizing ys i with
  | nil =>
      obtain rfl := Option.some.inj h
      cases hy
  | cons x xs ih =>
      rw [List.mapM_cons, Option.bind_eq_bind, Option.bind_eq_some_iff] at h
      obtain ⟨y', hfirst, h⟩ := h
      obtain ⟨ys', hrest, h⟩ := Option.bind_eq_some_iff.mp h
      obtain rfl := Option.some.inj h
      cases i with
      | zero =>
          obtain rfl := Option.some.inj hy
          exact ⟨x, rfl, hfirst⟩
      | succ i => exact ih hrest hy

lemma dir_of_decoded {v : Toml} {decoded : RoadmapStep} (h : decodeRoadmapStep v = some decoded) :
    ∃ t, v = .table t ∧ t "dir" = some (.string decoded.dir) := by
  rw [decodeRoadmapStep] at h
  simp only [Option.bind_eq_bind, Option.bind_eq_some_iff] at h
  obtain ⟨t, htable, order, _, spec, _, dir, hdir, summary, _, depends, _, heq⟩ := h
  obtain rfl := Option.some.inj heq
  obtain ⟨w, hw, hstring⟩ := Option.bind_eq_some_iff.mp hdir
  cases v with
  | table t' =>
      obtain rfl := Option.some.inj htable
      cases w with
      | string s =>
          obtain rfl := Option.some.inj hstring
          exact ⟨t', rfl, hw⟩
      | integer n => cases hstring
      | array xs => cases hstring
      | table t => cases hstring
      | other text => cases hstring
  | integer n => cases htable
  | string s => cases htable
  | array xs => cases htable
  | other text => cases htable

/-- The directories of a roadmap that is decoded to this one. -/
lemma dirOf_of_decoded (h : decodeRoadmap doc = some (roadmapOf task specs)) {i : ℕ}
    (hi : specs[i]? = some step) : dirOf doc i = some (.string (stepDir step.1 step.2)) := by
  rw [decodeRoadmap] at h
  simp only [Option.bind_eq_bind, Option.bind_eq_some_iff] at h
  obtain ⟨what, _, steps, hsteps, heq⟩ := h
  have hsame : steps = specs.map roadmapStepOf := congrArg Roadmap.steps (Option.some.inj heq)
  have hat : steps[i]? = some (roadmapStepOf step) := by
    rw [hsame, List.getElem?_map, hi]
    rfl
  rw [defaulted] at hsteps
  cases hdoc : doc "steps" with
  | none =>
      rw [hdoc] at hsteps
      obtain rfl := Option.some.inj hsteps
      cases hat
  | some v =>
      rw [hdoc] at hsteps
      cases v with
      | array xs =>
          obtain ⟨x, hx, hdecoded⟩ := getElem?_of_mapM hsteps hat
          obtain ⟨t, rfl, hdir⟩ := dir_of_decoded hdecoded
          rw [dirOf, hdoc]
          simp only [hx]
          exact hdir
      | integer n => cases hsteps
      | string s => cases hsteps
      | table t => cases hsteps
      | other text => cases hsteps

/-- A roadmap is read back exactly when the task is plain and every step can be written. -/
lemma load_formatRoadmap (hlib : lib.ReadsToml) (task : String)
    (specs : List (String × SpecEntry)) :
    load lib decodeRoadmap (formatRoadmap tables task specs) = some (roadmapOf task specs) ↔
      plain tables task = true ∧ ∀ step ∈ specs, Writable tables step := by
  have hread : TomlText.read (formatRoadmap tables task specs) = if plain tables task then
      readFrom ⟨roadmapRoot task, []⟩ (formatSteps tables specs).toList else .malformed :=
    read_formatRoadmap task specs
  constructor
  · intro h
    unfold load at h
    cases hdoc : lib.fromStr (formatRoadmap tables task specs) with
    | error e =>
        rw [hdoc] at h
        cases h
    | ok doc =>
        rw [hdoc] at h
        have hadmits := hlib.admits hread hdoc
        cases hplain : plain tables task with
        | false =>
            rw [hplain] at hadmits
            exact hadmits.elim
        | true =>
            rw [hplain, if_pos rfl] at hadmits
            refine ⟨rfl, writable_of_dirs (takesSteps_root task) hadmits fun i step hi => ?_⟩
            have hdir := dirOf_of_decoded h hi
            have hnone : Draft.elements ⟨roadmapRoot task, []⟩ "steps" = [] := rfl
            rw [hnone, List.length_nil, Nat.zero_add]
            exact hdir
  · rintro ⟨hplain, hsteps⟩
    rw [hplain, if_pos rfl, readFrom_steps (takesSteps_root task) hsteps] at hread
    rw [load, hlib.complete _ _ hread]
    exact decode_addSteps task specs

/-- A spec that cannot be read back is replaced by its summary, and nobody is told. -/
lemma readStepSpec_formatSpec (hlib : lib.ReadsToml) (step : String × SpecEntry) :
    readStepSpec lib (roadmapStepOf step) (some (formatSpec tables step.2)) =
      if step.2.plain tables then stepSpecOf step.2
      else ⟨step.2.order, step.2.what, none, none, none⟩ := by
  rw [readStepSpec, Option.bind_some, load_formatSpec hlib]
  split
  · rfl
  · rfl

end Roadmap

end Loker.SpecFiles
