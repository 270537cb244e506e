import Loker.TextLines
import Loker.TextSearch

/-! The part of TOML that one `key = value` a line makes up: basic strings, whole numbers, arrays
of strings, tables and arrays of tables. -/

namespace Loker.TomlText

open TextOps TextLines TextSearch

section Values

/-- A value; what the reader has no kind for is kept as its text. -/
inductive Toml where
  | integer (n : ℕ)
  | string (s : String)
  | array (xs : List Toml)
  | table (get : String → Option Toml)
  | other (text : String)

abbrev Table := String → Option Toml

abbrev Entries := List (String × Toml)

def strings (ss : List String) : Toml := .array (ss.map .string)

end Values

section BasicStrings

/-- The characters that may not stand in a basic string as they are. -/
def isControl (c : Char) : Bool := (c.toNat < 32 && c ≠ '\t') || c.toNat = 127

def hexValue (c : Char) : Option ℕ :=
  if '0' ≤ c ∧ c ≤ '9' then some (c.toNat - '0'.toNat)
  else if 'a' ≤ c ∧ c ≤ 'f' then some (c.toNat - 'a'.toNat + 10)
  else if 'A' ≤ c ∧ c ≤ 'F' then some (c.toNat - 'A'.toNat + 10)
  else none

/-- The character with the number; surrogates have none. -/
def hexChar (digits : List Char) : Option Char := do
  let values ← digits.mapM hexValue
  let n := values.foldl (fun acc d => 16 * acc + d) 0
  if n.isValidChar then some (Char.ofNat n) else none

/-- The character of an escape and the length of the escape after the backslash. -/
def readEscape : List Char → Option (Char × ℕ)
  | 'b' :: _ => some ('\x08', 1)
  | 't' :: _ => some ('\t', 1)
  | 'n' :: _ => some ('\n', 1)
  | 'f' :: _ => some ('\x0c', 1)
  | 'r' :: _ => some ('\r', 1)
  | '"' :: _ => some ('"', 1)
  | '\\' :: _ => some ('\\', 1)
  | 'u' :: cs => if 4 ≤ cs.length then (hexChar (cs.take 4)).map (·, 5) else none
  | 'U' :: cs => if 8 ≤ cs.length then (hexChar (cs.take 8)).map (·, 9) else none
  | _ => none

/-- The string up to the closing quote and the text after it; `skip` counts the characters of the
last escape still to pass. -/
def readBasic : ℕ → List Char → Option (List Char × List Char)
  | _, [] => none
  | skip + 1, _ :: cs => readBasic skip cs
  | 0, c :: cs =>
      if c = '"' then some ([], cs)
      else if c = '\\' then
        match readEscape cs with
        | some (d, length) => (readBasic length cs).map fun read => (d :: read.1, read.2)
        | none => none
      else if isControl c then none
      else (readBasic 0 cs).map fun read => (c :: read.1, read.2)

variable {cs v rest raw : List Char} {skip n : ℕ} {c d : Char}

lemma readEscape_pos (h : readEscape cs = some (d, n)) : 0 < n := by
  unfold readEscape at h
  split at h
  all_goals first
    | (cases h; exact Nat.one_pos)
    | (split at h
       · obtain ⟨_, _, heq⟩ := Option.map_eq_some_iff.mp h
         cases heq
         exact Nat.succ_pos _
       · cases h)
    | cases h

/-- A string is shorter than its text, by the closing quote and by every escape. -/
lemma readBasic_length (h : readBasic skip cs = some (v, rest)) : v.length + skip < cs.length := by
  induction cs generalizing skip v with
  | nil => cases skip <;> cases h
  | cons c cs ih =>
      cases skip with
      | succ skip =>
          have hlength := ih h
          rw [List.length_cons]
          omega
      | zero =>
          rw [readBasic] at h
          rw [List.length_cons]
          split at h
          · cases h
            exact Nat.succ_pos _
          split at h
          · cases hescape : readEscape cs with
            | none => simp [hescape] at h
            | some escape =>
                obtain ⟨d, n⟩ := escape
                have hpos := readEscape_pos hescape
                simp only [hescape] at h
                obtain ⟨read, hread, heq⟩ := Option.map_eq_some_iff.mp h
                cases heq
                have hlength := ih hread
                rw [List.length_cons]
                omega
          split at h
          · cases h
          · obtain ⟨read, hread, heq⟩ := Option.map_eq_some_iff.mp h
            cases heq
            have hlength := ih hread
            rw [List.length_cons]
            omega

/-- The text stands between quotes for itself. -/
def Quotable (raw : List Char) : Prop := ∀ c ∈ raw, c ≠ '"' ∧ c ≠ '\\' ∧ isControl c = false

lemma readBasic_quotable (h : Quotable raw) (rest : List Char) :
    readBasic 0 (raw ++ '"' :: rest) = some (raw, rest) := by
  induction raw with
  | nil => rfl
  | cons c raw ih =>
      obtain ⟨⟨hquote, hback, hcontrol⟩, hraw⟩ := List.forall_mem_cons.mp h
      rw [List.cons_append, readBasic, if_neg hquote, if_neg hback, hcontrol, if_neg nofun, ih hraw]
      rfl

/-- Only such a text is read as itself. -/
lemma quotable_of_readBasic (h : readBasic 0 (raw ++ ['"']) = some (raw, rest)) : Quotable raw := by
  induction raw with
  | nil => exact nofun
  | cons c raw ih =>
      rw [List.cons_append, readBasic] at h
      split at h
      · cases h
      · next hquote =>
        split at h
        · cases hescape : readEscape (raw ++ ['"']) with
          | none => simp [hescape] at h
          | some escape =>
              obtain ⟨d, n⟩ := escape
              have hpos := readEscape_pos hescape
              simp only [hescape] at h
              obtain ⟨read, hread, heq⟩ := Option.map_eq_some_iff.mp h
              obtain ⟨hv, hrest⟩ := Prod.mk.inj heq
              have hsame := (List.cons.inj hv).2
              have hlength := readBasic_length hread
              rw [hsame, List.length_append, List.length_singleton] at hlength
              omega
        · next hback =>
          split at h
          · cases h
          · next hcontrol =>
            obtain ⟨read, hread, heq⟩ := Option.map_eq_some_iff.mp h
            obtain ⟨hv, hrest⟩ := Prod.mk.inj heq
            have hsame := (List.cons.inj hv).2
            refine List.forall_mem_cons.mpr ⟨⟨hquote, hback, by simpa using hcontrol⟩, ih ?_⟩
            rw [hread, ← hsame, ← hrest]

end BasicStrings

section Reader

/-- A value with the text after it; or the text is no TOML, or it is of no kind read here. -/
inductive Read (α : Type) where
  | value (x : α) (rest : List Char)
  | malformed
  | outside

def Read.map {α β : Type} (f : α → β) : Read α → Read β
  | .value x rest => .value (f x) rest
  | .malformed => .malformed
  | .outside => .outside

/-- Three quotes begin a string of several lines. -/
def readString (cs : List Char) : Read String :=
  if ['"', '"', '"'].isPrefixOf cs then .outside
  else
    match cs with
    | '"' :: rest =>
        match readBasic 0 rest with
        | some (v, rest) => .value (String.ofList v) rest
        | none => .malformed
    | _ => .outside

/-- The strings of an array after its opening bracket. -/
def readStrings : ℕ → List Char → Read (List String)
  | 0, _ => .outside
  | fuel + 1, cs =>
      match readString cs with
      | .value s (']' :: rest) => .value [s] rest
      | .value s (',' :: ' ' :: rest) => (readStrings fuel rest).map (s :: ·)
      | .value _ _ => .outside
      | .malformed => .malformed
      | .outside => .outside

def readInteger (cs : List Char) : Read Toml :=
  match parseU32 (String.ofList cs) with
  | some n => if n.repr.toList = cs then .value (.integer n) [] else .outside
  | none => .outside

def readValue (cs : List Char) : Read Toml :=
  match cs with
  | '[' :: ']' :: rest => .value (strings []) rest
  | '[' :: rest => (readStrings rest.length rest).map strings
  | '"' :: _ => (readString cs).map .string
  | _ => readInteger cs

inductive Header where
  | table (name : String)
  | element (name : String)
  deriving DecidableEq, Repr

/-- What has been read of a document, the newest section first. -/
structure Draft where
  root : Entries
  sections : List (Header × Entries)

namespace Draft

def current (d : Draft) : Entries :=
  match d.sections with
  | [] => d.root
  | (_, entries) :: _ => entries

def add (d : Draft) (entries : Entries) : Draft :=
  match d.sections with
  | [] => { d with root := d.root ++ entries }
  | (header, old) :: older => { d with sections := (header, old ++ entries) :: older }

def start (d : Draft) (header : Header) : Draft := { d with sections := (header, []) :: d.sections }

/-- The tables of an array of tables in their order. -/
def elements (d : Draft) (name : String) : List Entries :=
  d.sections.reverse.filterMap fun s => if s.1 = .element name then some s.2 else none

/-- The document that the draft is all of. -/
def assemble (d : Draft) : Table := fun key =>
  if d.elements key ≠ [] then
    some (.array ((d.elements key).map fun entries => .table fun k => entries.lookup k))
  else
    (d.root.lookup key).or
      ((d.sections.lookup (.table key)).map fun entries => .table fun k => entries.lookup k)

end Draft

/-- A draft of the whole text, or of its beginning when something else follows. -/
inductive Outcome where
  | complete (d : Draft)
  | malformed
  | stopped (d : Draft)

def startTable (d : Draft) (name : String) : Outcome :=
  if d.root.lookup name = none ∧
      d.sections.all (fun s => s.1 ≠ .table name && s.1 ≠ .element name) then
    .complete (d.start (.table name))
  else .stopped d

def startElement (d : Draft) (name : String) : Outcome :=
  if d.root.lookup name = none ∧ d.sections.all (fun s => s.1 ≠ .table name) then
    .complete (d.start (.element name))
  else .stopped d

def isBareChar (c : Char) : Bool := c.isAlphanum || c = '_' || c = '-'

def readHeader (d : Draft) : List Char → Outcome
  | '[' :: '[' :: cs =>
      let name := cs.takeWhile isBareChar
      if name ≠ [] ∧ cs.drop name.length = [']', ']'] then startElement d (String.ofList name)
      else .stopped d
  | '[' :: cs =>
      let name := cs.takeWhile isBareChar
      if name ≠ [] ∧ cs.drop name.length = [']'] then startTable d (String.ofList name)
      else .stopped d
  | _ => .stopped d

def readPair (d : Draft) (key : String) (value : List Char) : Outcome :=
  if (d.current.lookup key).isSome then .malformed
  else
    match readValue value with
    | .value v [] => .complete (d.add [(key, v)])
    | .value v _ => .stopped (d.add [(key, v)])
    | .malformed => .malformed
    | .outside => .stopped d

def readLine (d : Draft) (line : List Char) : Outcome :=
  if line = [] then .complete d
  else if line.head? = some '[' then readHeader d line
  else
    let key := line.takeWhile isBareChar
    match line.drop key.length with
    | ' ' :: '=' :: ' ' :: value =>
        if key = [] then .stopped d else readPair d (String.ofList key) value
    | _ => .stopped d

def readLines : Draft → List (List Char) → Outcome
  | d, [] => .complete d
  | d, line :: lines =>
      match readLine d line with
      | .complete d => readLines d lines
      | .malformed => .malformed
      | .stopped d => .stopped d

def readFrom (d : Draft) (cs : List Char) : Outcome := readLines d (splitLines cs)

def read (text : String) : Outcome := readFrom ⟨[], []⟩ text.toList

end Reader

section Library

/-- The tables of arrays that have been read stay in the document. -/
def Keeps (d : Draft) (doc : Table) : Prop :=
  ∀ (name : String) (i : ℕ) (entries : Entries), (d.elements name)[i]? = some entries →
    ∃ (xs : List Toml) (t : Table), doc name = some (.array xs) ∧ xs[i]? = some (.table t) ∧
      ∀ key v, entries.lookup key = some v → t key = some v

/-- A reader of all of TOML. -/
structure Library where
  fromStr : String → Except String Table

/-- The library reads what is read here as it is read here. -/
structure Library.ReadsToml (lib : Library) : Prop where
  complete : ∀ text d, read text = .complete d → lib.fromStr text = .ok d.assemble
  malformed : ∀ text, read text = .malformed → ∃ e, lib.fromStr text = .error e
  stopped : ∀ text d doc, read text = .stopped d → lib.fromStr text = .ok doc → Keeps d doc

/-- A document that the outcome allows for. -/
def Outcome.Admits (doc : Table) : Outcome → Prop
  | .complete d => doc = d.assemble
  | .malformed => False
  | .stopped d => Keeps d doc

variable {lib : Library} {d d' : Draft} {doc : Table} {text : String}

lemma Library.ReadsToml.admits {outcome : Outcome} (hlib : lib.ReadsToml)
    (hread : read text = outcome) (h : lib.fromStr text = .ok doc) : outcome.Admits doc := by
  cases outcome with
  | complete d =>
      have hcomplete := hlib.complete text d hread
      rw [h] at hcomplete
      exact Except.ok.inj hcomplete
  | malformed =>
      obtain ⟨e, he⟩ := hlib.malformed text hread
      rw [h] at he
      cases he
  | stopped d => exact hlib.stopped text d doc hread h

lemma keeps_assemble (d : Draft) : Keeps d d.assemble := by
  intro name i entries h
  have hne : d.elements name ≠ [] := by
    intro hnil
    rw [hnil] at h
    cases h
  refine ⟨_, fun k => entries.lookup k, if_pos hne, ?_, fun _ _ hlookup => hlookup⟩
  rw [List.getElem?_map, h]
  rfl

lemma lookup_append_of_some {es es' : Entries} {key : String} {v : Toml}
    (h : es.lookup key = some v) : (es ++ es').lookup key = some v := by
  rw [List.lookup_append, h]
  rfl

lemma elements_cons (root : Entries) (header : Header) (entries : Entries)
    (older : List (Header × Entries)) (name : String) :
    Draft.elements ⟨root, (header, entries) :: older⟩ name =
      Draft.elements ⟨root, older⟩ name ++ if header = .element name then [entries] else [] := by
  unfold Draft.elements
  rw [List.reverse_cons, List.filterMap_append]
  congr 1
  by_cases h : header = .element name
  · simp [h]
  · simp [h]

lemma elements_start (d : Draft) (header : Header) (name : String) :
    (d.start header).elements name =
      d.elements name ++ if header = .element name then [[]] else [] :=
  elements_cons d.root header [] d.sections name

lemma Keeps.of_start {header : Header} (h : Keeps (d.start header) doc) : Keeps d doc := by
  intro name i entries hi
  refine h name i entries ?_
  rw [elements_start]
  exact List.getElem?_append_left (List.getElem?_eq_some_iff.mp hi).1 ▸ hi

lemma Keeps.of_add {es : Entries} (h : Keeps (d.add es) doc) : Keeps d doc := by
  obtain ⟨root, sections⟩ := d
  cases sections with
  | nil => exact nofun
  | cons newest older =>
      obtain ⟨header, old⟩ := newest
      intro name i entries hi
      rw [elements_cons] at hi
      have hadd : (Draft.add ⟨root, (header, old) :: older⟩ es).elements name =
          Draft.elements ⟨root, older⟩ name ++
            if header = .element name then [old ++ es] else [] :=
        elements_cons root header _ older name
      by_cases hlt : i < (Draft.elements ⟨root, older⟩ name).length
      · rw [List.getElem?_append_left hlt] at hi
        refine h name i entries ?_
        rw [hadd, List.getElem?_append_left hlt]
        exact hi
      · rw [List.getElem?_append_right (by omega)] at hi
        by_cases hheader : header = .element name
        · rw [if_pos hheader] at hi
          obtain ⟨hend, rfl⟩ := List.getElem?_eq_some_iff.mp hi
          rw [List.length_singleton] at hend
          have hlast : ((Draft.add ⟨root, (header, old) :: older⟩ es).elements name)[i]? =
              some (old ++ es) := by
            rw [hadd, List.getElem?_append_right (by omega), if_pos hheader]
            have hzero : i - (Draft.elements ⟨root, older⟩ name).length = 0 := by omega
            rw [hzero]
            rfl
          obtain ⟨xs, t, hdoc, hxs, ht⟩ := h name i _ hlast
          refine ⟨xs, t, hdoc, hxs, fun key v hkey => ht key v (lookup_append_of_some ?_)⟩
          have hzero : i - (Draft.elements ⟨root, older⟩ name).length = 0 := by omega
          simpa [hzero] using hkey
        · rw [if_neg hheader] at hi
          cases hi

/-- What an outcome keeps, the draft before it keeps. -/
def Outcome.Grows (d : Draft) (doc : Table) : Outcome → Prop
  | .complete d' => Keeps d' doc → Keeps d doc
  | .malformed => True
  | .stopped d' => Keeps d' doc → Keeps d doc

lemma startTable_grows {name : String} : (startTable d name).Grows d doc := by
  unfold startTable
  split
  · exact Keeps.of_start
  · exact id

lemma startElement_grows {name : String} : (startElement d name).Grows d doc := by
  unfold startElement
  split
  · exact Keeps.of_start
  · exact id

lemma readHeader_grows {line : List Char} : (readHeader d line).Grows d doc := by
  unfold readHeader
  split
  · dsimp only
    split
    · exact startElement_grows
    · exact id
  · dsimp only
    split
    · exact startTable_grows
    · exact id
  · exact id

lemma readPair_grows {key : String} {value : List Char} : (readPair d key value).Grows d doc := by
  unfold readPair
  split
  · trivial
  · cases readValue value with
    | value v rest =>
        cases rest with
        | nil => exact Keeps.of_add
        | cons c rest => exact Keeps.of_add
    | malformed => trivial
    | outside => exact id

lemma readLine_grows {line : List Char} : (readLine d line).Grows d doc := by
  unfold readLine
  split
  · exact id
  split
  · exact readHeader_grows
  · dsimp only
    split
    · split
      · exact id
      · exact readPair_grows
    · exact id

/-- A document that the rest of the text allows for keeps what was read before it. -/
lemma keeps_of_admits {lines : List (List Char)} (h : (readLines d lines).Admits doc) :
    Keeps d doc := by
  induction lines generalizing d with
  | nil =>
      have hdoc : doc = d.assemble := h
      rw [hdoc]
      exact keeps_assemble d
  | cons line lines ih =>
      have hgrows : (readLine d line).Grows d doc := readLine_grows
      rw [readLines] at h
      cases hline : readLine d line with
      | complete d' =>
          rw [hline] at h hgrows
          exact hgrows (ih h)
      | malformed =>
          rw [hline] at h
          exact h.elim
      | stopped d' =>
          rw [hline] at h hgrows
          exact hgrows h

end Library

section Lines

variable {d : Draft} {key : String} {value rest l : List Char}

@[simp] lemma current_add (d : Draft) (es : Entries) : (d.add es).current = d.current ++ es := by
  obtain ⟨root, sections⟩ := d
  cases sections with
  | nil => rfl
  | cons newest older => rfl

@[simp] lemma current_start (d : Draft) (header : Header) : (d.start header).current = [] := rfl

@[simp] lemma add_add (d : Draft) (es es' : Entries) : (d.add es).add es' = d.add (es ++ es') := by
  obtain ⟨root, sections⟩ := d
  cases sections with
  | nil => simp [Draft.add]
  | cons newest older => simp [Draft.add]

@[simp] lemma add_nil (d : Draft) : d.add [] = d := by
  obtain ⟨root, sections⟩ := d
  cases sections with
  | nil => simp [Draft.add]
  | cons newest older => simp [Draft.add]

lemma readFrom_line (hl : '\n' ∉ l) (rest : List Char) :
    readFrom d (l ++ '\n' :: rest) =
      match readLine d l with
      | .complete d => readFrom d rest
      | .malformed => .malformed
      | .stopped d => .stopped d := by
  rw [readFrom, splitLines_line hl, readLines]
  rfl

@[simp] lemma readFrom_blank (rest : List Char) : readFrom d ('\n' :: rest) = readFrom d rest :=
  readFrom_line (l := []) nofun rest

/-- The line that a text begins with. -/
lemma splitLines_first (l rest : List Char) :
    ∃ more, splitLines (l ++ '\n' :: rest) = l.takeWhile (· ≠ '\n') :: more := by
  have hno : '\n' ∉ l.takeWhile (· ≠ '\n') := by
    intro hmem
    have hne := List.mem_takeWhile_imp hmem
    simp at hne
  have hsplit := List.takeWhile_append_dropWhile (p := (· ≠ '\n')) (l := l)
  cases hdrop : l.dropWhile (· ≠ '\n') with
  | nil =>
      rw [hdrop, List.append_nil] at hsplit
      rw [hsplit] at hno ⊢
      exact ⟨_, splitLines_line hno rest⟩
  | cons c cs =>
      have hc : c = '\n' := by
        have hne : l.dropWhile (· ≠ '\n') ≠ [] := by
          rw [hdrop]
          exact List.cons_ne_nil c cs
        have hhead := List.head_dropWhile_not (· ≠ '\n') hne
        simp only [hdrop, List.head_cons] at hhead
        simpa using hhead
      subst hc
      rw [hdrop] at hsplit
      rw [← hsplit, List.append_assoc, List.cons_append]
      refine ⟨splitLines (cs ++ '\n' :: rest), ?_⟩
      rw [splitLines_line hno, hsplit]

def IsBareKey (key : String) : Prop := key ≠ "" ∧ key.toList.all isBareChar = true

instance (key : String) : Decidable (IsBareKey key) :=
  inferInstanceAs (Decidable (key ≠ "" ∧ key.toList.all isBareChar = true))

lemma takeWhile_bare (h : key.toList.all isBareChar = true) {c : Char} (hc : isBareChar c = false) :
    (key.toList ++ c :: rest).takeWhile isBareChar = key.toList := by
  rw [List.takeWhile_append_of_pos fun x hx => List.all_eq_true.mp h x hx,
    List.takeWhile_cons_of_neg (by simp [hc]), List.append_nil]

lemma readLine_pair (hkey : IsBareKey key) (value : List Char) :
    readLine d (key.toList ++ ' ' :: '=' :: ' ' :: value) = readPair d key value := by
  obtain ⟨hne, hbare⟩ := hkey
  have hnil : key.toList ≠ [] := by simpa using hne
  have htake : (key.toList ++ ' ' :: '=' :: ' ' :: value).takeWhile isBareChar = key.toList :=
    takeWhile_bare hbare rfl
  obtain ⟨c, cs, hcs⟩ := List.exists_cons_of_ne_nil hnil
  have hc : c ≠ '[' := by
    rintro rfl
    have hbad := List.all_eq_true.mp hbare '[' (by rw [hcs]; exact List.mem_cons_self)
    exact absurd hbad (by decide)
  unfold readLine
  rw [if_neg (by simp), if_neg (by simp [hcs, hc])]
  simp only [htake, List.drop_left]
  rw [if_neg hnil, String.ofList_toList]

lemma readLine_element {name : String} (hname : IsBareKey name) :
    readLine d ('[' :: '[' :: (name.toList ++ [']', ']'])) = startElement d name := by
  obtain ⟨hne, hbare⟩ := hname
  have hnil : name.toList ≠ [] := by simpa using hne
  have htake : (name.toList ++ [']', ']']).takeWhile isBareChar = name.toList :=
    takeWhile_bare hbare rfl
  unfold readLine
  rw [if_neg nofun, if_pos List.head?_cons, readHeader]
  simp only [htake, List.drop_left]
  rw [if_pos ⟨hnil, trivial⟩, String.ofList_toList]

lemma readLine_table {name : String} (hname : IsBareKey name) :
    readLine d ('[' :: (name.toList ++ [']'])) = startTable d name := by
  obtain ⟨hne, hbare⟩ := hname
  have hnil : name.toList ≠ [] := by simpa using hne
  have htake : (name.toList ++ [']']).takeWhile isBareChar = name.toList := takeWhile_bare hbare rfl
  obtain ⟨c, cs, hcs⟩ := List.exists_cons_of_ne_nil hnil
  have hc : c ≠ '[' := by
    rintro rfl
    have hbad := List.all_eq_true.mp hbare '[' (by rw [hcs]; exact List.mem_cons_self)
    exact absurd hbad (by decide)
  have hheader : readHeader d ('[' :: (name.toList ++ [']'])) = startTable d name := by
    unfold readHeader
    split
    · next cs' heq =>
      rw [hcs] at heq
      exact absurd (List.cons.inj (List.cons.inj heq).2).1 hc
    · next cs' _ heq =>
      obtain rfl := (List.cons.inj heq).2
      simp only [htake, List.drop_left]
      rw [if_pos ⟨hnil, trivial⟩, String.ofList_toList]
    · next hother =>
      exact (hother _ rfl).elim
  unfold readLine
  rw [if_neg nofun, if_pos List.head?_cons, hheader]

lemma readInteger_repr {n : ℕ} (hn : n < 2 ^ 32) :
    readInteger n.repr.toList = .value (.integer n) [] := by
  unfold readInteger
  rw [String.ofList_toList, parseU32_repr hn]
  exact if_pos rfl

end Lines

end Loker.TomlText
