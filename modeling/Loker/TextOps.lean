import Mathlib

/-! The string functions of Rust's standard library that the program uses, on characters. -/

namespace Loker.TextOps

def startsWith (s pre : String) : Bool := pre.toList.isPrefixOf s.toList

def endsWith (s suf : String) : Bool := suf.toList.isSuffixOf s.toList

def contains (s pat : String) : Bool := decide (pat.toList <:+: s.toList)

def stripPrefix (s pre : String) : Option String :=
  if startsWith s pre then some (String.ofList (s.toList.drop pre.toList.length)) else none

def stripSuffix (s suf : String) : Option String :=
  if endsWith s suf then
    some (String.ofList (s.toList.take (s.toList.length - suf.toList.length)))
  else none

/-- The characters before the first match of the pattern, or all of them. -/
def takeBefore (pat : List Char) : List Char → List Char
  | [] => []
  | c :: cs => if pat.isPrefixOf (c :: cs) then [] else c :: takeBefore pat cs

def beforeFirst (s pat : String) : String := String.ofList (takeBefore pat.toList s.toList)

/-- Unicode white space, as `char::is_whitespace` and the `\\s` of a pattern have it. -/
def isWhiteSpace (c : Char) : Bool :=
  let n := c.toNat
  (9 ≤ n && n ≤ 13) || n = 32 || n = 0x85 || n = 0xa0 || n = 0x1680 ||
    (0x2000 ≤ n && n ≤ 0x200a) || n = 0x2028 || n = 0x2029 || n = 0x202f || n = 0x205f ||
    n = 0x3000

def trim (s : String) : String :=
  String.ofList ((s.toList.dropWhile isWhiteSpace).reverse.dropWhile isWhiteSpace).reverse

def trimEndChar (s : String) (c : Char) : String :=
  String.ofList (s.toList.reverse.dropWhile (· = c)).reverse

def toAsciiLowercase (s : String) : String := String.ofList (s.toList.map Char.toLower)

/-- The parts before and after the first match of the pattern. -/
def splitAtFirst (s pat : String) : Option (String × String) :=
  if contains s pat then
    let before := takeBefore pat.toList s.toList
    some (String.ofList before,
      String.ofList (s.toList.drop (before.length + pat.toList.length)))
  else none

/-- The parts before and after the first character equal to the separator. -/
def splitOnce (s : String) (sep : Char) : Option (String × String) :=
  match s.toList.span (· ≠ sep) with
  | (_, []) => none
  | (before, _ :: after) => some (String.ofList before, String.ofList after)

def digitValue (c : Char) : Option ℕ :=
  if '0' ≤ c ∧ c ≤ '9' then some (c.toNat - '0'.toNat) else none

/-- `str::parse::<u32>`. -/
def parseU32 (s : String) : Option ℕ := do
  let digits := if s.toList.head? = some '+' then s.toList.tail else s.toList
  let values ← digits.mapM digitValue
  let n := values.foldl (fun acc d => 10 * acc + d) 0
  if values ≠ [] ∧ n < 2 ^ 32 then some n else none

/-- Matches of a nonempty pattern that do not overlap, from the left. -/
def countFrom (pat : List Char) : ℕ → List Char → ℕ
  | _, [] => 0
  | skip + 1, _ :: cs => countFrom pat skip cs
  | 0, c :: cs =>
      if pat.isPrefixOf (c :: cs) then 1 + countFrom pat (pat.length - 1) cs
      else countFrom pat 0 cs

def matchCount (s pat : String) : ℕ := countFrom pat.toList 0 s.toList

/-- The first match of the pattern replaced. -/
def replaceFrom (pat new : List Char) : List Char → List Char
  | [] => []
  | c :: cs =>
      if pat.isPrefixOf (c :: cs) then new ++ (c :: cs).drop pat.length
      else c :: replaceFrom pat new cs

def replaceFirst (s pat new : String) : String :=
  String.ofList (replaceFrom pat.toList new.toList s.toList)

/-- Every match of a nonempty pattern replaced. -/
def replaceAllFrom (pat new : List Char) : ℕ → List Char → List Char
  | _, [] => []
  | skip + 1, _ :: cs => replaceAllFrom pat new skip cs
  | 0, c :: cs =>
      if pat.isPrefixOf (c :: cs) then new ++ replaceAllFrom pat new (pat.length - 1) cs
      else c :: replaceAllFrom pat new 0 cs

def replaceAll (s pat new : String) : String :=
  String.ofList (replaceAllFrom pat.toList new.toList 0 s.toList)

/-- The lines of a text; a last one without its line end counts too. -/
def splitLines : List Char → List (List Char)
  | [] => []
  | c :: cs =>
      if c = '\n' then [] :: splitLines cs
      else
        match splitLines cs with
        | [] => [[c]]
        | line :: rest => (c :: line) :: rest

/-- `str::lines`: a `\r` directly before a line's `\n` belongs to the line's end. -/
def lines (s : String) : List String :=
  (splitLines (replaceAll s "\r\n" "\n").toList).map String.ofList

/-- The longest beginning of at most `max` bytes. -/
def truncateFrom : ℕ → List Char → List Char
  | _, [] => []
  | max, c :: cs => if c.utf8Size ≤ max then c :: truncateFrom (max - c.utf8Size) cs else []

def truncateUtf8 (s : String) (max : ℕ) : String := String.ofList (truncateFrom max s.toList)

section Suffix

@[simp] lemma endsWith_append (s suf : String) : endsWith (s ++ suf) suf = true := by
  simp [endsWith]

@[simp] lemma stripSuffix_append (s suf : String) : stripSuffix (s ++ suf) suf = some s := by
  simp [stripSuffix]

lemma endsWith_iff {s suf : String} : endsWith s suf = true ↔ ∃ p, s = p ++ suf := by
  constructor
  · intro h
    obtain ⟨l, hl⟩ := List.isSuffixOf_iff_suffix.mp h
    exact ⟨String.ofList l, by rw [← String.toList_inj]; simp [hl]⟩
  · rintro ⟨p, rfl⟩
    exact endsWith_append p suf

lemma startsWith_iff {s pre : String} : startsWith s pre = true ↔ ∃ q, s = pre ++ q := by
  constructor
  · intro h
    obtain ⟨l, hl⟩ := List.isPrefixOf_iff_prefix.mp h
    exact ⟨String.ofList l, by rw [← String.toList_inj]; simp [hl]⟩
  · rintro ⟨q, rfl⟩
    simp [startsWith]

end Suffix

section Trim

lemma mem_dropWhile {c : Char} {cs : List Char} (h : c ∈ cs) (hc : isWhiteSpace c = false) :
    c ∈ cs.dropWhile isWhiteSpace := by
  induction cs with
  | nil => cases h
  | cons d cs ih =>
      by_cases hd : isWhiteSpace d = true
      · have hne : c ≠ d := by
          rintro rfl
          rw [hc] at hd
          cases hd
        rw [List.dropWhile_cons_of_pos hd]
        exact ih ((List.mem_cons.mp h).resolve_left hne)
      · rwa [List.dropWhile_cons_of_neg hd]

/-- A character that is no white space survives. -/
lemma trim_ne_empty {s : String} {c : Char} (h : c ∈ s.toList) (hc : isWhiteSpace c = false) :
    trim s ≠ "" := by
  intro hempty
  have hlist := congrArg String.toList hempty
  rw [trim, String.toList_ofList] at hlist
  have hmem := mem_dropWhile (List.mem_reverse.mpr (mem_dropWhile h hc)) hc
  rw [List.reverse_eq_nil_iff.mp hlist] at hmem
  cases hmem

end Trim

lemma repr_inj {m n : ℕ} (h : m.repr = n.repr) : m = n := by
  have hdigits := congrArg String.toList h
  rw [Nat.toList_repr, Nat.toList_repr] at hdigits
  rw [← Nat.ofDigitChars_ten_toDigits (n := m), hdigits, Nat.ofDigitChars_ten_toDigits]

end Loker.TextOps
