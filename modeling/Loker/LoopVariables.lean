import Loker.JsonReader
import Loker.Template

/-! The two passes over the prompt of a loop step: outputs of earlier steps first, then the loop's
own variables. -/

namespace Loker.LoopVariables

open TextOps JsonReader Template

section Variables

def isFieldChar (c : Char) : Bool := c.isAlphanum || c = '_'

inductive LoopPath where
  | item
  | field (name : List Char)
  | index
  deriving DecidableEq, Repr

def itemWord : List Char := ['i', 't', 'e', 'm']

def indexWord : List Char := ['i', 'n', 'd', 'e', 'x']

def LoopPath.text : LoopPath → List Char
  | .item => itemWord
  | .field name => itemWord ++ '.' :: name
  | .index => indexWord

/-- A loop variable between its braces. -/
structure LoopVar where
  before : List Char
  path : LoopPath
  after : List Char
  before_blank : before.all isBlank = true
  after_blank : after.all isBlank = true
  name_ok : ∀ name, path = .field name → name ≠ [] ∧ name.all isFieldChar = true

def LoopVar.source (m : LoopVar) : List Char :=
  '{' :: '{' :: (m.before ++ (m.path.text ++ (m.after ++ ['}', '}'])))

/-- The path at the start of a text, and what follows it. -/
def loopPath (cs : List Char) : Option (LoopPath × List Char) :=
  if itemWord.isPrefixOf cs then
    let rest := cs.drop 4
    if rest.head? = some '.' then
      let name := rest.tail.takeWhile isFieldChar
      if name = [] then none else some (.field name, rest.tail.dropWhile isFieldChar)
    else some (.item, rest)
  else if indexWord.isPrefixOf cs then some (.index, cs.drop 5)
  else none

/-- `LOOP_VAR_RE` at the start of a text, and what follows the match. -/
def loopVarAt (cs : List Char) : Option (LoopPath × List Char) :=
  if ['{', '{'].isPrefixOf cs then
    (loopPath ((cs.drop 2).dropWhile isWhiteSpace)).bind fun (path, rest) =>
      let closing := rest.dropWhile isWhiteSpace
      if ['}', '}'].isPrefixOf closing then some (path, closing.drop 2) else none
  else none

/-- Matches from the left with their replacements and lengths; the first argument counts the
characters of the last match still to pass. -/
def replaceMatches (matchAt : List Char → Option (List Char × ℕ)) : ℕ → List Char → List Char
  | _, [] => []
  | skip + 1, _ :: cs => replaceMatches matchAt skip cs
  | 0, c :: cs =>
      match matchAt (c :: cs) with
      | some (replacement, length) => replacement ++ replaceMatches matchAt (length - 1) cs
      | none => c :: replaceMatches matchAt 0 cs

def matched (cs rest : List Char) : List Char := cs.take (cs.length - rest.length)

def rawOpen : List Char := "\x7b% raw %\x7d".toList

def rawClose : List Char := "\x7b% endraw %\x7d".toList

def protectAt (cs : List Char) : Option (List Char × ℕ) :=
  (loopVarAt cs).map fun (_, rest) =>
    (rawOpen ++ (matched cs rest ++ rawClose), (matched cs rest).length)

def protectLoopVars (template : List Char) : List Char := replaceMatches protectAt 0 template

end Variables

section Scan

variable {t rest : List Char} {matchAt : List Char → Option (List Char × ℕ)}

lemma isWhiteSpace_of_isBlank {c : Char} (h : isBlank c = true) : isWhiteSpace c = true := by
  simp only [isBlank, Bool.or_eq_true, decide_eq_true_eq] at h
  rcases h with ((rfl | rfl) | rfl) | rfl <;> decide

lemma dropWhile_blanks {bs : List Char} (hbs : bs.all isBlank = true)
    (hrest : rest.head?.any isWhiteSpace = false) :
    (bs ++ rest).dropWhile isWhiteSpace = rest := by
  have hall : ∀ c ∈ bs, isWhiteSpace c = true :=
    fun c hc => isWhiteSpace_of_isBlank (List.all_eq_true.mp hbs c hc)
  rw [List.dropWhile_append_of_pos hall]
  cases rest with
  | nil => rfl
  | cons c rest => exact List.dropWhile_cons_of_neg (by simpa using hrest)

lemma loopPath_text {path : LoopPath}
    (hname : ∀ name, path = .field name → name ≠ [] ∧ name.all isFieldChar = true)
    (hrest : rest.head?.any (fun c => isFieldChar c || c = '.') = false) :
    loopPath (path.text ++ rest) = some (path, rest) := by
  have hword : rest.head?.any isFieldChar = false ∧ rest.head? ≠ some '.' := by
    cases rest with
    | nil => exact ⟨rfl, nofun⟩
    | cons c rest =>
        simp only [List.head?_cons, Option.any_some, Bool.or_eq_false_iff] at hrest
        refine ⟨hrest.1, fun h => ?_⟩
        rw [Option.some.inj h] at hrest
        cases hrest.2
  cases path with
  | item =>
      have hpre : itemWord.isPrefixOf (itemWord ++ rest) = true :=
        List.isPrefixOf_iff_prefix.mpr (List.prefix_append _ _)
      have hdrop : (itemWord ++ rest).drop 4 = rest := rfl
      rw [loopPath, LoopPath.text, if_pos hpre, hdrop]
      simp only [hword.2, if_false]
  | field name =>
      obtain ⟨hne, hall⟩ := hname name rfl
      have hpre : itemWord.isPrefixOf (itemWord ++ '.' :: name ++ rest) = true := by
        rw [List.append_assoc]
        exact List.isPrefixOf_iff_prefix.mpr (List.prefix_append _ _)
      have hdrop : (itemWord ++ '.' :: name ++ rest).drop 4 = '.' :: (name ++ rest) := rfl
      have htake : (name ++ rest).takeWhile isFieldChar = name := by
        rw [List.takeWhile_append_of_pos (List.all_eq_true.mp hall)]
        cases rest with
        | nil => exact List.append_nil name
        | cons c rest =>
            rw [List.takeWhile_cons_of_neg (by simpa using hword.1), List.append_nil]
      have hskip : (name ++ rest).dropWhile isFieldChar = rest := by
        rw [List.dropWhile_append_of_pos (List.all_eq_true.mp hall)]
        cases rest with
        | nil => rfl
        | cons c rest => exact List.dropWhile_cons_of_neg (by simpa using hword.1)
      rw [loopPath, LoopPath.text, if_pos hpre, hdrop]
      simp only [List.head?_cons, List.tail_cons, htake, hskip, hne, if_true, if_false]
  | index => rfl

lemma loopVarAt_source (m : LoopVar) (rest : List Char) :
    loopVarAt (m.source ++ rest) = some (m.path, rest) := by
  have hopen : ['{', '{'].isPrefixOf (m.source ++ rest) = true :=
    List.isPrefixOf_iff_prefix.mpr ⟨_, rfl⟩
  have hdrop : (m.source ++ rest).drop 2 =
      m.before ++ (m.path.text ++ (m.after ++ (['}', '}'] ++ rest))) := by
    simp [LoopVar.source]
  have hbefore : (m.before ++ (m.path.text ++ (m.after ++ (['}', '}'] ++ rest)))).dropWhile
      isWhiteSpace = m.path.text ++ (m.after ++ (['}', '}'] ++ rest)) := by
    apply dropWhile_blanks m.before_blank
    cases m.path <;> rfl
  have hend : (m.after ++ (['}', '}'] ++ rest)).head?.any (fun c => isFieldChar c || c = '.') =
      false := by
    cases hafter : m.after with
    | nil => rfl
    | cons c cs =>
        have hblank := m.after_blank
        rw [hafter, List.all_cons, Bool.and_eq_true] at hblank
        have hc := hblank.1
        simp only [isBlank, Bool.or_eq_true, decide_eq_true_eq] at hc
        rcases hc with ((rfl | rfl) | rfl) | rfl <;> rfl
  have hafter : (m.after ++ (['}', '}'] ++ rest)).dropWhile isWhiteSpace = ['}', '}'] ++ rest :=
    dropWhile_blanks m.after_blank rfl
  have hclose : ['}', '}'].isPrefixOf (['}', '}'] ++ rest) = true :=
    List.isPrefixOf_iff_prefix.mpr (List.prefix_append _ _)
  rw [loopVarAt, if_pos hopen, hdrop, hbefore, loopPath_text m.name_ok hend]
  simp only [Option.bind_some, hafter, if_pos hclose]
  rfl

lemma LoopVar.body_free (m : LoopVar) :
    '{' ∉ m.before ++ (m.path.text ++ (m.after ++ ['}', '}'])) := by
  have hblank : ∀ bs : List Char, bs.all isBlank = true → '{' ∉ bs := by
    intro bs hbs hmem
    have hc := List.all_eq_true.mp hbs '{' hmem
    revert hc
    decide
  have htext : '{' ∉ m.path.text := by
    cases hpath : m.path with
    | item => decide
    | field name =>
        intro hmem
        simp only [LoopPath.text, itemWord, List.cons_append, List.nil_append, List.mem_cons] at hmem
        rcases hmem with h | h | h | h | h | hmem
        · cases h
        · cases h
        · cases h
        · cases h
        · cases h
        · have hc := List.all_eq_true.mp (m.name_ok name hpath).2 '{' hmem
          revert hc
          decide
    | index => decide
  simp only [List.mem_append, not_or]
  exact ⟨hblank _ m.before_blank, htext, hblank _ m.after_blank, by decide⟩

lemma LoopVar.source_ne_nil (m : LoopVar) : m.source ≠ [] := List.cons_ne_nil _ _

/-- Two braces open nowhere in the text, nor at its end when a brace follows. -/
def BraceFree (t : List Char) : Prop := ¬ ['{', '{'] <:+: t ++ ['{']

lemma BraceFree.tail {c : Char} (h : BraceFree (c :: t)) : BraceFree t :=
  fun hin => h (hin.trans (List.suffix_cons c _).isInfix)

lemma BraceFree.not_open {c : Char} (h : BraceFree (c :: t)) :
    ['{', '{'].isPrefixOf (c :: (t ++ rest)) = false := by
  rw [Bool.eq_false_iff, Ne, List.isPrefixOf_iff_prefix]
  intro hpre
  apply h
  apply List.IsPrefix.isInfix
  obtain ⟨hc, hpre⟩ := List.cons_prefix_cons.mp hpre
  rw [← hc, List.cons_append]
  refine List.cons_prefix_cons.mpr ⟨rfl, ?_⟩
  cases t with
  | nil => exact List.prefix_refl ['{']
  | cons d t =>
      obtain ⟨hd, -⟩ := List.cons_prefix_cons.mp hpre
      rw [← hd]
      exact List.cons_prefix_cons.mpr ⟨rfl, List.nil_prefix⟩

/-- A pattern that begins with two braces. -/
def BracesFirst (matchAt : List Char → Option (List Char × ℕ)) : Prop :=
  ∀ cs, ['{', '{'].isPrefixOf cs = false → matchAt cs = none

lemma replaceMatches_copy (hbraces : BracesFirst matchAt) (ht : BraceFree t) :
    replaceMatches matchAt 0 (t ++ rest) = t ++ replaceMatches matchAt 0 rest := by
  induction t with
  | nil => rfl
  | cons c t ih =>
      rw [List.cons_append, replaceMatches, hbraces _ ht.not_open, ih ht.tail]
      rfl

lemma replaceMatches_last (hbraces : BracesFirst matchAt) (ht : ¬ ['{', '{'] <:+: t) :
    replaceMatches matchAt 0 t = t := by
  induction t with
  | nil => rfl
  | cons c t ih =>
      have hopen : ['{', '{'].isPrefixOf (c :: t) = false := by
        rw [Bool.eq_false_iff, Ne, List.isPrefixOf_iff_prefix]
        exact fun hpre => ht hpre.isInfix
      rw [replaceMatches, hbraces _ hopen,
        ih (fun hin => ht (hin.trans (List.suffix_cons c t).isInfix))]

/-- Braces with something else between them that is no match. -/
lemma replaceMatches_braces {body : List Char} (hbraces : BracesFirst matchAt)
    (hfree : '{' ∉ body) (hne : body ≠ [])
    (hnone : matchAt ('{' :: '{' :: (body ++ rest)) = none) :
    replaceMatches matchAt 0 ('{' :: '{' :: (body ++ rest)) =
      '{' :: '{' :: (body ++ replaceMatches matchAt 0 rest) := by
  have hinner : BraceFree ('{' :: body) := by
    rintro ⟨l, r, hlr⟩
    have hbody := List.count_eq_zero.mpr hfree
    obtain ⟨c, cs, rfl⟩ := List.exists_cons_of_ne_nil hne
    cases l with
    | nil =>
        have hc := (List.cons.inj (List.cons.inj hlr).2).1
        exact hfree (hc ▸ List.mem_cons_self)
    | cons d l =>
        have hrest : l ++ (['{', '{'] ++ r) = (c :: cs) ++ ['{'] := by
          rw [← List.append_assoc]
          exact (List.cons.inj hlr).2
        have htwo := congrArg (List.count '{') hrest
        rw [List.count_append, List.count_append, List.count_append, hbody] at htwo
        have hpair : List.count '{' ['{', '{'] = 2 := rfl
        have hone : List.count '{' ['{'] = 1 := rfl
        omega
  have hcopy : replaceMatches matchAt 0 (('{' :: body) ++ rest) =
      ('{' :: body) ++ replaceMatches matchAt 0 rest := replaceMatches_copy hbraces hinner
  rw [replaceMatches, hnone]
  exact congrArg ('{' :: ·) hcopy

lemma replaceMatches_skip (p : List Char) :
    replaceMatches matchAt p.length (p ++ rest) = replaceMatches matchAt 0 rest := by
  induction p with
  | nil => cases rest <;> rfl
  | cons c p ih => exact ih

lemma replaceMatches_match {p replacement : List Char} (hp : p ≠ [])
    (h : matchAt (p ++ rest) = some (replacement, p.length)) :
    replaceMatches matchAt 0 (p ++ rest) = replacement ++ replaceMatches matchAt 0 rest := by
  obtain ⟨c, cs, rfl⟩ := List.exists_cons_of_ne_nil hp
  rw [List.cons_append] at h ⊢
  rw [replaceMatches, h]
  exact congrArg (replacement ++ ·) (replaceMatches_skip cs)

lemma matched_append (p rest : List Char) : matched (p ++ rest) rest = p := by
  rw [matched, List.length_append, Nat.add_sub_cancel, List.take_left]

lemma loopVarAt_none {cs : List Char} (h : ['{', '{'].isPrefixOf cs = false) :
    loopVarAt cs = none := if_neg (by rw [h]; nofun)

lemma protectAt_braces : BracesFirst protectAt := by
  intro cs h
  rw [protectAt, loopVarAt_none h]
  rfl

lemma protect_loopVar (m : LoopVar) (rest : List Char) :
    replaceMatches protectAt 0 (m.source ++ rest) =
      rawOpen ++ (m.source ++ rawClose) ++ replaceMatches protectAt 0 rest := by
  have hmatch : protectAt (m.source ++ rest) =
      some (rawOpen ++ (m.source ++ rawClose), m.source.length) := by
    simp only [protectAt, loopVarAt_source, Option.map_some, matched_append]
  exact replaceMatches_match m.source_ne_nil hmatch

end Scan

section Delimiters

/-- No delimiter opens in the text, nor at its end when a brace follows. -/
def PlainBefore (t : List Char) : Prop := hasDelimiter (t ++ ['{']) = false

variable {t : List Char}

lemma hasDelimiter_tail {c : Char} (h : hasDelimiter (c :: t) = false) :
    hasDelimiter t = false := by
  cases t with
  | nil => rfl
  | cons d t => exact (Bool.or_eq_false_iff.mp h).2

/-- Text without an opening brace has no delimiter. -/
lemma hasDelimiter_free (h : '{' ∉ t) : hasDelimiter t = false := by
  induction t with
  | nil => rfl
  | cons c t ih =>
      cases t with
      | nil => rfl
      | cons d t =>
          have hc : ¬ c = '{' := fun heq => h (heq ▸ List.mem_cons_self)
          have ht := ih (fun hmem => h (List.mem_cons_of_mem c hmem))
          rw [hasDelimiter, ht, Bool.or_false, decide_eq_false hc, Bool.false_and]

lemma hasDelimiter_of_braces (h : ['{', '{'] <:+: t) : hasDelimiter t = true := by
  obtain ⟨l, r, rfl⟩ := h
  rw [hasDelimiter_append, hasDelimiter_append]
  simp [hasDelimiter, opens]

lemma not_braces (h : hasDelimiter t = false) : ¬ ['{', '{'] <:+: t := by
  intro hin
  rw [hasDelimiter_of_braces hin] at h
  cases h

lemma PlainBefore.plain (h : PlainBefore t) : hasDelimiter t = false := by
  rw [PlainBefore, hasDelimiter_append, Bool.or_eq_false_iff, Bool.or_eq_false_iff] at h
  exact h.1.1

lemma PlainBefore.last (h : PlainBefore t) : t.getLast? ≠ some '{' := by
  intro hlast
  obtain ⟨l, rfl⟩ := List.getLast?_eq_some_iff.mp hlast
  rw [PlainBefore, List.append_assoc, hasDelimiter_append] at h
  simp [hasDelimiter, opens] at h

lemma plainBefore_free (h : '{' ∉ t) : PlainBefore t := by
  have hlast : t.getLast? ≠ some '{' := fun hlast => h (List.mem_of_getLast? hlast)
  rw [PlainBefore, hasDelimiter_append, hasDelimiter_free h, straddles, decide_eq_false hlast]
  rfl

lemma PlainBefore.braceFree (h : PlainBefore t) : BraceFree t := not_braces h

end Delimiters

section Expressions

/-- An expression of the first pass: it is no loop variable and has no braces inside. -/
structure Expression where
  body : List Char
  free : '{' ∉ body
  closed : '}' ∉ body
  other : ∀ rest, loopVarAt ('{' :: '{' :: (body ++ ['}', '}'] ++ rest)) = none

def Expression.source (e : Expression) : List Char := '{' :: '{' :: (e.body ++ ['}', '}'])

/-- An expression is no loop variable and hides none. -/
lemma protect_expression (e : Expression) (rest : List Char) :
    replaceMatches protectAt 0 (e.source ++ rest) =
      e.source ++ replaceMatches protectAt 0 rest := by
  have hfree : '{' ∉ e.body ++ ['}', '}'] := by
    rw [List.mem_append, not_or]
    exact ⟨e.free, by decide⟩
  have hnone : protectAt ('{' :: '{' :: (e.body ++ ['}', '}'] ++ rest)) = none := by
    rw [protectAt, e.other]
    rfl
  exact replaceMatches_braces protectAt_braces hfree (by simp) hnone

end Expressions

end Loker.LoopVariables
