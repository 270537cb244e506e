import Loker.TextOps

/-! The placeholder engine of phase prompts: one pass over the template that replaces every
`\{\{ … }}` by an input's text. -/

namespace Loker.Template

open TextOps

inductive TemplateError where
  | unresolvedPlaceholder (name : String)
  | malformedPlaceholder (raw : String)
  deriving DecidableEq, Repr

structure PhaseOutput where
  content : String
  path : String
  deriving DecidableEq, Repr

structure TemplateContext where
  spec : Option String
  phaseOutputs : String → Option PhaseOutput
  vars : String → Option String

section Scan

/-- A character of the template or a placeholder with its trimmed inside. -/
inductive Segment where
  | literal (c : Char)
  | placeholder (inner : String)
  deriving DecidableEq, Repr

/-- What the pattern captures of a nonempty text between the braces: the text without the white
space around it, and the last character of white space alone. -/
def capture (body : List Char) : List Char :=
  let trimmed := (body.dropWhile isWhiteSpace).reverse.dropWhile isWhiteSpace
  if trimmed = [] then body.getLast?.toList else trimmed.reverse

/-- A placeholder at the start of the text, with its length. -/
def placeholderAt (cs : List Char) : Option (String × ℕ) :=
  match cs with
  | '{' :: '{' :: rest =>
      let body := rest.takeWhile (· ≠ '}')
      if body ≠ [] ∧ ['}', '}'].isPrefixOf (rest.drop body.length) then
        some (String.ofList (capture body), body.length + 4)
      else none
  | _ => none

/-- The matches from the left; `skip` counts the characters of the last match still to pass. -/
def segments : ℕ → List Char → List Segment
  | _, [] => []
  | skip + 1, _ :: cs => segments skip cs
  | 0, c :: cs =>
      match placeholderAt (c :: cs) with
      | some (inner, length) => .placeholder inner :: segments (length - 1) cs
      | none => .literal c :: segments 0 cs

end Scan

section Resolve

def resolvePhasePlaceholder (inner rest : String) (ctx : TemplateContext) :
    Except TemplateError String :=
  match splitOnce rest '.' with
  | none => .error (.malformedPlaceholder inner)
  | some (phaseName, tail) =>
      let (field, subfield) :=
        match splitOnce tail '.' with
        | some (field, subfield) => (field, some subfield)
        | none => (tail, none)
      if field ≠ "output" then .error (.malformedPlaceholder inner)
      else
        match ctx.phaseOutputs phaseName with
        | none => .error (.unresolvedPlaceholder ("phase." ++ phaseName ++ ".output"))
        | some output =>
            match subfield with
            | some "path" => .ok output.path
            | some other =>
                .error (.malformedPlaceholder ("phase." ++ phaseName ++ ".output." ++ other))
            | none => .ok output.content

def resolvePlaceholder (inner : String) (ctx : TemplateContext) :
    Except TemplateError String :=
  if inner = "spec" then
    match ctx.spec with
    | some spec => .ok spec
    | none => .error (.unresolvedPlaceholder inner)
  else
    match stripPrefix inner "phase.", stripPrefix inner "var." with
    | some rest, _ => resolvePhasePlaceholder inner rest ctx
    | none, some name =>
        if name = "" then .error (.malformedPlaceholder inner)
        else
          match ctx.vars name with
          | some value => .ok value
          | none => .error (.unresolvedPlaceholder ("var." ++ name))
    | none, none => .error (.unresolvedPlaceholder inner)

end Resolve

/-- The text a segment stands for. -/
def segmentText (ctx : TemplateContext) : Segment → Except TemplateError String
  | .literal c => .ok (String.singleton c)
  | .placeholder inner => resolvePlaceholder inner ctx

/-- The texts the rendered template is put together from. -/
def pieces (template : String) (ctx : TemplateContext) : Except TemplateError (List String) :=
  (segments 0 template.toList).mapM (segmentText ctx)

def render (template : String) (ctx : TemplateContext) : Except TemplateError String :=
  (pieces template ctx).map String.join

/-- The texts put in for the placeholders. -/
def Substituted (template : String) (ctx : TemplateContext) (value : String) : Prop :=
  ∃ inner, .placeholder inner ∈ segments 0 template.toList ∧
    resolvePlaceholder inner ctx = .ok value

section Delimiters

/-- The second character of a delimiter that begins with a brace. -/
def opens (c : Char) : Bool := c = '{' || c = '%' || c = '#'

/-- `\{\{`, `\{%` or `\{#` occurs in the text. -/
def hasDelimiter : List Char → Bool
  | a :: b :: cs => (a = '{' && opens b) || hasDelimiter (b :: cs)
  | _ => false

/-- A delimiter lies across the boundary of two texts. -/
def straddles (a b : List Char) : Bool :=
  a.getLast? = some '{' && (b.head?.map opens).getD false

lemma hasDelimiter_append (a b : List Char) :
    hasDelimiter (a ++ b) = (hasDelimiter a || straddles a b || hasDelimiter b) := by
  induction a with
  | nil => simp [hasDelimiter, straddles]
  | cons c a ih =>
      cases a with
      | nil =>
          cases b with
          | nil => simp [hasDelimiter, straddles]
          | cons d b => simp [hasDelimiter, straddles]
      | cons d a =>
          rw [List.cons_append, List.cons_append, hasDelimiter, ← List.cons_append, ih,
            hasDelimiter]
          simp [straddles, Bool.or_assoc]

/-- No piece has a delimiter and no two neighbours, empty pieces aside, make one. -/
def PlainPieces (ps : List (List Char)) : Prop :=
  (∀ p ∈ ps, hasDelimiter p = false) ∧
    (ps.filter (· ≠ [])).IsChain fun a b => straddles a b = false

lemma head_flatten_filter (ps : List (List Char)) :
    ps.flatten.head? = (ps.filter (· ≠ [])).head?.bind List.head? := by
  induction ps with
  | nil => rfl
  | cons p ps ih =>
      cases p with
      | nil => simpa using ih
      | cons c p => simp

lemma hasDelimiter_flatten (ps : List (List Char)) :
    hasDelimiter ps.flatten = false ↔ PlainPieces ps := by
  induction ps with
  | nil => simp [hasDelimiter, PlainPieces]
  | cons p ps ih =>
      rw [List.flatten_cons, hasDelimiter_append, Bool.or_eq_false_iff, Bool.or_eq_false_iff, ih]
      unfold PlainPieces
      cases p with
      | nil => simp [hasDelimiter, straddles]
      | cons c p =>
          have hhead := head_flatten_filter ps
          rw [List.filter_cons_of_pos (by simp), List.isChain_cons, List.forall_mem_cons]
          have hstraddle : straddles (c :: p) ps.flatten = false ↔
              ∀ q ∈ (ps.filter (· ≠ [])).head?, straddles (c :: p) q = false := by
            unfold straddles
            rw [hhead]
            cases (ps.filter (· ≠ [])).head? <;> simp
          rw [hstraddle]
          tauto

end Delimiters

end Loker.Template
