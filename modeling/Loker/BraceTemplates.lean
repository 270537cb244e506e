import Mathlib

/-! Templates with named placeholders in braces: a brace that opens no placeholder keeps the
text up to the next closing brace. -/

namespace Loker.BraceTemplates

inductive Piece (F : Type) where
  | plain (c : Char)
  | field (f : F)
  | braced (body : List Char)
  | unclosed (rest : List Char)
  deriving DecidableEq, Repr

section Pieces

variable {F : Type} (name : F → List Char)

def placeholder (f : F) : List Char := '{' :: (name f ++ ['}'])

def Piece.source : Piece F → List Char
  | .plain c => [c]
  | .field f => placeholder name f
  | .braced body => '{' :: (body ++ ['}'])
  | .unclosed rest => '{' :: rest

def sourceOf (ps : List (Piece F)) : List Char := ps.flatMap (Piece.source name)

/-- Everything but the placeholders stands for itself. -/
def Piece.shown (value : F → List Char) : Piece F → List Char
  | .field f => value f
  | .plain c => [c]
  | .braced body => '{' :: (body ++ ['}'])
  | .unclosed rest => '{' :: rest

def rendered (value : F → List Char) (ps : List (Piece F)) : List Char :=
  ps.flatMap (Piece.shown value)

/-- The text is made up of these pieces. -/
inductive Reads : List Char → List (Piece F) → Prop
  | nil : Reads [] []
  | plain {c : Char} {cs : List Char} {ps : List (Piece F)} (hc : c ≠ '{') (h : Reads cs ps) :
      Reads (c :: cs) (.plain c :: ps)
  | field {f : F} {cs : List Char} {ps : List (Piece F)} (h : Reads cs ps) :
      Reads (placeholder name f ++ cs) (.field f :: ps)
  | braced {body cs : List Char} {ps : List (Piece F)} (hend : '}' ∉ body)
      (hother : ∀ f, name f ≠ body) (h : Reads cs ps) :
      Reads ('{' :: (body ++ '}' :: cs)) (.braced body :: ps)
  | unclosed {rest : List Char} (hend : '}' ∉ rest) : Reads ('{' :: rest) [.unclosed rest]

/-- The names can be told apart, from each other and from the braces. -/
structure Names : Prop where
  opening : ∀ f, '{' ∉ name f
  closing : ∀ f, '}' ∉ name f
  injective : Function.Injective name

/-- The placeholder that starts after `before` is a piece. -/
def Standing (ps : List (Piece F)) (f : F) (before : List Char) : Prop :=
  ∃ left right, ps = left ++ .field f :: right ∧ sourceOf name left = before

/-- The placeholder that starts after `before` ends a braced piece that is none. -/
def Enclosed (ps : List (Piece F)) (f : F) (before : List Char) : Prop :=
  ∃ left body right inside, ps = left ++ .braced body :: right ∧
    before = sourceOf name left ++ '{' :: inside ∧ body ++ ['}'] = inside ++ placeholder name f

end Pieces

section Reading

variable {F : Type} {name : F → List Char} {cs before after : List Char} {ps qs : List (Piece F)}
  {f : F}

lemma upTo_unique {a b x y : List Char} (ha : '}' ∉ a) (hb : '}' ∉ b)
    (h : a ++ '}' :: x = b ++ '}' :: y) : a = b ∧ x = y := by
  induction a generalizing b with
  | nil =>
    cases b with
    | nil => exact ⟨rfl, (List.cons.inj h).2⟩
    | cons c b =>
      have hc := (List.cons.inj h).1
      subst hc
      exact absurd List.mem_cons_self hb
  | cons c a ih =>
    cases b with
    | nil =>
      have hc := (List.cons.inj h).1
      subst hc
      exact absurd List.mem_cons_self ha
    | cons d b =>
      obtain ⟨rfl, hrest⟩ := List.cons.inj h
      obtain ⟨rfl, hxy⟩ := ih (fun hmem => ha (List.mem_cons_of_mem _ hmem))
        (fun hmem => hb (List.mem_cons_of_mem _ hmem)) hrest
      exact ⟨rfl, hxy⟩

lemma placeholder_append (f : F) (cs : List Char) :
    placeholder name f ++ cs = '{' :: (name f ++ '}' :: cs) := by
  rw [placeholder, List.cons_append, List.append_assoc, List.singleton_append]

/-- What an opening brace stands for is decided by the text up to the next closing brace. -/
lemma placeholder_prefix_iff (hnames : Names name) {body : List Char} (hend : '}' ∉ body) :
    placeholder name f <+: '{' :: (body ++ '}' :: cs) ↔ name f = body := by
  constructor
  · intro ⟨rest, hrest⟩
    rw [placeholder_append] at hrest
    exact (upTo_unique (hnames.closing f) hend (List.cons.inj hrest).2).1
  · intro hbody
    rw [← hbody, ← placeholder_append]
    exact List.prefix_append _ _

lemma not_placeholder_unclosed {rest : List Char} (hend : '}' ∉ rest) :
    ¬ placeholder name f <+: '{' :: rest := by
  intro hpre
  have hmem : '}' ∈ placeholder name f :=
    List.mem_cons_of_mem _ (List.mem_append_right _ List.mem_cons_self)
  cases hpre.subset hmem with
  | tail _ hrest => exact hend hrest

lemma exists_reads (cs : List Char) : ∃ ps, Reads name cs ps := by
  induction hlen : cs.length using Nat.strong_induction_on generalizing cs with
  | _ n ih =>
    cases cs with
    | nil => exact ⟨[], .nil⟩
    | cons c cs =>
      rw [List.length_cons] at hlen
      by_cases hc : c = '{'
      · subst hc
        by_cases hclosed : '}' ∈ cs
        · obtain ⟨body, rest, hcs, hend⟩ := List.eq_append_cons_of_mem hclosed
          subst hcs
          rw [List.length_append, List.length_cons] at hlen
          obtain ⟨ps, hps⟩ := ih rest.length (by omega) rest rfl
          by_cases hname : ∃ f, name f = body
          · obtain ⟨f, rfl⟩ := hname
            rw [← placeholder_append]
            exact ⟨_, hps.field⟩
          · exact ⟨_, hps.braced hend fun f hf => hname ⟨f, hf⟩⟩
        · exact ⟨_, .unclosed hclosed⟩
      · obtain ⟨ps, hps⟩ := ih cs.length (by omega) cs rfl
        exact ⟨_, hps.plain hc⟩

lemma Reads.source (h : Reads name cs ps) : sourceOf name ps = cs := by
  induction h with
  | nil => rfl
  | plain hc _ ih =>
    change _ :: sourceOf name _ = _
    rw [ih]
  | field _ ih =>
    change placeholder name _ ++ sourceOf name _ = _
    rw [ih]
  | @braced body _ _ _ _ _ ih =>
    change '{' :: (body ++ ['}']) ++ sourceOf name _ = _
    rw [ih, List.cons_append, List.append_assoc, List.singleton_append]
  | @unclosed rest _ => exact List.append_nil ('{' :: rest)

/-- A text is read in one way only. -/
lemma Reads.unique (hnames : Names name) (h : Reads name cs ps) (h' : Reads name cs qs) :
    ps = qs := by
  induction h generalizing qs with
  | nil =>
    cases h' with
    | nil => rfl
  | plain hc _ ih =>
    cases h' with
    | plain _ hrest => rw [ih hrest]
    | braced => exact absurd rfl hc
    | unclosed => exact absurd rfl hc
    | field => exact absurd rfl hc
  | @field f cs _ _ ih =>
    generalize htext : placeholder name f ++ cs = text at h'
    rw [placeholder_append] at htext
    cases h' with
    | nil => cases htext
    | plain hc => exact absurd (List.cons.inj htext).1.symm hc
    | @field g cs' _ hrest =>
      rw [placeholder_append] at htext
      obtain ⟨hname, rfl⟩ :=
        upTo_unique (hnames.closing f) (hnames.closing g) (List.cons.inj htext).2
      rw [hnames.injective hname, ih hrest]
    | braced hend hother _ =>
      exact absurd (upTo_unique (hnames.closing f) hend (List.cons.inj htext).2).1 (hother f)
    | unclosed hend =>
      rw [← (List.cons.inj htext).2] at hend
      exact absurd (List.mem_append_right _ List.mem_cons_self) hend
  | @braced body cs _ hend hother _ ih =>
    generalize htext : '{' :: (body ++ '}' :: cs) = text at h'
    cases h' with
    | nil => cases htext
    | plain hc => exact absurd (List.cons.inj htext).1.symm hc
    | @field g cs' _ hrest =>
      rw [placeholder_append] at htext
      exact absurd (upTo_unique hend (hnames.closing g) (List.cons.inj htext).2).1.symm (hother g)
    | braced hend' _ hrest =>
      obtain ⟨rfl, rfl⟩ := upTo_unique hend hend' (List.cons.inj htext).2
      rw [ih hrest]
    | unclosed hend' =>
      rw [← (List.cons.inj htext).2] at hend'
      exact absurd (List.mem_append_right _ List.mem_cons_self) hend'
  | @unclosed rest hend =>
    generalize htext : '{' :: rest = text at h'
    cases h' with
    | nil => cases htext
    | plain hc => exact absurd (List.cons.inj htext).1.symm hc
    | @field g cs' _ _ =>
      rw [placeholder_append] at htext
      rw [(List.cons.inj htext).2] at hend
      exact absurd (List.mem_append_right _ List.mem_cons_self) hend
    | braced =>
      rw [(List.cons.inj htext).2] at hend
      exact absurd (List.mem_append_right _ List.mem_cons_self) hend
    | unclosed => rw [(List.cons.inj htext).2]

end Reading

section Occurrences

variable {F : Type} {name : F → List Char} {cs before after : List Char} {ps : List (Piece F)}
  {p : Piece F} {f : F}

lemma Standing.cons (h : Standing name ps f before) :
    Standing name (p :: ps) f (p.source name ++ before) := by
  obtain ⟨left, right, rfl, rfl⟩ := h
  exact ⟨p :: left, right, rfl, rfl⟩

lemma Enclosed.cons (h : Enclosed name ps f before) :
    Enclosed name (p :: ps) f (p.source name ++ before) := by
  obtain ⟨left, body, right, inside, rfl, rfl, hbody⟩ := h
  refine ⟨p :: left, body, right, inside, rfl, ?_, hbody⟩
  rw [← List.append_assoc]
  rfl

/-- A placeholder starts after a piece or within it. -/
lemma starts_after_or_within {piece rest : List Char}
    (h : piece ++ rest = before ++ (placeholder name f ++ after)) :
    (∃ later, before = piece ++ later ∧ rest = later ++ (placeholder name f ++ after)) ∨
      ∃ tail, piece = before ++ '{' :: tail ∧ name f ++ '}' :: after = tail ++ rest := by
  rcases List.append_eq_append_iff.mp h with hafter | ⟨inside, hpiece, hinside⟩
  · exact Or.inl hafter
  · cases inside with
    | nil =>
      left
      refine ⟨[], ?_, hinside.symm⟩
      rw [hpiece, List.append_nil, List.append_nil]
    | cons c tail =>
      rw [placeholder_append] at hinside
      obtain ⟨rfl, htail⟩ := List.cons.inj hinside
      exact Or.inr ⟨tail, hpiece, htail⟩

/-- A braced piece that a placeholder starts in ends with it. -/
lemma enclosed_of_within {body tail rest inside : List Char} (hnames : Names name)
    (hend : '}' ∉ body) (hbody : body ++ ['}'] = inside ++ '{' :: tail)
    (htail : name f ++ '}' :: after = tail ++ rest) :
    body ++ ['}'] = inside ++ placeholder name f := by
  rcases List.eq_nil_or_concat' tail with rfl | ⟨front, c, rfl⟩
  · have hlast := congrArg List.getLast? hbody
    rw [List.getLast?_concat, List.getLast?_concat] at hlast
    cases hlast
  · have hsplit : body ++ ['}'] = (inside ++ '{' :: front) ++ [c] := by
      rw [hbody, List.append_assoc, List.cons_append]
    obtain ⟨hfront, hc⟩ := List.append_inj' hsplit rfl
    obtain rfl := (List.cons.inj hc).1
    have hopen : '}' ∉ front := by
      intro hmem
      rw [hfront] at hend
      exact hend (List.mem_append_right _ (List.mem_cons_of_mem _ hmem))
    rw [List.append_assoc, List.singleton_append] at htail
    obtain ⟨rfl, _⟩ := upTo_unique (hnames.closing f) hopen htail
    exact hbody

/-- Wherever a placeholder is written, it is a piece or it ends a braced piece. -/
lemma Reads.occurrence (hnames : Names name) (h : Reads name cs ps)
    (hwritten : cs = before ++ (placeholder name f ++ after)) :
    Standing name ps f before ∨ Enclosed name ps f before := by
  induction h generalizing before with
  | nil =>
    rw [placeholder_append] at hwritten
    have hlen := congrArg List.length hwritten
    rw [List.length_append, List.length_cons, List.length_nil] at hlen
    omega
  | @plain c cs ps hc _ ih =>
    cases before with
    | nil =>
      rw [List.nil_append, placeholder_append] at hwritten
      exact absurd (List.cons.inj hwritten).1 hc
    | cons d before =>
      obtain ⟨rfl, hrest⟩ := List.cons.inj hwritten
      exact (ih hrest).imp (Standing.cons (p := .plain c)) (Enclosed.cons (p := .plain c))
  | @field g cs ps _ ih =>
    rcases starts_after_or_within hwritten with ⟨later, rfl, hrest⟩ | ⟨tail, hpiece, htail⟩
    · exact (ih hrest).imp (Standing.cons (p := .field g)) (Enclosed.cons (p := .field g))
    · cases before with
      | nil =>
        rw [← (List.cons.inj hpiece).2, List.append_assoc, List.singleton_append] at htail
        have hname := (upTo_unique (hnames.closing f) (hnames.closing g) htail).1
        rw [hnames.injective hname]
        exact Or.inl ⟨[], ps, rfl, rfl⟩
      | cons c inside =>
        have hmem : '{' ∈ name g ++ ['}'] := by
          rw [(List.cons.inj hpiece).2]
          exact List.mem_append_right _ List.mem_cons_self
        rcases List.mem_append.mp hmem with hmem | hmem
        · exact absurd hmem (hnames.opening g)
        · cases List.mem_singleton.mp hmem
  | @braced body cs ps hend hother _ ih =>
    have hsplit : '{' :: (body ++ ['}']) ++ cs = before ++ (placeholder name f ++ after) := by
      rw [List.cons_append, List.append_assoc, List.singleton_append]
      exact hwritten
    rcases starts_after_or_within hsplit with ⟨later, rfl, hrest⟩ | ⟨tail, hpiece, htail⟩
    · exact (ih hrest).imp (Standing.cons (p := .braced body)) (Enclosed.cons (p := .braced body))
    · cases before with
      | nil =>
        rw [← (List.cons.inj hpiece).2, List.append_assoc, List.singleton_append] at htail
        exact absurd (upTo_unique (hnames.closing f) hend htail).1 (hother f)
      | cons c inside =>
        obtain ⟨rfl, hbody⟩ := List.cons.inj hpiece
        exact Or.inr ⟨[], body, ps, inside, rfl, rfl, enclosed_of_within hnames hend hbody htail⟩
  | @unclosed rest hend =>
    have hmem : '}' ∈ '{' :: rest := by
      rw [hwritten, placeholder_append]
      exact List.mem_append_right _
        (List.mem_cons_of_mem _ (List.mem_append_right _ List.mem_cons_self))
    cases hmem with
    | tail _ hrest => exact absurd hrest hend

end Occurrences

section Expansion

variable {F : Type} (name : F → List Char) (fields : List F) (value : F → List Char)

/-- Replaces every placeholder, whatever stands around it; `skip` counts the characters already
passed. -/
def expandFrom : ℕ → List Char → List Char
  | _, [] => []
  | skip + 1, _ :: cs => expandFrom skip cs
  | 0, c :: cs =>
      match fields.find? fun f => (placeholder name f).isPrefixOf (c :: cs) with
      | some f => value f ++ expandFrom (name f ++ ['}']).length cs
      | none => c :: expandFrom 0 cs

variable {name fields value} {cs : List Char} {ps : List (Piece F)}

lemma expandFrom_skip (xs : List Char) :
    expandFrom name fields value xs.length (xs ++ cs) = expandFrom name fields value 0 cs := by
  induction xs with
  | nil => rfl
  | cons c xs ih => exact ih

lemma find_field (hnames : Names name) {f : F} (hf : f ∈ fields) :
    (fields.find? fun g => (placeholder name g).isPrefixOf (placeholder name f ++ cs)) =
      some f := by
  cases hg : fields.find? fun g => (placeholder name g).isPrefixOf (placeholder name f ++ cs) with
  | none =>
    have hnot := List.find?_eq_none.mp hg f hf
    rw [List.isPrefixOf_iff_prefix] at hnot
    exact absurd (List.prefix_append _ _) hnot
  | some g =>
    have hpre := List.find?_some hg
    rw [List.isPrefixOf_iff_prefix, placeholder_append,
      placeholder_prefix_iff hnames (hnames.closing f)] at hpre
    rw [hnames.injective hpre]

lemma find_none (h : ∀ f, ¬ placeholder name f <+: cs) :
    (fields.find? fun f => (placeholder name f).isPrefixOf cs) = none := by
  rw [List.find?_eq_none]
  intro f _ hpre
  rw [List.isPrefixOf_iff_prefix] at hpre
  exact h f hpre

lemma expandFrom_field (hnames : Names name) {f : F} (hf : f ∈ fields) :
    expandFrom name fields value 0 (placeholder name f ++ cs) =
      value f ++ expandFrom name fields value 0 cs := by
  have hfind : (fields.find? fun g =>
      (placeholder name g).isPrefixOf (placeholder name f ++ cs)) = some f := find_field hnames hf
  rw [placeholder, List.cons_append] at hfind ⊢
  rw [expandFrom, hfind]
  dsimp only
  rw [expandFrom_skip]

lemma expandFrom_literal {xs : List Char}
    (h : ∀ i < xs.length, ∀ f, ¬ placeholder name f <+: xs.drop i ++ cs) :
    expandFrom name fields value 0 (xs ++ cs) = xs ++ expandFrom name fields value 0 cs := by
  induction xs with
  | nil => rfl
  | cons c xs ih =>
    have hfind : (fields.find? fun f => (placeholder name f).isPrefixOf (c :: (xs ++ cs))) =
        none := find_none (h 0 (Nat.succ_pos _))
    rw [List.cons_append, expandFrom, hfind]
    dsimp only
    rw [ih fun i hi => h (i + 1) (Nat.succ_lt_succ hi), List.cons_append]

/-- A literal piece holds no placeholder but those that end it. -/
lemma not_written_in {p : Piece F} {i : ℕ} {f : F} (hnames : Names name)
    (h : Reads name ((p.source name) ++ cs) (p :: ps)) (hp : p ≠ .field f)
    (hfree : ∀ before, ¬ Enclosed name (p :: ps) f before) (hi : i < (p.source name).length) :
    ¬ placeholder name f <+: (p.source name).drop i ++ cs := by
  intro ⟨after, hafter⟩
  have hwritten : p.source name ++ cs =
      (p.source name).take i ++ (placeholder name f ++ after) := by
    rw [hafter, ← List.append_assoc, List.take_append_drop]
  rcases h.occurrence hnames hwritten with ⟨left, right, hps, hbefore⟩ | henclosed
  · cases left with
    | nil => exact hp (List.cons.inj hps).1
    | cons q left =>
      obtain ⟨rfl, _⟩ := List.cons.inj hps
      have hlen := congrArg List.length hbefore
      rw [sourceOf, List.flatMap_cons, List.length_append, List.length_take] at hlen
      omega
  · exact hfree _ henclosed

/-- Without placeholders in braced pieces, every placeholder is replaced. -/
lemma expand_rendered (hnames : Names name) (hall : ∀ f, f ∈ fields) (h : Reads name cs ps)
    (hfree : ∀ f before, ¬ Enclosed name ps f before) :
    expandFrom name fields value 0 cs = rendered value ps := by
  induction h with
  | nil => rfl
  | @plain c cs ps hc hread ih =>
    have hrest := ih fun f before henclosed => hfree f _ henclosed.cons
    have hcopied : expandFrom name fields value 0 ([c] ++ cs) =
        [c] ++ expandFrom name fields value 0 cs :=
      expandFrom_literal fun i hi f =>
        not_written_in (p := .plain c) hnames (hread.plain hc) nofun (hfree f) hi
    rw [hrest] at hcopied
    exact hcopied
  | @field f cs ps hread ih =>
    have hrest := ih fun f before henclosed => hfree f _ henclosed.cons
    rw [expandFrom_field hnames (hall f), hrest]
    rfl
  | @braced body cs ps hend hother hread ih =>
    have hrest := ih fun f before henclosed => hfree f _ henclosed.cons
    have hsplit : '{' :: (body ++ '}' :: cs) = '{' :: (body ++ ['}']) ++ cs := by
      rw [List.cons_append, List.append_assoc, List.singleton_append]
    have hwhole := hread.braced hend hother
    rw [hsplit] at hwhole ⊢
    have hcopied : expandFrom name fields value 0 ('{' :: (body ++ ['}']) ++ cs) =
        '{' :: (body ++ ['}']) ++ expandFrom name fields value 0 cs :=
      expandFrom_literal fun i hi f =>
        not_written_in (p := .braced body) hnames hwhole nofun (hfree f) hi
    rw [hrest] at hcopied
    exact hcopied
  | @unclosed rest hend =>
    have hwhole : Reads name ('{' :: rest ++ []) [.unclosed rest] := by
      rw [List.append_nil]
      exact .unclosed hend
    have hcopied : expandFrom name fields value 0 ('{' :: rest ++ []) =
        '{' :: rest ++ expandFrom name fields value 0 [] :=
      expandFrom_literal fun i hi f =>
        not_written_in (p := .unclosed rest) hnames hwhole nofun (hfree f) hi
    rw [List.append_nil] at hcopied
    exact hcopied

end Expansion

end Loker.BraceTemplates
