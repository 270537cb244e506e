import Loker.Template
import Loker.Programs

/-! The placeholders that a prompt template is meant to have, against those that the engine's
pattern finds in it. -/

namespace Loker.TemplateReading

open TextOps Programs Template

section Reading

/-- A character outside of braces, or what stands between two braces and the next closing two. -/
inductive Token where
  | literal (c : Char)
  | occurrence (body : List Char)
  deriving DecidableEq, Repr

def Token.raw : Token → List Char
  | .literal c => [c]
  | .occurrence body => '{' :: '{' :: (body ++ ['}', '}'])

/-- The text before the first closing braces. -/
def untilClosing : List Char → Option (List Char)
  | [] => none
  | c :: cs =>
      if ['}', '}'].isPrefixOf (c :: cs) then some [] else (untilClosing cs).map (c :: ·)

def occurrenceAt : List Char → Option (List Char)
  | '{' :: '{' :: rest => untilClosing rest
  | _ => none

/-- The template from the left; `skip` counts the characters of the last occurrence still to
pass. -/
def tokens : ℕ → List Char → List Token
  | _, [] => []
  | skip + 1, _ :: cs => tokens skip cs
  | 0, c :: cs =>
      match occurrenceAt (c :: cs) with
      | some body => .occurrence body :: tokens (body.length + 3) cs
      | none => .literal c :: tokens 0 cs

/-- There is something between the braces, and no brace that closes only once. -/
def Token.Regular : Token → Prop
  | .literal _ => True
  | .occurrence body => body ≠ [] ∧ '}' ∉ body

instance (t : Token) : Decidable t.Regular :=
  match t with
  | .literal _ => inferInstanceAs (Decidable True)
  | .occurrence body => inferInstanceAs (Decidable (body ≠ [] ∧ '}' ∉ body))

def Regular (template : String) : Prop := ∀ t ∈ tokens 0 template.toList, t.Regular

instance (template : String) : Decidable (Regular template) :=
  inferInstanceAs (Decidable (∀ t ∈ tokens 0 template.toList, t.Regular))

variable {cs body : List Char}

lemma untilClosing_split (h : untilClosing cs = some body) :
    ∃ rest, cs = body ++ '}' :: '}' :: rest := by
  induction cs generalizing body with
  | nil => cases h
  | cons c cs ih =>
      rw [untilClosing] at h
      split at h
      · next hclosing =>
        cases h
        obtain ⟨rest, hrest⟩ := List.isPrefixOf_iff_prefix.mp hclosing
        exact ⟨rest, hrest.symm⟩
      · obtain ⟨inner, hinner, rfl⟩ := Option.map_eq_some_iff.mp h
        obtain ⟨rest, rfl⟩ := ih hinner
        exact ⟨rest, rfl⟩

lemma occurrenceAt_eq_some (h : occurrenceAt cs = some body) :
    ∃ rest, cs = '{' :: '{' :: rest ∧ untilClosing rest = some body := by
  unfold occurrenceAt at h
  split at h
  · next rest => exact ⟨rest, rfl, h⟩
  · cases h

/-- The tokens put together again are the template. -/
lemma tokens_raw (n : ℕ) (cs : List Char) : (tokens n cs).flatMap Token.raw = cs.drop n := by
  induction cs generalizing n with
  | nil => cases n <;> rfl
  | cons c cs ih =>
      cases n with
      | succ n => exact ih n
      | zero =>
          rw [tokens, List.drop_zero]
          cases hoccurs : occurrenceAt (c :: cs) with
          | none => exact congrArg (c :: ·) (ih 0)
          | some body =>
              obtain ⟨rest, hrest, hbody⟩ := occurrenceAt_eq_some hoccurs
              obtain ⟨tail, rfl⟩ := untilClosing_split hbody
              obtain ⟨rfl, rfl⟩ := List.cons.inj hrest
              change Token.raw _ ++ List.flatMap Token.raw _ = _
              rw [ih]
              simp [Token.raw]

end Reading

section Pattern

variable {cs body : List Char}

/-- A text whose first brace closes only once. -/
lemma untilClosing_lone (h : untilClosing cs = some body) (hlone : '}' ∈ body) :
    ['}', '}'].isPrefixOf (cs.dropWhile (· ≠ '}')) = false := by
  induction cs generalizing body with
  | nil => cases h
  | cons c cs ih =>
      rw [untilClosing] at h
      split at h
      · cases h
        cases hlone
      · next hclosing =>
        obtain ⟨inner, hinner, rfl⟩ := Option.map_eq_some_iff.mp h
        by_cases hc : c = '}'
        · subst hc
          rw [List.dropWhile_cons_of_neg (by simp)]
          exact Bool.eq_false_iff.mpr hclosing
        · rw [List.dropWhile_cons_of_pos (by simpa using hc)]
          refine ih hinner ?_
          exact (List.mem_cons.mp hlone).resolve_left fun heq => hc heq.symm

lemma untilClosing_none (h : untilClosing cs = none) :
    ['}', '}'].isPrefixOf (cs.dropWhile (· ≠ '}')) = false := by
  induction cs with
  | nil => rfl
  | cons c cs ih =>
      rw [untilClosing] at h
      split at h
      · cases h
      · next hclosing =>
        by_cases hc : c = '}'
        · subst hc
          rw [List.dropWhile_cons_of_neg (by simp)]
          exact Bool.eq_false_iff.mpr hclosing
        · rw [List.dropWhile_cons_of_pos (by simpa using hc)]
          exact ih (Option.map_eq_none_iff.mp h)

lemma drop_takeWhile (p : Char → Bool) (cs : List Char) :
    cs.drop (cs.takeWhile p).length = cs.dropWhile p := by
  have hsplit := List.takeWhile_append_dropWhile (p := p) (l := cs)
  calc cs.drop (cs.takeWhile p).length
      = (cs.takeWhile p ++ cs.dropWhile p).drop (cs.takeWhile p).length := by rw [hsplit]
    _ = cs.dropWhile p := List.drop_left

lemma placeholderAt_of_closed_once {rest : List Char}
    (h : ['}', '}'].isPrefixOf (rest.dropWhile (· ≠ '}')) = false) :
    placeholderAt ('{' :: '{' :: rest) = none := by
  rw [placeholderAt]
  simp only [drop_takeWhile, h]
  simp

/-- Where nothing occurs the pattern does not match. -/
lemma placeholderAt_of_none (h : occurrenceAt cs = none) : placeholderAt cs = none := by
  unfold occurrenceAt at h
  split at h
  · exact placeholderAt_of_closed_once (untilClosing_none h)
  · next hother =>
    unfold placeholderAt
    split
    · next rest => exact (hother rest rfl).elim
    · rfl

lemma placeholderAt_of_regular (h : occurrenceAt cs = some body)
    (hregular : (Token.occurrence body).Regular) :
    placeholderAt cs = some (String.ofList (capture body), body.length + 4) := by
  obtain ⟨rest, rfl, hbody⟩ := occurrenceAt_eq_some h
  obtain ⟨tail, rfl⟩ := untilClosing_split hbody
  obtain ⟨hne, hno⟩ := hregular
  have htake : (body ++ '}' :: '}' :: tail).takeWhile (· ≠ '}') = body := by
    rw [List.takeWhile_append_of_pos, List.takeWhile_cons_of_neg (by simp), List.append_nil]
    intro c hc
    have hbrace : c ≠ '}' := fun heq => hno (heq ▸ hc)
    simpa using hbrace
  rw [placeholderAt]
  simp only [htake, List.drop_left]
  rw [if_pos ⟨hne, rfl⟩]

lemma placeholderAt_of_irregular (h : occurrenceAt cs = some body)
    (hirregular : ¬ (Token.occurrence body).Regular) : placeholderAt cs = none := by
  obtain ⟨rest, rfl, hbody⟩ := occurrenceAt_eq_some h
  by_cases hlone : '}' ∈ body
  · exact placeholderAt_of_closed_once (untilClosing_lone hbody hlone)
  · have hnil : body = [] := by
      by_contra hne
      exact hirregular ⟨hne, hlone⟩
    subst hnil
    obtain ⟨tail, rfl⟩ := untilClosing_split hbody
    rw [placeholderAt]
    simp

/-- What the engine is to make of a token. -/
def Token.segment : Token → Segment
  | .literal c => .literal c
  | .occurrence body => .placeholder (String.ofList (capture body))

/-- The engine reads a template as it is meant exactly when its occurrences are regular. -/
lemma segments_eq_iff (n : ℕ) (cs : List Char) :
    segments n cs = (tokens n cs).map Token.segment ↔ ∀ t ∈ tokens n cs, t.Regular := by
  induction cs generalizing n with
  | nil => cases n <;> simp [segments, tokens]
  | cons c cs ih =>
      cases n with
      | succ n => exact ih n
      | zero =>
          rw [segments, tokens]
          cases hoccurs : occurrenceAt (c :: cs) with
          | none =>
              rw [placeholderAt_of_none hoccurs]
              simp only [List.map_cons, Token.segment, List.cons.injEq, true_and, ih,
                List.forall_mem_cons, Token.Regular]
          | some body =>
              by_cases hregular : (Token.occurrence body).Regular
              · rw [placeholderAt_of_regular hoccurs hregular]
                simp only [List.map_cons, Token.segment, List.cons.injEq, true_and,
                  List.forall_mem_cons, hregular]
                exact ih (body.length + 3)
              · rw [placeholderAt_of_irregular hoccurs hregular]
                simp [Token.segment, hregular]

end Pattern

section Rendering

variable {template out : String} {ctx : TemplateContext}

/-- The text a token is to be rendered as: its own, or the value of its placeholder as it is. -/
def Stands (ctx : TemplateContext) : Token → String → Prop
  | .literal c, text => text = String.singleton c
  | .occurrence body, text => resolvePlaceholder (String.ofList (capture body)) ctx = .ok text

/-- The output is put together from the tokens' texts, and every occurrence was resolved. -/
structure Strict (template : String) (ctx : TemplateContext) (out : String) : Prop where
  read : segments 0 template.toList = (tokens 0 template.toList).map Token.segment
  texts : ∃ texts, List.Forall₂ (Stands ctx) (tokens 0 template.toList) texts ∧
    out = String.join texts

lemma mapM_segmentText {ss : List Segment} {texts : List String}
    (h : ss.mapM (segmentText ctx) = .ok texts) :
    List.Forall₂ (fun s text => segmentText ctx s = .ok text) ss texts := by
  induction ss generalizing texts with
  | nil =>
      cases h
      exact List.Forall₂.nil
  | cons s ss ih =>
      obtain ⟨text, rest, hfirst, hrest, rfl⟩ := mapM_cons_eq_ok.mp h
      exact List.Forall₂.cons hfirst (ih hrest)

/-- Every rendered text is put together from the pieces that the engine found, in one pass. -/
lemma render_pieces (h : render template ctx = .ok out) :
    ∃ texts, List.Forall₂ (fun s text => segmentText ctx s = .ok text)
      (segments 0 template.toList) texts ∧ out = String.join texts := by
  unfold render pieces at h
  cases htexts : (segments 0 template.toList).mapM (segmentText ctx) with
  | error e =>
      rw [htexts] at h
      cases h
  | ok texts =>
      rw [htexts] at h
      cases h
      exact ⟨texts, mapM_segmentText htexts, rfl⟩

lemma stands_of_segmentText {t : Token} {text : String} (h : segmentText ctx t.segment = .ok text) :
    Stands ctx t text := by
  cases t with
  | literal c =>
      cases h
      rfl
  | occurrence body => exact h

/-- A rendered template is the text of its pieces with no value read again; its occurrences were
all resolved exactly when none is empty or has a brace in it that closes only once. -/
theorem render_strict_iff (h : render template ctx = .ok out) :
    (∃ texts, List.Forall₂ (fun s text => segmentText ctx s = .ok text)
      (segments 0 template.toList) texts ∧ out = String.join texts) ∧
    (Strict template ctx out ↔ Regular template) := by
  obtain ⟨texts, hpieces, hout⟩ := render_pieces h
  refine ⟨⟨texts, hpieces, hout⟩, ?_⟩
  constructor
  · intro hstrict
    exact (segments_eq_iff 0 _).mp hstrict.read
  · intro hregular
    have hread := (segments_eq_iff 0 _).mpr hregular
    rw [hread, List.forall₂_map_left_iff] at hpieces
    exact ⟨hread, texts, hpieces.imp fun _ _ => stands_of_segmentText, hout⟩

/-- The specification talks about placeholders. -/
def nested : TemplateContext :=
  ⟨some "use \x7b\x7b x \x7d\x7d", fun _ => none,
    fun name => if name = "a\x7db" then some "v" else none⟩

theorem render_strict_nested :
    render "do \x7b\x7b spec \x7d\x7d!" nested = .ok "do use \x7b\x7b x \x7d\x7d!" ∧
      Strict "do \x7b\x7b spec \x7d\x7d!" nested "do use \x7b\x7b x \x7d\x7d!" := by
  have hrender : render "do \x7b\x7b spec \x7d\x7d!" nested = .ok "do use \x7b\x7b x \x7d\x7d!" := by
    decide
  have hregular : Regular "do \x7b\x7b spec \x7d\x7d!" := by decide
  exact ⟨hrender, (render_strict_iff hrender).2.mpr hregular⟩

/-- Nothing between the braces, or a brace that closes only once: the occurrence is passed on. -/
theorem occurrences_passed_on :
    render "\x7b\x7b\x7d\x7d" nested = .ok "\x7b\x7b\x7d\x7d" ∧
      render "\x7b\x7b var.a\x7db \x7d\x7d" nested = .ok "\x7b\x7b var.a\x7db \x7d\x7d" ∧
      resolvePlaceholder "var.a\x7db" nested = .ok "v" ∧
      ¬ Strict "\x7b\x7b\x7d\x7d" nested "\x7b\x7b\x7d\x7d" ∧
      ¬ Strict "\x7b\x7b var.a\x7db \x7d\x7d" nested "\x7b\x7b var.a\x7db \x7d\x7d" := by
  refine ⟨by decide, by decide, by decide, fun h => ?_, fun h => ?_⟩
  · exact absurd h.read (by decide)
  · exact absurd h.read (by decide)

end Rendering

end Loker.TemplateReading
