import Loker.LoopVariables

/-! What a loop step's backend is given: the workflow's text, the outputs put into it, and the loop
variables of both. -/

namespace Loker.LoopPrompts

open TextOps JsonReader Template LoopVariables

section Engine

/-- What a template is rendered with: the values of the expressions, or the loop's item. -/
inductive Context where
  | steps (values : List Char → Option (List Char))
  | loop (item : Json) (index : ℕ)

/-- A single line break at the end of a template is taken away. -/
def chomp (t : List Char) : List Char := if t.getLast? = some '\n' then t.dropLast else t

def itemField : Json → List Char → Option Json
  | .object members, name => members.lookup name
  | _, _ => none

def loopValue (display : Json → List Char) (item : Json) (index : ℕ) :
    LoopPath → Option (List Char)
  | .item => some (display item)
  | .field name => (itemField item name).map display
  | .index => some index.repr.toList

/-- The template engine, as far as templates of text, raw blocks, expressions and loop variables
go. -/
structure Engine where
  render : Context → List Char → Option (List Char)
  display : Json → List Char
  display_string : ∀ s, display (.string s) = s
  plain : ∀ ctx t, hasDelimiter t = false → render ctx t = some (chomp t)
  loopVar : ∀ item index t (m : LoopVar) rest, PlainBefore t →
    render (.loop item index) (t ++ (m.source ++ rest)) =
      (loopValue display item index m.path).bind fun v =>
        (render (.loop item index) rest).map fun r => t ++ (v ++ r)
  expression : ∀ values t (e : Expression) rest, PlainBefore t →
    render (.steps values) (t ++ (e.source ++ rest)) =
      (values e.body).bind fun v => (render (.steps values) rest).map fun r => t ++ (v ++ r)
  raw : ∀ values t (m : LoopVar) rest, PlainBefore t →
    render (.steps values) (t ++ (rawOpen ++ (m.source ++ rawClose) ++ rest)) =
      (render (.steps values) rest).map fun r => t ++ (m.source ++ r)

end Engine

section Passes

def interpolateWithFields (E : Engine) (values : List Char → Option (List Char))
    (template : List Char) : Option (List Char) :=
  E.render (.steps values) (protectLoopVars template)

def missingNote (name : List Char) : List Char :=
  "[item.".toList ++ (name ++ " not found]".toList)

/-- `ITEM_FIELD_RE` with what stands for a field that the item does not have. -/
def itemFieldAt (item : Json) (cs : List Char) : Option (List Char × ℕ) :=
  match loopVarAt cs with
  | some (.field name, rest) =>
      some (if (itemField item name).isSome then matched cs rest else missingNote name,
        (matched cs rest).length)
  | _ => none

/-- A template that cannot be rendered stays as it is. -/
def interpolateLoopVars (E : Engine) (template : List Char) (item : Json) (index : ℕ) :
    List Char :=
  let preProcessed := replaceMatches (itemFieldAt item) 0 template
  (E.render (.loop item index) preProcessed).getD preProcessed

end Passes

section Pieces

/-- A part of the prompt after the first pass: text and loop variables of the workflow file, and text
and loop variables that came in with a value. -/
inductive Piece where
  | author (t : List Char)
  | marker (m : LoopVar)
  | inserted (t : List Char)
  | foreign (m : LoopVar)

def Piece.source : Piece → List Char
  | .author t => t
  | .marker m => m.source
  | .inserted t => t
  | .foreign m => m.source

def source (ps : List Piece) : List Char := ps.flatMap Piece.source

@[simp] lemma source_cons (p : Piece) (ps : List Piece) : source (p :: ps) = p.source ++ source ps :=
  rfl

variable (E : Engine) (item : Json) (index : ℕ)

/-- What the workflow's author expects in the place of a loop variable. -/
def shown : LoopPath → List Char
  | .item => E.display item
  | .field name =>
      match itemField item name with
      | some v => E.display v
      | none => missingNote name
  | .index => index.repr.toList

def Piece.delivered : Piece → List Char
  | .author t => t
  | .marker m => shown E item index m.path
  | .inserted t => t
  | .foreign m => m.source

def Piece.atEnd : Piece → List Char
  | .author t => chomp t
  | p => p.delivered E item index

/-- The loop variables of the workflow file replaced, and the rest as it is: only the author's own
text may lose a line break at the end. -/
def delivered : List Piece → List Char
  | [] => []
  | p :: ps =>
      if source ps = [] then p.atEnd E item index else p.delivered E item index ++ delivered ps

/-- What the second pass makes of the pieces, with the text before them up to the last variable. -/
def filled : List Char → List Piece → List Char
  | t, [] => chomp t
  | t, .author a :: ps => filled (t ++ a) ps
  | t, .inserted a :: ps => filled (t ++ a) ps
  | t, .marker m :: ps => t ++ (shown E item index m.path ++ filled [] ps)
  | t, .foreign m :: ps => t ++ (shown E item index m.path ++ filled [] ps)

end Pieces

section Conditions

/-- Loop variables are the only delimiters, also over the bounds of the pieces. -/
def OnlyLoopVars : List Char → List Piece → Prop
  | t, [] => hasDelimiter t = false
  | t, .author a :: ps => OnlyLoopVars (t ++ a) ps
  | t, .inserted a :: ps => OnlyLoopVars (t ++ a) ps
  | t, .marker _ :: ps => PlainBefore t ∧ OnlyLoopVars [] ps
  | t, .foreign _ :: ps => PlainBefore t ∧ OnlyLoopVars [] ps

/-- The prompt ends in a line break that came in with a value. -/
def EndsInBreak : List Piece → Prop
  | [] => False
  | p :: ps =>
      if source ps = [] then ∃ a, p = .inserted a ∧ a.getLast? = some '\n' else EndsInBreak ps

/-- What came in holds no delimiter, makes none with its surroundings, and ends the prompt in no
line break. -/
structure Clean (ps : List Piece) : Prop where
  plain : OnlyLoopVars [] ps
  own : ∀ m, Piece.foreign m ∉ ps
  ending : ¬ EndsInBreak ps

def Delivered (E : Engine) (ps : List Piece) : Prop :=
  ∀ item index, interpolateLoopVars E (source ps) item index = delivered E item index ps

end Conditions

section SecondPass

variable {E : Engine} {item : Json} {index : ℕ} {t u : List Char} {ps : List Piece}

lemma chomp_append (hu : u.getLast? ≠ some '\n') (t : List Char) :
    chomp (u ++ t) = u ++ chomp t := by
  rcases List.eq_nil_or_concat t with rfl | ⟨l, c, rfl⟩
  · rw [List.append_nil, chomp, if_neg hu]
    exact (List.append_nil u).symm
  · rw [chomp, chomp, List.getLast?_append_of_ne_nil _ (by simp)]
    split
    · rw [List.dropLast_append_of_ne_nil (by simp)]
    · rfl

lemma chomp_append_of_ne_nil (u : List Char) (ht : t ≠ []) : chomp (u ++ t) = u ++ chomp t := by
  rw [chomp, chomp, List.getLast?_append_of_ne_nil _ ht]
  split
  · rw [List.dropLast_append_of_ne_nil ht]
  · rfl

lemma missingNote_last (name : List Char) : (missingNote name).getLast? = some ']' := by
  unfold missingNote
  rw [List.getLast?_append_of_ne_nil _ (by simp),
    List.getLast?_append_of_ne_nil _ (by decide)]
  rfl

lemma missingNote_ne_nil (name : List Char) : missingNote name ≠ [] := by
  unfold missingNote
  simp

lemma missingNote_free {name : List Char} (h : name.all isFieldChar = true) :
    '{' ∉ missingNote name := by
  unfold missingNote
  rw [List.mem_append, List.mem_append, not_or, not_or]
  refine ⟨by decide, fun hmem => ?_, by decide⟩
  have hc := List.all_eq_true.mp h '{' hmem
  revert hc
  decide

/-- Text without a delimiter before a section changes nothing. -/
lemma OnlyLoopVars.after (hu : PlainBefore u) (h : OnlyLoopVars t ps) :
    OnlyLoopVars (u ++ t) ps := by
  have hplain : ∀ v, hasDelimiter v = false → hasDelimiter (u ++ v) = false := by
    intro v hv
    rw [hasDelimiter_append, hu.plain, hv, straddles, decide_eq_false hu.last]
    rfl
  induction ps generalizing t with
  | nil => exact hplain t h
  | cons p ps ih =>
      cases p with
      | author a =>
          have hnext := ih (t := t ++ a) h
          rwa [← List.append_assoc] at hnext
      | inserted a =>
          have hnext := ih (t := t ++ a) h
          rwa [← List.append_assoc] at hnext
      | marker m =>
          refine ⟨?_, h.2⟩
          rw [PlainBefore, List.append_assoc]
          exact hplain _ h.1
      | foreign m =>
          refine ⟨?_, h.2⟩
          rw [PlainBefore, List.append_assoc]
          exact hplain _ h.1

lemma filled_after (hu : u.getLast? ≠ some '\n') (t : List Char) (ps : List Piece) :
    filled E item index (u ++ t) ps = u ++ filled E item index t ps := by
  induction ps generalizing t with
  | nil => exact chomp_append hu t
  | cons p ps ih =>
      cases p with
      | author a => rw [filled, filled, List.append_assoc, ih]
      | inserted a => rw [filled, filled, List.append_assoc, ih]
      | marker m => rw [filled, filled, List.append_assoc]
      | foreign m => rw [filled, filled, List.append_assoc]

lemma itemFieldAt_braces : BracesFirst (itemFieldAt item) := by
  intro cs h
  rw [itemFieldAt, loopVarAt_none h]

/-- A loop variable as the first step of the second pass leaves it. -/
def scanned (item : Json) (m : LoopVar) : List Char :=
  match m.path with
  | .field name => if (itemField item name).isSome then m.source else missingNote name
  | _ => m.source

lemma scan_loopVar (m : LoopVar) (rest : List Char) :
    replaceMatches (itemFieldAt item) 0 (m.source ++ rest) =
      scanned item m ++ replaceMatches (itemFieldAt item) 0 rest := by
  have hbody : m.source = '{' :: '{' :: (m.before ++ (m.path.text ++ (m.after ++ ['}', '}']))) :=
    rfl
  cases hpath : m.path with
  | field name =>
      have hmatch : itemFieldAt item (m.source ++ rest) =
          some (scanned item m, m.source.length) := by
        simp only [itemFieldAt, loopVarAt_source, hpath, matched_append, scanned]
      exact replaceMatches_match m.source_ne_nil hmatch
  | item =>
      have hnone : itemFieldAt item (m.source ++ rest) = none := by
        simp only [itemFieldAt, loopVarAt_source, hpath]
      have hcopy := replaceMatches_braces itemFieldAt_braces m.body_free (by simp) hnone
      rw [scanned, hpath]
      exact hcopy
  | index =>
      have hnone : itemFieldAt item (m.source ++ rest) = none := by
        simp only [itemFieldAt, loopVarAt_source, hpath]
      have hcopy := replaceMatches_braces itemFieldAt_braces m.body_free (by simp) hnone
      rw [scanned, hpath]
      exact hcopy

/-- The pieces after the first step of the second pass. -/
def scannedSource (item : Json) : List Piece → List Char
  | [] => []
  | .author a :: ps => a ++ scannedSource item ps
  | .inserted a :: ps => a ++ scannedSource item ps
  | .marker m :: ps => scanned item m ++ scannedSource item ps
  | .foreign m :: ps => scanned item m ++ scannedSource item ps

lemma scan_source (h : OnlyLoopVars t ps) :
    replaceMatches (itemFieldAt item) 0 (t ++ source ps) = t ++ scannedSource item ps := by
  induction ps generalizing t with
  | nil => exact (replaceMatches_last itemFieldAt_braces
      (not_braces ((List.append_nil t).symm ▸ h))).trans rfl
  | cons p ps ih =>
      cases p with
      | author a =>
          have hnext := ih (t := t ++ a) h
          rwa [List.append_assoc, List.append_assoc] at hnext
      | inserted a =>
          have hnext := ih (t := t ++ a) h
          rwa [List.append_assoc, List.append_assoc] at hnext
      | marker m =>
          have hnext := ih (t := []) h.2
          rw [source_cons, replaceMatches_copy itemFieldAt_braces h.1.braceFree]
          exact congrArg (t ++ ·) ((scan_loopVar m (source ps)).trans (congrArg _ hnext))
      | foreign m =>
          have hnext := ih (t := []) h.2
          rw [source_cons, replaceMatches_copy itemFieldAt_braces h.1.braceFree]
          exact congrArg (t ++ ·) ((scan_loopVar m (source ps)).trans (congrArg _ hnext))

/-- A loop variable is rendered, or stands as a note in the text. -/
lemma render_loopVar (m : LoopVar) (ht : PlainBefore t) (hps : OnlyLoopVars [] ps)
    (ih : ∀ u, OnlyLoopVars u ps → E.render (.loop item index) (u ++ scannedSource item ps) =
      some (filled E item index u ps)) :
    E.render (.loop item index) (t ++ (scanned item m ++ scannedSource item ps)) =
      some (t ++ (shown E item index m.path ++ filled E item index [] ps)) := by
  have hrest := ih [] hps
  rw [List.nil_append] at hrest
  by_cases hmissing : ∃ name, m.path = .field name ∧ itemField item name = none
  · obtain ⟨name, hpath, hnone⟩ := hmissing
    have hscanned : scanned item m = missingNote name := by
      simp only [scanned, hpath, hnone, Option.isSome_none, Bool.false_eq_true,
        if_false]
    have hshown : shown E item index m.path = missingNote name := by
      simp only [shown, hpath, hnone]
    have hfree := missingNote_free (m.name_ok name hpath).2
    have hnote : (missingNote name).getLast? ≠ some '\n' := by
      rw [missingNote_last]
      decide
    have hsection : OnlyLoopVars (t ++ missingNote name) ps := by
      have hshift := hps.after (plainBefore_free hfree)
      rw [List.append_nil] at hshift
      exact hshift.after ht
    have hend : (t ++ missingNote name).getLast? ≠ some '\n' := by
      rw [List.getLast?_append_of_ne_nil _ (missingNote_ne_nil _)]
      exact hnote
    have hfilled : filled E item index (t ++ missingNote name ++ []) ps = _ :=
      filled_after hend [] ps
    rw [List.append_nil, List.append_assoc] at hfilled
    rw [hscanned, hshown, ← List.append_assoc, ih _ hsection, hfilled]
  · have hvalue : loopValue E.display item index m.path = some (shown E item index m.path) := by
      cases hpath : m.path with
      | item => rfl
      | field name =>
          cases hfield : itemField item name with
          | none => exact (hmissing ⟨name, hpath, hfield⟩).elim
          | some v => simp [loopValue, shown, hfield]
      | index => rfl
    have hscanned : scanned item m = m.source := by
      cases hpath : m.path with
      | item => simp only [scanned, hpath]
      | field name =>
          cases hfield : itemField item name with
          | none => exact (hmissing ⟨name, hpath, hfield⟩).elim
          | some v => simp [scanned, hpath, hfield]
      | index => simp only [scanned, hpath]
    rw [hscanned, E.loopVar _ _ _ _ _ ht, hvalue, Option.bind_some, hrest]
    rfl

lemma render_source (h : OnlyLoopVars t ps) :
    E.render (.loop item index) (t ++ scannedSource item ps) =
      some (filled E item index t ps) := by
  induction ps generalizing t with
  | nil =>
      rw [scannedSource, List.append_nil]
      exact E.plain _ t h
  | cons p ps ih =>
      cases p with
      | author a =>
          have hnext := ih (t := t ++ a) h
          rwa [List.append_assoc] at hnext
      | inserted a =>
          have hnext := ih (t := t ++ a) h
          rwa [List.append_assoc] at hnext
      | marker m => exact render_loopVar m h.1 h.2 (fun u hu => ih hu)
      | foreign m => exact render_loopVar m h.1 h.2 (fun u hu => ih hu)

/-- Both kinds of loop variables are filled in. -/
lemma interpolateLoopVars_source (h : OnlyLoopVars [] ps) :
    interpolateLoopVars E (source ps) item index = filled E item index [] ps := by
  have hscan : replaceMatches (itemFieldAt item) 0 (source ps) = scannedSource item ps :=
    scan_source h
  have hrender : E.render (.loop item index) (scannedSource item ps) =
      some (filled E item index [] ps) := render_source h
  rw [interpolateLoopVars, hscan, hrender]
  rfl

end SecondPass

section Deliveries

variable {E : Engine} {item : Json} {index : ℕ} {t : List Char} {ps : List Piece}

lemma filled_empty (h : source ps = []) : filled E item index t ps = chomp t := by
  induction ps generalizing t with
  | nil => rfl
  | cons p ps ih =>
      obtain ⟨hp, hps⟩ := List.append_eq_nil_iff.mp h
      cases p with
      | author a =>
          obtain rfl : a = [] := hp
          rw [filled, List.append_nil, ih hps]
      | inserted a =>
          obtain rfl : a = [] := hp
          rw [filled, List.append_nil, ih hps]
      | marker m => exact (m.source_ne_nil hp).elim
      | foreign m => exact (m.source_ne_nil hp).elim

lemma chomp_nil : chomp [] = [] := rfl

/-- Where everything that came in is plain, it is delivered as it is. -/
lemma filled_clean (hown : ∀ m, Piece.foreign m ∉ ps) (hend : ¬ EndsInBreak ps)
    (hne : source ps ≠ []) : filled E item index t ps = t ++ delivered E item index ps := by
  induction ps generalizing t with
  | nil => exact (hne rfl).elim
  | cons p ps ih =>
      have hown' : ∀ m, Piece.foreign m ∉ ps := fun m hm => hown m (List.mem_cons_of_mem p hm)
      by_cases hps : source ps = []
      · rw [EndsInBreak, if_pos hps] at hend
        rw [delivered, if_pos hps]
        have hp : p.source ≠ [] := by
          intro hp
          rw [source_cons, hp, hps] at hne
          exact hne rfl
        cases p with
        | author a =>
            have ha : a ≠ [] := hp
            rw [filled, filled_empty hps, chomp_append_of_ne_nil t ha]
            rfl
        | inserted a =>
            have ha : a ≠ [] := hp
            have hlast : (t ++ a).getLast? ≠ some '\n' := by
              rw [List.getLast?_append_of_ne_nil _ ha]
              exact fun hlast => hend ⟨a, rfl, hlast⟩
            rw [filled, filled_empty hps, chomp, if_neg hlast]
            rfl
        | marker m =>
            rw [filled, filled_empty hps, chomp_nil, List.append_nil]
            rfl
        | foreign m => exact (hown m List.mem_cons_self).elim
      · rw [EndsInBreak, if_neg hps] at hend
        rw [delivered, if_neg hps]
        cases p with
        | author a => rw [filled, ih hown' hend hps, List.append_assoc]; rfl
        | inserted a => rw [filled, ih hown' hend hps, List.append_assoc]; rfl
        | marker m => rw [filled, ih hown' hend hps, List.nil_append]; rfl
        | foreign m => exact (hown m List.mem_cons_self).elim

/-- A line break that came in is lost at the end. -/
lemma filled_break (hown : ∀ m, Piece.foreign m ∉ ps) (hend : EndsInBreak ps) :
    (filled E item index t ps).length + 1 = (t ++ delivered E item index ps).length := by
  induction ps generalizing t with
  | nil => cases hend
  | cons p ps ih =>
      have hown' : ∀ m, Piece.foreign m ∉ ps := fun m hm => hown m (List.mem_cons_of_mem p hm)
      by_cases hps : source ps = []
      · rw [EndsInBreak, if_pos hps] at hend
        obtain ⟨a, rfl, hlast⟩ := hend
        have hne : a ≠ [] := by
          rintro rfl
          cases hlast
        have hpos := List.length_pos_iff.mpr hne
        have hbreak : (t ++ a).getLast? = some '\n' := by
          rw [List.getLast?_append_of_ne_nil _ hne, hlast]
        rw [delivered, if_pos hps, filled, filled_empty hps, chomp, if_pos hbreak,
          List.length_dropLast]
        change _ = (t ++ a).length
        rw [List.length_append]
        omega
      · rw [EndsInBreak, if_neg hps] at hend
        rw [delivered, if_neg hps]
        cases p with
        | author a => rw [filled, ih hown' hend, List.append_assoc]; rfl
        | inserted a => rw [filled, ih hown' hend, List.append_assoc]; rfl
        | marker m =>
            have hrest := ih (t := []) hown' hend
            simp only [filled, Piece.delivered, List.length_append, List.nil_append] at hrest ⊢
            omega
        | foreign m => exact (hown m List.mem_cons_self).elim

/-- The item without a brace and without fields. -/
lemma shown_free (m : LoopVar) : (shown E (.string []) 0 m.path).count '{' = 0 := by
  rw [List.count_eq_zero]
  cases hpath : m.path with
  | item =>
      rw [shown, E.display_string]
      exact List.not_mem_nil
  | field name => exact missingNote_free (m.name_ok name hpath).2
  | index =>
      change '{' ∉ (0 : ℕ).repr.toList
      decide

lemma count_chomp (t : List Char) : (chomp t).count '{' = t.count '{' := by
  rw [chomp]
  split
  · next hlast =>
    obtain ⟨l, rfl⟩ := List.getLast?_eq_some_iff.mp hlast
    rw [List.dropLast_concat, List.count_append]
    rfl
  · rfl

/-- The braces of a piece's text, and those of a loop variable that came in. -/
def Piece.braces : Piece → ℕ
  | .author a => a.count '{'
  | .inserted a => a.count '{'
  | _ => 0

def Piece.foreignBraces : Piece → ℕ
  | .foreign _ => 2
  | _ => 0

def braces (ps : List Piece) : ℕ := (ps.map Piece.braces).sum

def foreignBraces (ps : List Piece) : ℕ := (ps.map Piece.foreignBraces).sum

@[simp] lemma braces_cons (p : Piece) (ps : List Piece) : braces (p :: ps) = p.braces + braces ps :=
  rfl

@[simp] lemma foreignBraces_cons (p : Piece) (ps : List Piece) :
    foreignBraces (p :: ps) = p.foreignBraces + foreignBraces ps := rfl

lemma count_filled (t : List Char) (ps : List Piece) :
    (filled E (.string []) 0 t ps).count '{' = t.count '{' + braces ps := by
  induction ps generalizing t with
  | nil => exact count_chomp t
  | cons p ps ih =>
      rw [braces_cons]
      cases p with
      | author a =>
          rw [filled, ih, List.count_append, Nat.add_assoc]
          rfl
      | inserted a =>
          rw [filled, ih, List.count_append, Nat.add_assoc]
          rfl
      | marker m =>
          rw [filled, List.count_append, List.count_append, shown_free, ih]
          simp only [List.count_nil, Piece.braces, Nat.zero_add]
      | foreign m =>
          rw [filled, List.count_append, List.count_append, shown_free, ih]
          simp only [List.count_nil, Piece.braces, Nat.zero_add]

lemma count_source (m : LoopVar) : m.source.count '{' = 2 := by
  have hbody := List.count_eq_zero.mpr m.body_free
  rw [LoopVar.source, List.count_cons_self, List.count_cons_self, hbody]

lemma braces_empty (h : source ps = []) : braces ps = 0 ∧ foreignBraces ps = 0 := by
  induction ps with
  | nil => exact ⟨rfl, rfl⟩
  | cons p ps ih =>
      obtain ⟨hp, hps⟩ := List.append_eq_nil_iff.mp h
      obtain ⟨hbraces, hforeign⟩ := ih hps
      rw [braces_cons, foreignBraces_cons, hbraces, hforeign]
      cases p with
      | author a =>
          obtain rfl : a = [] := hp
          exact ⟨rfl, rfl⟩
      | inserted a =>
          obtain rfl : a = [] := hp
          exact ⟨rfl, rfl⟩
      | marker m => exact ⟨rfl, rfl⟩
      | foreign m => exact (m.source_ne_nil hp).elim

lemma count_piece (p : Piece) :
    (p.delivered E (.string []) 0).count '{' = p.braces + p.foreignBraces ∧
      (p.atEnd E (.string []) 0).count '{' = p.braces + p.foreignBraces := by
  cases p with
  | author a => exact ⟨rfl, count_chomp a⟩
  | inserted a => exact ⟨rfl, rfl⟩
  | marker m => exact ⟨shown_free m, shown_free m⟩
  | foreign m => exact ⟨count_source m, count_source m⟩

/-- The braces of a loop variable that came in are still there when it is delivered. -/
lemma count_delivered (ps : List Piece) :
    (delivered E (.string []) 0 ps).count '{' = braces ps + foreignBraces ps := by
  induction ps with
  | nil => rfl
  | cons p ps ih =>
      obtain ⟨hpiece, hend⟩ := count_piece (E := E) p
      rw [braces_cons, foreignBraces_cons]
      by_cases hps : source ps = []
      · obtain ⟨hbraces, hforeign⟩ := braces_empty hps
        rw [delivered, if_pos hps, hend, hbraces, hforeign]
        rfl
      · rw [delivered, if_neg hps, List.count_append, hpiece, ih]
        omega

lemma foreignBraces_pos {m : LoopVar} (h : Piece.foreign m ∈ ps) : 0 < foreignBraces ps := by
  induction ps with
  | nil => cases h
  | cons p ps ih =>
      rw [foreignBraces_cons]
      rcases List.mem_cons.mp h with rfl | hps
      · exact Nat.add_pos_left (Nat.succ_pos 1) _
      · exact Nat.add_pos_right _ (ih hps)

lemma delivered_empty (h : source ps = []) : delivered E item index ps = [] := by
  cases ps with
  | nil => rfl
  | cons p ps =>
      obtain ⟨hp, hrest⟩ := List.append_eq_nil_iff.mp h
      have hps : source ps = [] := hrest
      rw [delivered, if_pos hps]
      cases p with
      | author a =>
          obtain rfl : a = [] := hp
          rfl
      | inserted a => exact hp
      | marker m => exact (m.source_ne_nil hp).elim
      | foreign m => exact (m.source_ne_nil hp).elim

end Deliveries

section FirstPass

/-- What stands in braces in the workflow file. -/
inductive Tag where
  | loopVar (m : LoopVar)
  | expression (e : Expression)

def Tag.source : Tag → List Char
  | .loopVar m => m.source
  | .expression e => e.source

def templateSource (t : List Char) (rest : List (Tag × List Char)) : List Char :=
  t ++ rest.flatMap fun p => p.1.source ++ p.2

/-- The author's own text has no other delimiters. -/
def TextsPlain : List Char → List (Tag × List Char) → Prop
  | t, [] => hasDelimiter t = false
  | t, (_, u) :: rest => PlainBefore t ∧ TextsPlain u rest

/-- A value of the first pass in parts: text, and loop variables in it. -/
inductive Fragment where
  | text (t : List Char)
  | loopVar (m : LoopVar)

def Fragment.piece : Fragment → Piece
  | .text t => .inserted t
  | .loopVar m => .foreign m

def valueText (fragments : List Fragment) : List Char := source (fragments.map Fragment.piece)

/-- The pieces of the prompt that the second pass is given. -/
def firstPass (values : List Char → List Fragment) :
    List Char → List (Tag × List Char) → List Piece
  | t, [] => [.author (chomp t)]
  | t, (.loopVar m, u) :: rest => .author t :: .marker m :: firstPass values u rest
  | t, (.expression e, u) :: rest =>
      .author t :: ((values e.body).map Fragment.piece ++ firstPass values u rest)

lemma source_append (ps qs : List Piece) : source (ps ++ qs) = source ps ++ source qs :=
  List.flatMap_append

/-- The first pass keeps the loop variables and puts the values in for the expressions. -/
theorem interpolateWithFields_source (E : Engine) (values : List Char → List Fragment)
    {t : List Char} {rest : List (Tag × List Char)} (h : TextsPlain t rest) :
    interpolateWithFields E (fun body => some (valueText (values body))) (templateSource t rest) =
      some (source (firstPass values t rest)) := by
  unfold interpolateWithFields protectLoopVars
  induction rest generalizing t with
  | nil =>
      have hplain : hasDelimiter t = false := h
      have hcopy : replaceMatches protectAt 0 (templateSource t []) = t := by
        rw [templateSource, List.flatMap_nil, List.append_nil]
        exact replaceMatches_last protectAt_braces (not_braces hplain)
      rw [hcopy, E.plain _ t hplain]
      simp [firstPass, source, Piece.source]
  | cons p rest ih =>
      obtain ⟨tag, u⟩ := p
      obtain ⟨ht, hrest⟩ := h
      have hsource : templateSource t ((tag, u) :: rest) =
          t ++ (tag.source ++ templateSource u rest) := by
        simp [templateSource]
      rw [hsource, replaceMatches_copy protectAt_braces ht.braceFree]
      cases tag with
      | loopVar m =>
          have hprotect := protect_loopVar m (templateSource u rest)
          rw [Tag.source, hprotect, E.raw _ _ _ _ ht, ih hrest]
          rfl
      | expression e =>
          have hprotect := protect_expression e (templateSource u rest)
          rw [Tag.source, hprotect, E.expression _ _ _ _ ht, ih hrest]
          simp [firstPass, source_append, valueText, Piece.source]

end FirstPass

end Loker.LoopPrompts
