import Loker.PromptDelivery

/-! Prompts that are written for the declared inputs of their phases, and when rendering them puts
each input in its place. -/

namespace Loker.DeclaredInputs

open TextOps Programs Template PhaseBridge PromptDelivery
open Grammar (InputRef Phase Workflow parseInputRef validate)

section Prompts

/-- A literal text and the input whose placeholder follows it. -/
structure Item where
  literal : String
  ref : InputRef
  deriving DecidableEq, Repr

structure Prompt where
  items : List Item
  tail : String
  deriving DecidableEq, Repr

/-- The inside of the placeholder that is written for an input. -/
def placeholderName : InputRef → String
  | .phaseRef name => "phase." ++ name ++ ".output"
  | .varRef name => "var." ++ name
  | .spec => "spec"

def placeholderBody (r : InputRef) : List Char := ' ' :: ((placeholderName r).toList ++ [' '])

def Item.chars (i : Item) : List Char :=
  i.literal.toList ++ '{' :: '{' :: (placeholderBody i.ref ++ ['}', '}'])

def Prompt.text (p : Prompt) : String :=
  String.ofList (p.items.flatMap Item.chars ++ p.tail.toList)

/-- The text of an input. -/
def inputValue (ctx : TemplateContext) : InputRef → Option String
  | .phaseRef name => (ctx.phaseOutputs name).map PhaseOutput.content
  | .varRef name => ctx.vars name
  | .spec => ctx.spec

def Item.filled (ctx : TemplateContext) (i : Item) : List Char :=
  i.literal.toList ++ ((inputValue ctx i.ref).getD "").toList

/-- The prompt with each input's text in the place of its placeholder. -/
def Prompt.filled (ctx : TemplateContext) (p : Prompt) : String :=
  String.ofList (p.items.flatMap (Item.filled ctx) ++ p.tail.toList)

/-- No two braces open a placeholder in the text. -/
def NoOpening (s : String) : Prop := ¬ ['{', '{'] <:+: s.toList

instance (s : String) : Decidable (NoOpening s) := inferInstanceAs (Decidable (¬ _))

def Prompt.Literal (p : Prompt) : Prop :=
  (∀ i ∈ p.items, NoOpening i.literal) ∧ NoOpening p.tail

instance (p : Prompt) : Decidable p.Literal := inferInstanceAs (Decidable (_ ∧ _))

/-- The placeholder engine reads this name back from the input's placeholder. -/
def Spelled : InputRef → Prop
  | .phaseRef name => '.' ∉ name.toList ∧ '}' ∉ name.toList
  | .varRef name => '}' ∉ name.toList ∧ ∀ c ∈ name.toList.getLast?, isWhiteSpace c = false
  | .spec => True

def Named : InputRef → Prop
  | .varRef name => name ≠ ""
  | _ => True

/-- The literal text does not add a brace to those of the placeholder. -/
def Item.Plain (i : Item) : Prop := i.literal.toList.getLast? ≠ some '{' ∧ Spelled i.ref

end Prompts

section Segments

lemma placeholderAt_none {cs : List Char} (h : ¬ ['{', '{'] <+: cs) : placeholderAt cs = none := by
  unfold placeholderAt
  split
  · next rest => exact absurd ⟨rest, rfl⟩ h
  · rfl

lemma segments_literal {t rest : List Char} (ht : ¬ ['{', '{'] <:+: t)
    (hend : t.getLast? = some '{' → rest.head? ≠ some '{') :
    segments 0 (t ++ rest) = t.map Segment.literal ++ segments 0 rest := by
  induction t with
  | nil => rfl
  | cons c t ih =>
      have hnone : placeholderAt (c :: (t ++ rest)) = none := by
        apply placeholderAt_none
        rintro ⟨more, heq⟩
        obtain ⟨hc, htail⟩ := List.cons_eq_cons.mp heq
        cases t with
        | nil =>
            have hbrace : rest.head? = some '{' := by
              rw [List.nil_append] at htail
              rw [← htail]
              rfl
            exact hend (by rw [← hc]; rfl) hbrace
        | cons d t =>
            obtain ⟨hd, -⟩ := List.cons_eq_cons.mp htail
            exact ht ⟨[], t, by rw [← hc, ← hd]; rfl⟩
      have hrest : segments 0 (t ++ rest) = t.map Segment.literal ++ segments 0 rest := by
        refine ih (fun h => ht (h.trans (List.infix_cons List.infix_rfl))) fun hlast => ?_
        cases t with
        | nil => cases hlast
        | cons d t => exact hend (by rw [List.getLast?_cons_cons, hlast])
      rw [List.cons_append, segments, hnone, hrest]
      rfl

lemma segments_skip (l rest : List Char) : segments l.length (l ++ rest) = segments 0 rest := by
  induction l with
  | nil => rfl
  | cons c l ih => exact ih

lemma segments_placeholder {body rest : List Char} (hne : body ≠ []) (hbody : '}' ∉ body) :
    segments 0 ('{' :: '{' :: (body ++ '}' :: '}' :: rest)) =
      .placeholder (String.ofList (capture body)) :: segments 0 rest := by
  have htake : (body ++ '}' :: '}' :: rest).takeWhile (· ≠ '}') = body := by
    have hall : ∀ c ∈ body, (decide (c ≠ '}')) = true := by
      intro c hc
      have hne : c ≠ '}' := by
        rintro rfl
        exact hbody hc
      simpa using hne
    rw [List.takeWhile_append_of_pos hall]
    simp
  have hat : placeholderAt ('{' :: '{' :: (body ++ '}' :: '}' :: rest)) =
      some (String.ofList (capture body), body.length + 4) := by
    unfold placeholderAt
    simp only [htake]
    simp [hne]
  have hskip : '{' :: (body ++ '}' :: '}' :: rest) = ('{' :: (body ++ ['}', '}'])) ++ rest := by
    simp
  have hlength : body.length + 4 - 1 = ('{' :: (body ++ ['}', '}'])).length := by
    rw [List.length_cons, List.length_append]
    rfl
  rw [segments, hat]
  dsimp only
  rw [hskip, hlength, segments_skip]

lemma segments_length (k : ℕ) (cs : List Char) : (segments k cs).length ≤ cs.length := by
  induction cs generalizing k with
  | nil => cases k <;> simp [segments]
  | cons c cs ih =>
      cases k with
      | succ k =>
          have hrest := ih k
          rw [segments, List.length_cons]
          omega
      | zero =>
          rw [segments]
          split
          · next inner length hat =>
            have hrest := ih (length - 1)
            rw [List.length_cons, List.length_cons]
            omega
          · have hrest := ih 0
            rw [List.length_cons, List.length_cons]
            omega

/-- The inside of a placeholder is captured from a text without a closing brace. -/
lemma body_of_placeholder {inner : String} {k : ℕ} {cs : List Char}
    (h : .placeholder inner ∈ segments k cs) :
    ∃ body, '}' ∉ body ∧ inner = String.ofList (capture body) := by
  induction cs generalizing k with
  | nil => cases k <;> simp [segments] at h
  | cons c cs ih =>
      cases k with
      | succ k => exact ih h
      | zero =>
          rw [segments] at h
          split at h
          · next inner' length hat =>
            rcases List.mem_cons.mp h with heq | hmem
            · cases heq
              unfold placeholderAt at hat
              split at hat
              · next rest _ =>
                dsimp only at hat
                split at hat
                · obtain ⟨rfl, -⟩ := Prod.mk.inj (Option.some.inj hat)
                  refine ⟨_, fun hmem => ?_, rfl⟩
                  have hne := List.mem_takeWhile_imp hmem
                  simp at hne
                · cases hat
              · cases hat
            · exact ih hmem
          · rcases List.mem_cons.mp h with heq | hmem
            · cases heq
            · exact ih hmem

end Segments

section Capture

lemma capture_trimmed {cs : List Char} (hne : cs ≠ [])
    (hhead : ∀ c ∈ cs.head?, isWhiteSpace c = false)
    (hlast : ∀ c ∈ cs.getLast?, isWhiteSpace c = false) : capture (' ' :: (cs ++ [' '])) = cs := by
  have hspace : isWhiteSpace ' ' = true := by decide
  have hdrop : (' ' :: (cs ++ [' '])).dropWhile isWhiteSpace = cs ++ [' '] := by
    obtain ⟨c, cs, rfl⟩ := List.exists_cons_of_ne_nil hne
    simp [hspace, hhead c rfl]
  have hreverse : (cs ++ [' ']).reverse.dropWhile isWhiteSpace = cs.reverse := by
    obtain ⟨cs', c, rfl⟩ := (List.eq_nil_or_concat cs).resolve_left hne
    simp only [List.concat_eq_append] at hlast ⊢
    simp [hspace, hlast c (by simp)]
  unfold capture
  dsimp only
  rw [hdrop, hreverse, if_neg (by simpa using hne), List.reverse_reverse]

lemma mem_of_mem_capture {body : List Char} {c : Char} (h : c ∈ capture body) : c ∈ body := by
  unfold capture at h
  dsimp only at h
  split at h
  · exact List.mem_of_getLast? (by simpa using h)
  · have hmem := (List.dropWhile_suffix _).subset (List.mem_reverse.mp h)
    exact (List.dropWhile_suffix _).subset (List.mem_reverse.mp hmem)

lemma capture_head {c : Char} {cs : List Char} (hc : isWhiteSpace c = false) :
    (capture (c :: cs)).head? = some c := by
  have hdrop : (c :: cs).dropWhile isWhiteSpace = c :: cs := by simp [hc]
  have hne : ((c :: cs).reverse).dropWhile isWhiteSpace ≠ [] := by
    rw [ne_eq, List.dropWhile_eq_nil_iff]
    intro hall
    rw [hall c (by simp)] at hc
    cases hc
  have hprefix := List.reverse_prefix.mpr
    (List.dropWhile_suffix isWhiteSpace (l := (c :: cs).reverse))
  rw [List.reverse_reverse] at hprefix
  unfold capture
  dsimp only
  rw [hdrop, if_neg hne]
  obtain ⟨more, hmore⟩ := hprefix
  have hhead := congrArg List.head? hmore
  rwa [List.head?_append_of_ne_nil _ (by simpa using hne)] at hhead

/-- What is captured ends in no white space, unless it is one character. -/
lemma capture_last (body : List Char) : (capture body).length ≤ 1 ∨
    ∀ c ∈ (capture body).getLast?, isWhiteSpace c = false := by
  unfold capture
  dsimp only
  split
  · left
    cases body.getLast? <;> simp
  · right
    intro c hc
    rw [List.getLast?_reverse] at hc
    have hhead := List.head?_dropWhile_not isWhiteSpace
      (body.dropWhile isWhiteSpace).reverse
    rw [hc] at hhead
    simpa using hhead

end Capture

section Resolve

variable {ctx : TemplateContext}

lemma stripPrefix_append (pre s : String) : stripPrefix (pre ++ s) pre = some s := by
  simp [stripPrefix, startsWith]

lemma splitOnce_append {a b : String} {sep : Char} (h : sep ∉ a.toList) :
    splitOnce (a ++ String.singleton sep ++ b) sep = some (a, b) := by
  have hall : ∀ c ∈ a.toList, decide (c ≠ sep) = true := by
    intro c hc
    simpa using fun heq : c = sep => h (heq ▸ hc)
  have hlist : (a ++ String.singleton sep ++ b).toList = a.toList ++ sep :: b.toList := by simp
  have hspan : (a ++ String.singleton sep ++ b).toList.span (· ≠ sep) =
      (a.toList, sep :: b.toList) := by
    rw [hlist, List.span_eq_takeWhile_dropWhile, List.takeWhile_append_of_pos hall,
      List.dropWhile_append_of_pos hall]
    simp
  unfold splitOnce
  rw [hspan]
  simp

/-- The part before the separator has no separator and comes from the text. -/
lemma splitOnce_before {s before after : String} {sep : Char}
    (h : splitOnce s sep = some (before, after)) :
    sep ∉ before.toList ∧ ∀ c ∈ before.toList, c ∈ s.toList := by
  unfold splitOnce at h
  rw [List.span_eq_takeWhile_dropWhile] at h
  split at h
  · cases h
  · next before' c after' hspan =>
    obtain ⟨hbefore, -⟩ := Prod.mk.inj hspan
    obtain ⟨rfl, -⟩ := Prod.mk.inj (Option.some.inj h)
    rw [String.toList_ofList, ← hbefore]
    refine ⟨fun hmem => ?_, fun c hc => (List.takeWhile_prefix _).subset hc⟩
    have hne := List.mem_takeWhile_imp hmem
    simp at hne

lemma resolve_phaseRef {name v : String} (hs : Spelled (.phaseRef name))
    (hv : inputValue ctx (.phaseRef name) = some v) :
    resolvePlaceholder (placeholderName (.phaseRef name)) ctx = .ok v := by
  have hne : placeholderName (.phaseRef name) ≠ "spec" := by
    intro heq
    have hlist := congrArg String.toList heq
    simp [placeholderName] at hlist
  have hstrip : stripPrefix (placeholderName (.phaseRef name)) "phase." =
      some (name ++ ".output") := by
    rw [placeholderName, String.append_assoc, stripPrefix_append]
  have hsplit : splitOnce (name ++ ".output") '.' = some (name, "output") := by
    have happend := splitOnce_append (b := "output") hs.1
    rwa [String.append_assoc] at happend
  have houtput : splitOnce "output" '.' = none := by decide
  obtain ⟨output, hphase, rfl⟩ := Option.map_eq_some_iff.mp hv
  unfold resolvePlaceholder
  rw [if_neg hne, hstrip]
  simp only [resolvePhasePlaceholder, hsplit, houtput, hphase, ne_eq, not_true_eq_false, if_false]

lemma stripPrefix_var (name : String) : stripPrefix ("var." ++ name) "phase." = none := by
  simp [stripPrefix, startsWith]

lemma resolve_varRef {name v : String} (hname : name ≠ "")
    (hv : inputValue ctx (.varRef name) = some v) :
    resolvePlaceholder (placeholderName (.varRef name)) ctx = .ok v := by
  have hne : placeholderName (.varRef name) ≠ "spec" := by
    intro heq
    have hlist := congrArg String.toList heq
    simp [placeholderName] at hlist
  have hvar : ctx.vars name = some v := hv
  unfold resolvePlaceholder
  rw [if_neg hne, placeholderName, stripPrefix_var, stripPrefix_append]
  simp only [hname, hvar, if_false]

/-- A name that is spelled is resolved to its input. -/
lemma resolve_spelled {r : InputRef} {v : String} (hs : Spelled r) (hn : Named r)
    (hv : inputValue ctx r = some v) : resolvePlaceholder (placeholderName r) ctx = .ok v := by
  cases r with
  | phaseRef name => exact resolve_phaseRef hs hv
  | varRef name => exact resolve_varRef hn hv
  | spec =>
      have hspec : ctx.spec = some v := hv
      simp [resolvePlaceholder, placeholderName, hspec]

/-- The placeholder of a name that is spelled is captured as it is written. -/
lemma capture_placeholder {r : InputRef} (hs : Spelled r) (hn : Named r) :
    '}' ∉ placeholderBody r ∧ capture (placeholderBody r) = (placeholderName r).toList := by
  cases r with
  | phaseRef name =>
      have hlast : ("phase." ++ name ++ ".output").toList.getLast? = some 't' := by
        rw [String.toList_append, List.getLast?_append_of_ne_nil _ (by decide)]
        rfl
      refine ⟨?_, capture_trimmed ?_ ?_ ?_⟩
      · simpa [placeholderBody, placeholderName] using hs.2
      · simp [placeholderName]
      · simp [placeholderName]
        decide
      · rw [placeholderName, hlast]
        simp [isWhiteSpace]
  | varRef name =>
      have hname : name ≠ "" := hn
      have hne : name.toList ≠ [] := by simpa using hname
      have hlast : ("var." ++ name).toList.getLast? = name.toList.getLast? := by
        rw [String.toList_append, List.getLast?_append_of_ne_nil _ hne]
      refine ⟨?_, capture_trimmed ?_ ?_ ?_⟩
      · simpa [placeholderBody, placeholderName] using hs.1
      · simp [placeholderName]
      · simp [placeholderName]
        decide
      · rw [placeholderName, hlast]
        exact hs.2
  | spec => exact ⟨by decide, by decide⟩

end Resolve

section Yields

variable {ctx : TemplateContext} {segs segs' : List Segment} {out out' : List Char}

/-- The segments stand for the text. -/
def Yields (ctx : TemplateContext) (segs : List Segment) (out : List Char) : Prop :=
  ∃ texts, segs.mapM (segmentText ctx) = .ok texts ∧ (String.join texts).toList = out

lemma Yields.append (h : Yields ctx segs out) (h' : Yields ctx segs' out') :
    Yields ctx (segs ++ segs') (out ++ out') := by
  obtain ⟨texts, htexts, rfl⟩ := h
  obtain ⟨texts', htexts', rfl⟩ := h'
  refine ⟨texts ++ texts', ?_, ?_⟩
  · rw [List.mapM_append, htexts, htexts']
    rfl
  · rw [toList_join, toList_join, toList_join, List.map_append, List.flatten_append]

lemma yields_nil : Yields ctx [] [] := ⟨[], rfl, rfl⟩

lemma yields_segment {seg : Segment} {v : String} (h : segmentText ctx seg = .ok v) :
    Yields ctx [seg] v.toList := by
  refine ⟨[v], ?_, by simp⟩
  rw [List.mapM_cons, h]
  rfl

lemma yields_literal (ctx : TemplateContext) (cs : List Char) :
    Yields ctx (cs.map Segment.literal) cs := by
  induction cs with
  | nil => exact yields_nil
  | cons c cs ih =>
      have hfirst : Yields ctx [.literal c] [c] := by
        have hsegment : segmentText ctx (.literal c) = .ok (String.ofList [c]) := rfl
        simpa using yields_segment hsegment
      exact hfirst.append ih

lemma render_of_yields {template : String} (h : Yields ctx (segments 0 template.toList) out) :
    render template ctx = .ok (String.ofList out) := by
  obtain ⟨texts, htexts, rfl⟩ := h
  unfold render pieces
  rw [htexts, String.ofList_toList]
  rfl

lemma yields_of_render {template text : String} (h : render template ctx = .ok text) :
    Yields ctx (segments 0 template.toList) text.toList := by
  obtain ⟨texts, htexts, rfl⟩ := render_eq_ok h
  exact ⟨texts, htexts, rfl⟩

lemma Yields.resolved (h : Yields ctx segs out) {seg : Segment} (hmem : seg ∈ segs) :
    ∃ v, segmentText ctx seg = .ok v := by
  obtain ⟨texts, htexts, -⟩ := h
  induction segs generalizing texts with
  | nil => cases hmem
  | cons first segs ih =>
      obtain ⟨v, rest, hfirst, hrest, rfl⟩ := mapM_cons_eq_ok.mp htexts
      rcases List.mem_cons.mp hmem with rfl | hmem
      · exact ⟨v, hfirst⟩
      · exact ih hmem rest hrest

/-- Where every placeholder stands for nothing, the text has at most a character a segment. -/
lemma Yields.length_le (h : Yields ctx segs out)
    (hempty : ∀ inner v, .placeholder inner ∈ segs → resolvePlaceholder inner ctx = .ok v → v = "") :
    out.length ≤ segs.length := by
  obtain ⟨texts, htexts, rfl⟩ := h
  induction segs generalizing texts with
  | nil =>
      obtain rfl := Except.ok.inj htexts
      simp
  | cons seg segs ih =>
      obtain ⟨v, rest, hfirst, hrest, rfl⟩ := mapM_cons_eq_ok.mp htexts
      have htail := ih (fun inner v hmem => hempty inner v (List.mem_cons_of_mem _ hmem)) rest hrest
      have hv : v.toList.length ≤ 1 := by
        cases seg with
        | literal c =>
            obtain rfl := Except.ok.inj hfirst
            simp
        | placeholder inner =>
            rw [hempty inner v List.mem_cons_self hfirst]
            simp
      rw [toList_join] at htail ⊢
      rw [List.map_cons, List.flatten_cons, List.length_append, List.length_cons]
      omega

end Yields

section Rendering

variable {ctx : TemplateContext}

lemma segments_item {i : Item} (hliteral : NoOpening i.literal) (hplain : i.Plain)
    (hn : Named i.ref) (rest : List Char) :
    segments 0 (i.chars ++ rest) = i.literal.toList.map Segment.literal ++
      .placeholder (placeholderName i.ref) :: segments 0 rest := by
  obtain ⟨hbody, hcapture⟩ := capture_placeholder hplain.2 hn
  have hchars : i.chars ++ rest = i.literal.toList ++
      '{' :: '{' :: (placeholderBody i.ref ++ '}' :: '}' :: rest) := by simp [Item.chars]
  have hne : placeholderBody i.ref ≠ [] := List.cons_ne_nil _ _
  rw [hchars, segments_literal hliteral fun h => absurd h hplain.1, segments_placeholder hne hbody,
    hcapture, String.ofList_toList]

/-- Before the first item that is not plain, every input is in its place. -/
lemma yields_items {items : List Item} {rest out : List Char}
    (hliteral : ∀ i ∈ items, NoOpening i.literal) (hplain : ∀ i ∈ items, i.Plain)
    (hn : ∀ i ∈ items, Named i.ref) (hv : ∀ i ∈ items, (inputValue ctx i.ref).isSome)
    (hrest : Yields ctx (segments 0 rest) out) :
    Yields ctx (segments 0 (items.flatMap Item.chars ++ rest))
      (items.flatMap (Item.filled ctx) ++ out) := by
  induction items with
  | nil => exact hrest
  | cons i items ih =>
      have htail := ih (fun j hj => hliteral j (List.mem_cons_of_mem _ hj))
        (fun j hj => hplain j (List.mem_cons_of_mem _ hj))
        (fun j hj => hn j (List.mem_cons_of_mem _ hj)) fun j hj => hv j (List.mem_cons_of_mem _ hj)
      obtain ⟨v, hvalue⟩ := Option.isSome_iff_exists.mp (hv i List.mem_cons_self)
      have hi : i.Plain := hplain i List.mem_cons_self
      have hname := hn i List.mem_cons_self
      have hresolve : segmentText ctx (.placeholder (placeholderName i.ref)) = .ok v :=
        resolve_spelled hi.2 hname hvalue
      have hplaceholder := (yields_segment hresolve).append htail
      have hitem := (yields_literal ctx i.literal.toList).append hplaceholder
      rw [List.flatMap_cons, List.append_assoc,
        segments_item (hliteral i List.mem_cons_self) hi hname, List.flatMap_cons, Item.filled,
        hvalue, List.append_assoc, List.append_assoc]
      exact hitem

lemma render_plain {p : Prompt} (hliteral : p.Literal) (hplain : ∀ i ∈ p.items, i.Plain)
    (hn : ∀ i ∈ p.items, Named i.ref) (hv : ∀ i ∈ p.items, (inputValue ctx i.ref).isSome) :
    render p.text ctx = .ok (p.filled ctx) := by
  have htail : Yields ctx (segments 0 p.tail.toList) p.tail.toList := by
    have hsegments : segments 0 p.tail.toList = p.tail.toList.map Segment.literal := by
      have hend : p.tail.toList.getLast? = some '{' → ([] : List Char).head? ≠ some '{' := by simp
      have happend := segments_literal hliteral.2 hend
      rwa [List.append_nil, segments, List.append_nil] at happend
    rw [hsegments]
    exact yields_literal ctx p.tail.toList
  apply render_of_yields
  rw [Prompt.text, String.toList_ofList]
  exact yields_items hliteral.1 hplain hn hv htail

lemma resolve_brace (ctx : TemplateContext) {inner : String} (h : inner.toList.head? = some '{') :
    ∃ e, resolvePlaceholder inner ctx = .error e := by
  have hspec : inner ≠ "spec" := by
    rintro rfl
    cases h
  have hstrip : ∀ pre : String, pre.toList.head? ≠ some '{' → pre ≠ "" →
      stripPrefix inner pre = none := by
    intro pre hpre hne
    have hnot : startsWith inner pre = false := by
      by_contra htrue
      obtain ⟨q, rfl⟩ := startsWith_iff.mp (Bool.eq_true_of_not_eq_false htrue)
      apply hpre
      rw [← h, String.toList_append, List.head?_append_of_ne_nil]
      simpa using hne
    simp [stripPrefix, hnot]
  unfold resolvePlaceholder
  rw [if_neg hspec, hstrip "phase." (by decide) (by decide), hstrip "var." (by decide) (by decide)]
  exact ⟨_, rfl⟩

/-- A literal brace before the placeholder becomes the first character of the name. -/
lemma segments_brace {t : List Char} {r : InputRef} (ht : ¬ ['{', '{'] <:+: t ++ ['{'])
    (hs : Spelled r) (hn : Named r) (rest : List Char) :
    ∃ inner : String, inner.toList.head? = some '{' ∧ .placeholder inner ∈
      segments 0 (t ++ '{' :: '{' :: '{' :: (placeholderBody r ++ '}' :: '}' :: rest)) := by
  have hbody : '}' ∉ '{' :: placeholderBody r := by
    simpa using (capture_placeholder hs hn).1
  have ht' : ¬ ['{', '{'] <:+: t := fun h => ht (h.trans (List.infix_append_of_infix_left (by simp)))
  have hend : t.getLast? ≠ some '{' := by
    intro hlast
    obtain ⟨t', rfl⟩ := List.getLast?_eq_some_iff.mp hlast
    exact ht ⟨t', [], by simp⟩
  refine ⟨String.ofList (capture ('{' :: placeholderBody r)), ?_, ?_⟩
  · rw [String.toList_ofList]
    exact capture_head (by decide)
  · have hcons : '{' :: (placeholderBody r ++ '}' :: '}' :: rest) =
        ('{' :: placeholderBody r) ++ '}' :: '}' :: rest := rfl
    rw [segments_literal ht' fun h => absurd h hend, hcons,
      segments_placeholder (List.cons_ne_nil _ _) hbody]
    simp

end Rendering

section Names

variable {wf : Workflow} {phase : Phase} {before after : List Phase}

lemma parseInputRef_named {raw : String} {r : InputRef} (h : parseInputRef raw = .ok r) : Named r := by
  unfold parseInputRef at h
  split at h
  · cases h
    trivial
  · split at h
    · split at h
      · cases h
      · cases h
        trivial
    · split at h
      · cases h
      · next hne =>
        cases h
        exact hne
    · cases h

lemma resolveInputs_of_valid (h : validate wf = []) (hphase : phase ∈ wf.phases) :
    (∀ raw ∈ phase.inputs, ∃ r, parseInputRef raw = .ok r) ∧
      ∀ raw ∈ phase.inputs, ∀ r, parseInputRef raw = .ok r →
        Grammar.inputError wf.phases phase r = none := by
  have herrors := Grammar.phaseErrors_nil h hphase
  unfold Grammar.phaseErrors at herrors
  cases hresolve : Grammar.resolveInputs phase with
  | error errors =>
      simp only [hresolve, List.append_eq_nil_iff] at herrors
      obtain ⟨⟨⟨-, hnone⟩, -⟩, -⟩ := herrors
      unfold Grammar.resolveInputs Grammar.resolveAll at hresolve
      dsimp only at hresolve
      split at hresolve
      · cases hresolve
      · next hne => exact absurd ((Except.error.inj hresolve).trans hnone) hne
  | ok refs =>
      simp only [hresolve, List.append_eq_nil_iff] at herrors
      obtain ⟨⟨-, hnone⟩, -⟩ := herrors
      unfold Grammar.resolveInputs Grammar.resolveAll at hresolve
      dsimp only at hresolve
      split at hresolve
      swap
      · cases hresolve
      next hok =>
      rw [List.filterMap_eq_nil_iff] at hok hnone
      refine ⟨fun raw hraw => ?_, fun raw hraw r hr => hnone r ?_⟩
      · cases hparse : parseInputRef raw with
        | ok r => exact ⟨r, rfl⟩
        | error e =>
            have herror := hok raw hraw
            rw [hparse] at herror
            cases herror
      · rw [← Except.ok.inj hresolve]
        exact List.mem_filterMap.mpr ⟨raw, hraw, by rw [hr]; rfl⟩

lemma getElem_of_phaseIndex {phases : List Phase} {name : String} {i : ℕ}
    (h : Grammar.phaseIndex phases name = some i) : ∃ p, phases[i]? = some p ∧ p.name = name := by
  obtain ⟨⟨p, k⟩, hfind, rfl⟩ := Option.map_eq_some_iff.mp h
  have hname := List.find?_some hfind
  have hmem := List.mem_reverse.mp (List.mem_of_find?_eq_some hfind)
  exact ⟨p, List.mk_mem_zipIdx_iff_getElem?.mp hmem, by simpa using hname⟩

/-- A declared phase input names an earlier phase. -/
lemma earlier_of_declared (h : validate wf = []) (hwf : wf.phases = before ++ phase :: after)
    {raw name : String} (hraw : raw ∈ phase.inputs) (hparse : parseInputRef raw = .ok (.phaseRef name)) :
    name ∈ before.map Phase.name := by
  have hphase : phase ∈ wf.phases := by simp [hwf]
  have hnone := (resolveInputs_of_valid h hphase).2 raw hraw _ hparse
  have hnodup := Grammar.nodup_names h
  unfold Grammar.inputError at hnone
  dsimp only at hnone
  split at hnone
  · next i j hi hj =>
    split at hnone
    · cases hnone
    next hlt =>
    obtain ⟨p, hp, rfl⟩ := getElem_of_phaseIndex hi
    obtain ⟨q, hq, hqname⟩ := getElem_of_phaseIndex hj
    have hself : wf.phases[before.length]? = some phase := by simp [hwf]
    have hsame : j = before.length := by
      have hnames : (wf.phases.map Phase.name)[j]? =
          (wf.phases.map Phase.name)[before.length]? := by
        rw [List.getElem?_map, List.getElem?_map, hq, hself, Option.map_some, Option.map_some,
          hqname]
      have hlength : j < (wf.phases.map Phase.name).length := by
        rw [List.length_map]
        exact (List.getElem?_eq_some_iff.mp hq).1
      exact (List.getElem?_inj hlength hnodup).mp hnames
    have hbefore : before[i]? = some p := by
      have hi' : i < before.length := by omega
      rw [← hp, hwf, List.getElem?_append_left hi']
    exact List.mem_map.mpr ⟨p, List.mem_of_getElem? hbefore, rfl⟩
  · next i hi hj =>
    have hindex : Grammar.phaseIndex wf.phases phase.name ≠ none := by
      intro hnone
      have hfind := Option.map_eq_none_iff.mp hnone
      rw [List.find?_eq_none] at hfind
      obtain ⟨k, hk⟩ := List.mem_iff_getElem?.mp hphase
      have hmem : (phase, k) ∈ wf.phases.zipIdx.reverse :=
        List.mem_reverse.mpr (List.mk_mem_zipIdx_iff_getElem?.mpr hk)
      exact hfind _ hmem (by simp)
    exact absurd hj hindex
  · cases hnone

end Names

section Declared

/-- The outputs of the phases that have run; a later one of the same name replaces the earlier. -/
def outputsOf (done : List (String × PhaseOutput)) (name : String) : Option PhaseOutput :=
  done.reverse.lookup name

/-- A workflow that validates and whose prompts are written for declared inputs only. -/
structure Prompted (wf : Workflow) (prompts : Phase → Prompt) : Prop where
  valid : validate wf = []
  template : ∀ phase ∈ wf.phases, phase.promptTemplate = (prompts phase).text
  declared : ∀ phase ∈ wf.phases, ∀ i ∈ (prompts phase).items,
    ∃ raw ∈ phase.inputs, parseInputRef raw = .ok i.ref
  literal : ∀ phase ∈ wf.phases, (prompts phase).Literal

/-- In workflow order, with whatever the earlier phases have put out and the spec and the declared
vars supplied, the configuration of every phase has each input in its place. -/
def RendersAll (wf : Workflow) (prompts : Phase → Prompt) : Prop :=
  ∀ before phase after, wf.phases = before ++ phase :: after →
    ∀ done : List (String × PhaseOutput), done.map Prod.fst = before.map Phase.name →
    ∀ spec vars, (∀ raw ∈ phase.inputs, ∀ name, parseInputRef raw = .ok (.varRef name) →
      (vars name).isSome) →
    buildPhaseConfig phase (outputsOf done) (some spec) vars =
      .ok (configOf phase ((prompts phase).filled ⟨some spec, outputsOf done, vars⟩))

variable {wf : Workflow} {prompts : Phase → Prompt} {phase : Phase} {before after : List Phase}
  {ctx : TemplateContext}

lemma outputsOf_mem {done : List (String × PhaseOutput)} {name : String} {output : PhaseOutput}
    (h : outputsOf done name = some output) : (name, output) ∈ done :=
  List.mem_reverse.mp (List.lookup_eq_some_iff.mp h |>.elim fun l ⟨r, heq, _⟩ => by simp [heq])

lemma outputsOf_isSome {done : List (String × PhaseOutput)} {name : String}
    (h : name ∈ done.map Prod.fst) : (outputsOf done name).isSome := by
  rw [Option.isSome_iff_ne_none]
  intro hnone
  obtain ⟨x, hx, rfl⟩ := List.mem_map.mp h
  have hkeys := List.lookup_eq_none_iff.mp hnone x (List.mem_reverse.mpr hx)
  simp at hkeys

lemma Prompted.supplied (h : Prompted wf prompts) (hwf : wf.phases = before ++ phase :: after)
    {done : List (String × PhaseOutput)} (hdone : done.map Prod.fst = before.map Phase.name)
    {spec : String} {vars : String → Option String}
    (hvars : ∀ raw ∈ phase.inputs, ∀ name, parseInputRef raw = .ok (.varRef name) →
      (vars name).isSome) {i : Item} (hi : i ∈ (prompts phase).items) :
    Named i.ref ∧ (inputValue ⟨some spec, outputsOf done, vars⟩ i.ref).isSome := by
  have hphase : phase ∈ wf.phases := by simp [hwf]
  obtain ⟨raw, hraw, hparse⟩ := h.declared phase hphase i hi
  refine ⟨parseInputRef_named hparse, ?_⟩
  cases href : i.ref with
  | spec => rfl
  | varRef name =>
      rw [href] at hparse
      exact hvars raw hraw name hparse
  | phaseRef name =>
      rw [href] at hparse
      have hearlier := earlier_of_declared h.valid hwf hraw hparse
      rw [← hdone] at hearlier
      simpa [inputValue] using outputsOf_isSome hearlier

lemma resolvePhasePlaceholder_ok {inner rest v : String}
    (h : resolvePhasePlaceholder inner rest ctx = .ok v) :
    ∃ name output, '.' ∉ name.toList ∧ (∀ c ∈ name.toList, c ∈ rest.toList) ∧
      ctx.phaseOutputs name = some output ∧ (v = output.content ∨ v = output.path) := by
  unfold resolvePhasePlaceholder at h
  split at h
  · cases h
  next name tail hsplit =>
  obtain ⟨hdot, hname⟩ := splitOnce_before hsplit
  dsimp only at h
  rcases ite_eq_iff.mp h with ⟨-, herror⟩ | ⟨-, hok⟩
  · cases herror
  cases houtput : ctx.phaseOutputs name with
  | none =>
      rw [houtput] at hok
      cases hok
  | some output =>
      rw [houtput] at hok
      dsimp only at hok
      refine ⟨name, output, hdot, hname, houtput, ?_⟩
      split at hok
      · exact Or.inr (Except.ok.inj hok).symm
      · cases hok
      · exact Or.inl (Except.ok.inj hok).symm

lemma mem_of_stripPrefix {s pre rest : String} (h : stripPrefix s pre = some rest) :
    s = pre ++ rest := by
  unfold stripPrefix at h
  split at h
  · next hstarts =>
    obtain ⟨q, rfl⟩ := startsWith_iff.mp hstarts
    simpa using h
  · cases h

/-- Whatever is put in for a placeholder belongs to a name that is spelled. -/
lemma spelled_of_resolved {inner v : String} {k : ℕ} {cs : List Char}
    (hmem : .placeholder inner ∈ segments k cs) (h : resolvePlaceholder inner ctx = .ok v) :
    ∃ r, Spelled r ∧ (inputValue ctx r = some v ∨
      ∃ name output, r = .phaseRef name ∧ ctx.phaseOutputs name = some output ∧
        v = output.path) := by
  obtain ⟨body, hbody, hcapture⟩ := body_of_placeholder hmem
  have hchars : inner.toList = capture body := by rw [hcapture, String.toList_ofList]
  have hinner : '}' ∉ inner.toList := by
    rw [hchars]
    exact fun hc => hbody (mem_of_mem_capture hc)
  unfold resolvePlaceholder at h
  split at h
  · split at h
    · next spec hspec =>
      cases h
      exact ⟨.spec, trivial, Or.inl hspec⟩
    · cases h
  split at h
  · next rest _ _ hstrip =>
    rw [mem_of_stripPrefix hstrip, String.toList_append, List.mem_append, not_or] at hinner
    obtain ⟨name, output, hdot, hname, houtput, hv⟩ := resolvePhasePlaceholder_ok h
    refine ⟨.phaseRef name, ⟨hdot, fun hc => hinner.2 (hname _ hc)⟩, ?_⟩
    rcases hv with rfl | rfl
    · exact Or.inl (by simp [inputValue, houtput])
    · exact Or.inr ⟨name, output, rfl, houtput, rfl⟩
  · next name _ hstrip =>
    have happend := mem_of_stripPrefix hstrip
    split at h
    · cases h
    next hne =>
    split at h
    swap
    · cases h
    next value hvalue =>
    cases h
    have hname : name.toList ≠ [] := by simpa using hne
    refine ⟨.varRef name, ⟨?_, ?_⟩, Or.inl hvalue⟩
    · rw [happend, String.toList_append, List.mem_append, not_or] at hinner
      exact hinner.2
    · rcases capture_last body with hshort | hlast
      · rw [← hchars, happend] at hshort
        simp at hshort
      · rw [← hchars, happend, String.toList_append, List.getLast?_append_of_ne_nil _ hname] at hlast
        exact hlast
  · cases h

lemma exists_first {α : Type} {P : α → Prop} {xs : List α} (h : ¬ ∀ x ∈ xs, P x) :
    ∃ pre x post, xs = pre ++ x :: post ∧ (∀ y ∈ pre, P y) ∧ ¬ P x := by
  induction xs with
  | nil => exact absurd nofun h
  | cons y xs ih =>
      by_cases hy : P y
      · have hrest : ¬ ∀ x ∈ xs, P x := fun hall => h (List.forall_mem_cons.mpr ⟨hy, hall⟩)
        obtain ⟨pre, x, post, rfl, hpre, hx⟩ := ih hrest
        exact ⟨y :: pre, x, post, rfl, List.forall_mem_cons.mpr ⟨hy, hpre⟩, hx⟩
      · exact ⟨[], y, xs, rfl, nofun, hy⟩

lemma mem_segments_items {items : List Item} {rest : List Char} {seg : Segment}
    (hliteral : ∀ i ∈ items, NoOpening i.literal) (hplain : ∀ i ∈ items, i.Plain)
    (hn : ∀ i ∈ items, Named i.ref) (h : seg ∈ segments 0 rest) :
    seg ∈ segments 0 (items.flatMap Item.chars ++ rest) := by
  induction items with
  | nil => exact h
  | cons i items ih =>
      have htail := ih (fun j hj => hliteral j (List.mem_cons_of_mem _ hj))
        (fun j hj => hplain j (List.mem_cons_of_mem _ hj))
        (fun j hj => hn j (List.mem_cons_of_mem _ hj))
      rw [List.flatMap_cons, List.append_assoc, segments_item (hliteral i List.mem_cons_self)
        (hplain i List.mem_cons_self) (hn i List.mem_cons_self)]
      exact List.mem_append_right _ (List.mem_cons_of_mem _ htail)

/-- A prompt whose names are all spelled does not render with a brace before a placeholder. -/
lemma not_render_brace {p : Prompt} (hliteral : p.Literal) (hn : ∀ i ∈ p.items, Named i.ref)
    (hs : ∀ i ∈ p.items, Spelled i.ref) (hbrace : ¬ ∀ i ∈ p.items, i.Plain) (text : String) :
    render p.text ctx ≠ .ok text := by
  intro hrender
  obtain ⟨pre, i, post, hitems, hpre, hi⟩ := exists_first hbrace
  have hmem : i ∈ p.items := by simp [hitems]
  have hsub : ∀ j ∈ pre, j ∈ p.items := by
    intro j hj
    simp [hitems, hj]
  have hlast : i.literal.toList.getLast? = some '{' := by
    by_contra hne
    exact hi ⟨hne, hs i hmem⟩
  obtain ⟨t, ht⟩ := List.getLast?_eq_some_iff.mp hlast
  have hopening := hliteral.1 i hmem
  unfold NoOpening at hopening
  rw [ht] at hopening
  obtain ⟨inner, hhead, hsegment⟩ := segments_brace hopening (hs i hmem) (hn i hmem)
    (post.flatMap Item.chars ++ p.tail.toList)
  have htext : p.text.toList = pre.flatMap Item.chars ++
      (t ++ '{' :: '{' :: '{' :: (placeholderBody i.ref ++ '}' :: '}' ::
        (post.flatMap Item.chars ++ p.tail.toList))) := by
    rw [Prompt.text, String.toList_ofList, hitems, List.flatMap_append, List.flatMap_cons]
    simp [Item.chars, ht]
  have hinside := mem_segments_items (fun j hj => hliteral.1 j (hsub j hj)) hpre
    (fun j hj => hn j (hsub j hj)) hsegment
  rw [← htext] at hinside
  obtain ⟨v, hv⟩ := (yields_of_render hrender).resolved hinside
  obtain ⟨e, he⟩ := resolve_brace ctx hhead
  exact absurd (he.symm.trans hv) nofun

/-- One input has a text, all others have none. -/
def only (r : InputRef) (text : String) (r' : InputRef) : String := if r' = r then text else ""

lemma length_le_filled {ctx : TemplateContext} {p : Prompt} {i : Item} {v : String} (hi : i ∈ p.items)
    (hv : inputValue ctx i.ref = some v) : v.toList.length ≤ (p.filled ctx).toList.length := by
  obtain ⟨pre, post, hitems⟩ := List.append_of_mem hi
  have hfilled : i.filled ctx = i.literal.toList ++ v.toList := by rw [Item.filled, hv]; rfl
  rw [Prompt.filled, String.toList_ofList, hitems, List.flatMap_append, List.flatMap_cons, hfilled]
  simp only [List.length_append]
  omega

/-- A name that is not spelled is never looked up, so its text does not come in. -/
lemma not_render_unspelled {p : Prompt} {i : Item} (hi : i ∈ p.items) (hs : ¬ Spelled i.ref)
    {text : String} (hlong : p.text.toList.length < text.toList.length)
    (hv : inputValue ctx i.ref = some text)
    (hothers : ∀ r v, r ≠ i.ref → inputValue ctx r = some v → v = "")
    (hpaths : ∀ name output, ctx.phaseOutputs name = some output → output.path = "") :
    render p.text ctx ≠ .ok (p.filled ctx) := by
  intro hrender
  have hyields := yields_of_render hrender
  have hlength := hyields.length_le fun inner v hmem hresolve => by
    obtain ⟨r, hspelled, hvalue | ⟨name, output, rfl, houtput, rfl⟩⟩ :=
      spelled_of_resolved hmem hresolve
    · have hne : r ≠ i.ref := by
        rintro rfl
        exact hs hspelled
      exact hothers r v hne hvalue
    · exact hpaths name output houtput
  have hsegments := segments_length 0 p.text.toList
  have hfilled : text.toList.length ≤ (p.filled ctx).toList.length := length_le_filled hi hv
  omega

/-- Every declared input renders into its place exactly when no literal text ends in a brace before
a placeholder, no phase that is named has a dot or a closing brace in its name, and no var that is
named has a closing brace or white space at its end. -/
theorem declared_inputs_render_iff (h : Prompted wf prompts) :
    RendersAll wf prompts ↔ ∀ phase ∈ wf.phases, ∀ i ∈ (prompts phase).items, i.Plain := by
  constructor
  · intro hrenders phase hphase
    obtain ⟨before, after, hwf⟩ := List.append_of_mem hphase
    have htemplate := h.template phase hphase
    have hrender : ∀ r text, ∃ ctx : TemplateContext,
        (∀ i ∈ (prompts phase).items,
          Named i.ref ∧ inputValue ctx i.ref = some (only r text i.ref)) ∧
        (∀ r' v, inputValue ctx r' = some v → v = only r text r') ∧
        (∀ name output, ctx.phaseOutputs name = some output → output.path = "") ∧
        render (prompts phase).text ctx = .ok ((prompts phase).filled ctx) := by
      intro r text
      set done := before.map fun q => (q.name, PhaseOutput.mk (only r text (.phaseRef q.name)) "")
        with hdone
      have hfst : done.map Prod.fst = before.map Phase.name := by simp [hdone]
      set vars : String → Option String := fun name => some (only r text (.varRef name))
      have houtputs : ∀ name output, outputsOf done name = some output →
          output = ⟨only r text (.phaseRef name), ""⟩ := by
        intro name output houtput
        obtain ⟨q, -, hq⟩ := List.mem_map.mp (outputsOf_mem houtput)
        obtain ⟨rfl, rfl⟩ := Prod.mk.inj hq
        rfl
      have hvalues : ∀ r' v, inputValue ⟨some (only r text .spec), outputsOf done, vars⟩ r' =
          some v → v = only r text r' := by
        intro r' v hv
        cases r' with
        | spec => exact (Option.some.inj hv).symm
        | varRef name => exact (Option.some.inj hv).symm
        | phaseRef name =>
            obtain ⟨output, houtput, rfl⟩ := Option.map_eq_some_iff.mp hv
            rw [houtputs name output houtput]
      have hbuild := hrenders before phase after hwf done hfst (only r text .spec) vars
        fun _ _ _ _ => rfl
      obtain ⟨rendered, hrendered, hcfg⟩ := buildPhaseConfig_eq_ok hbuild
      refine ⟨⟨some (only r text .spec), outputsOf done, vars⟩, fun i hi => ?_, hvalues,
        fun name output houtput => by rw [houtputs name output houtput], ?_⟩
      · have hvars : ∀ raw ∈ phase.inputs, ∀ name, parseInputRef raw = .ok (.varRef name) →
            (vars name).isSome := fun _ _ _ _ => rfl
        have hsupplied : Named i.ref ∧
            (inputValue ⟨some (only r text .spec), outputsOf done, vars⟩ i.ref).isSome :=
          h.supplied hwf hfst hvars hi
        obtain ⟨hnamed, hsome⟩ := hsupplied
        obtain ⟨v, hv⟩ := Option.isSome_iff_exists.mp hsome
        exact ⟨hnamed, by rw [hv, hvalues _ v hv]⟩
      · have hsame := congrArg Dispatch.PhaseConfig.promptTemplate hcfg
        rw [← htemplate, hrendered]
        exact congrArg Except.ok hsame.symm
    have hspelled : ∀ i ∈ (prompts phase).items, Spelled i.ref := by
      intro i hi
      by_contra hs
      set text := String.ofList (List.replicate ((prompts phase).text.toList.length + 1) 'x')
        with htext
      obtain ⟨ctx, hctx, hvalues, hpaths, hok⟩ := hrender i.ref text
      refine @not_render_unspelled ctx _ _ hi hs text ?_ ?_ (fun r v hne hv => ?_) hpaths hok
      · rw [htext, String.toList_ofList, List.length_replicate]
        omega
      · rw [(hctx i hi).2, only, if_pos rfl]
      · rw [hvalues r v hv, only, if_neg hne]
    by_contra hbrace
    obtain ⟨ctx, hctx, -, -, hok⟩ := hrender .spec ""
    exact not_render_brace (h.literal phase hphase) (fun i hi => (hctx i hi).1) hspelled hbrace _ hok
  · intro hplain before phase after hwf done hdone spec vars hvars
    have hphase : phase ∈ wf.phases := by simp [hwf]
    have hsupplied : ∀ i ∈ (prompts phase).items, Named i.ref ∧
        (inputValue ⟨some spec, outputsOf done, vars⟩ i.ref).isSome :=
      fun i hi => h.supplied hwf hdone hvars hi
    have hrender := render_plain (h.literal phase hphase) (hplain phase hphase)
      (fun i hi => (hsupplied i hi).1) fun i hi => (hsupplied i hi).2
    unfold buildPhaseConfig
    rw [h.template phase hphase, hrender]

end Declared

section Dotted

/-- A review whose one input is the output of the phase before it. -/
def reviewPrompts (design : String) (phase : Phase) : Prompt :=
  if phase.name = "review" then ⟨[⟨"Review ", .phaseRef design⟩], " well"⟩ else ⟨[], "Go"⟩

def reviewed (design : String) : Workflow where
  name := "reviewed"
  phases := [⟨design, .single, ["claude/"], "Go", [], "design.md"⟩,
    ⟨"review", .single, ["claude/"], (Prompt.mk [⟨"Review ", .phaseRef design⟩] " well").text,
      ["phase:" ++ design], "review.md"⟩]

lemma reviewed_prompted {design : String} (hvalid : validate (reviewed design) = [])
    (hparse : parseInputRef ("phase:" ++ design) = .ok (.phaseRef design))
    (hname : design ≠ "review") : Prompted (reviewed design) (reviewPrompts design) where
  valid := hvalid
  template := by
    intro phase hphase
    rcases List.mem_cons.mp hphase with rfl | hphase
    · simp [reviewPrompts, hname, Prompt.text]
    · obtain rfl := List.mem_singleton.mp hphase
      rfl
  declared := by
    intro phase hphase i hi
    rcases List.mem_cons.mp hphase with rfl | hphase
    · simp [reviewPrompts, hname] at hi
    · obtain rfl := List.mem_singleton.mp hphase
      obtain rfl := List.mem_singleton.mp hi
      exact ⟨_, List.mem_singleton_self _, hparse⟩
  literal := by
    intro phase hphase
    rcases List.mem_cons.mp hphase with rfl | hphase
    · simp only [reviewPrompts, hname, if_false]
      decide
    · obtain rfl := List.mem_singleton.mp hphase
      have hliteral : NoOpening "Review " := by decide
      have htail : NoOpening " well" := by decide
      exact ⟨List.forall_mem_singleton.mpr hliteral, htail⟩

theorem declared_inputs_render_design :
    RendersAll (reviewed "design") (reviewPrompts "design") ↔
      ∀ phase ∈ (reviewed "design").phases, ∀ i ∈ (reviewPrompts "design" phase).items, i.Plain :=
  declared_inputs_render_iff (reviewed_prompted (by decide) (by decide) (by decide))

/-- The name of the first phase has a dot: the workflow validates, the first phase runs, and the
second one's prompt is malformed. -/
theorem dotted_name_malformed :
    Prompted (reviewed "design.v2") (reviewPrompts "design.v2") ∧
      (∀ phase ∈ (reviewed "design.v2").phases.drop 1,
        buildPhaseConfig phase (outputsOf [("design.v2", ⟨"text", "design.md"⟩)]) (some "")
            (fun _ => none) = .error ⟨"Template render failed for phase 'review'",
            .malformedPlaceholder "phase.design.v2.output"⟩) ∧
      ¬ RendersAll (reviewed "design.v2") (reviewPrompts "design.v2") := by
  have hprompted := @reviewed_prompted "design.v2" (by decide) (by decide) (by decide)
  have herror : ∀ phase ∈ (reviewed "design.v2").phases.drop 1,
      buildPhaseConfig phase (outputsOf [("design.v2", ⟨"text", "design.md"⟩)]) (some "")
        (fun _ => none) = .error ⟨"Template render failed for phase 'review'",
          .malformedPlaceholder "phase.design.v2.output"⟩ := by decide
  refine ⟨hprompted, herror, fun hrenders => ?_⟩
  have hparse : parseInputRef "phase:design.v2" = .ok (.phaseRef "design.v2") := by decide
  have hbuild := hrenders [_] _ [] rfl [("design.v2", ⟨"text", "design.md"⟩)] rfl "" (fun _ => none)
    (List.forall_mem_singleton.mpr fun name hname => absurd (hparse.symm.trans hname) nofun)
  rw [herror _ (by decide)] at hbuild
  cases hbuild

end Dotted

end Loker.DeclaredInputs
