import Loker.TomlText

/-! A TOML file as its statements: what one of them says of a top-level key, and what becomes of
the document when the statement that assigns such a key is written anew, added or left out. -/

namespace Loker.TomlStatements

open TextLines TomlText

section Statements

/-- A blank line or comment, a pair with its dotted key, or a header. -/
inductive Statement where
  | nothing
  | pair (key : String) (path : List String) (value : Toml)
  | header (element : Bool) (key : String) (path : List String)

def Statement.isHeader : Statement → Bool
  | .header _ _ _ => true
  | _ => false

/-- What a statement has to say of one top-level key. -/
inductive Item where
  | assigned (path : List String) (value : Toml)
  | opened (element : Bool) (path : List String)
  | inside (path : List String) (value : Toml)

/-- `table` is the top-level key of the header that the statements stand under. -/
def itemsFrom (key : String) : Option String → List Statement → List Item
  | _, [] => []
  | table, .nothing :: ss => itemsFrom key table ss
  | none, .pair k path v :: ss =>
      if k = key then .assigned path v :: itemsFrom key none ss else itemsFrom key none ss
  | some table, .pair k path v :: ss =>
      if table = key then .inside (k :: path) v :: itemsFrom key (some table) ss
      else itemsFrom key (some table) ss
  | _, .header element k path :: ss =>
      if k = key then .opened element path :: itemsFrom key (some k) ss
      else itemsFrom key (some k) ss

def itemsOf (key : String) (ss : List Statement) : List Item := itemsFrom key none ss

variable {key k : String} {ss ts : List Statement} {v : Toml}

lemma itemsOf_append (h : ∀ s ∈ ss, s.isHeader = false) :
    itemsOf key (ss ++ ts) = itemsOf key ss ++ itemsOf key ts := by
  induction ss with
  | nil => rfl
  | cons s ss ih =>
      have hrest := ih fun s hs => h s (List.mem_cons_of_mem _ hs)
      cases s with
      | nothing => exact hrest
      | pair k path v =>
          rw [itemsOf, itemsOf, List.cons_append, itemsFrom, itemsFrom]
          split
          · rw [List.cons_append, List.cons.injEq]
            exact ⟨rfl, hrest⟩
          · exact hrest
      | header element k path => cases h _ List.mem_cons_self

lemma itemsOf_pair_self : itemsOf key (.pair key [] v :: ss) = .assigned [] v :: itemsOf key ss :=
  if_pos rfl

lemma itemsOf_pair_of_ne (h : k ≠ key) : itemsOf key (.pair k [] v :: ss) = itemsOf key ss :=
  if_neg h

end Statements

section Texts

def isBlank (c : Char) : Bool := c = ' ' || c = '\t'

/-- What may stand behind a statement on its line: blanks and a comment. -/
def Trailing (t : List Char) : Prop :=
  ∃ blanks comment, t = blanks ++ comment ∧ blanks.all isBlank = true ∧
    (comment = [] ∨ ∃ body, comment = '#' :: body ∧ ∀ c ∈ body, isControl c = false)

/-- A text of which a basic string has every character, the backslashes doubled. -/
def Writable (v : List Char) : Prop := ∀ c ∈ v, c ≠ '"' ∧ isControl c = false

def doubled (v : List Char) : List Char := v.flatMap fun c => if c = '\\' then ['\\', '\\'] else [c]

def pairText (key gap gap' raw : List Char) : List Char :=
  key ++ gap ++ '=' :: (gap' ++ '"' :: (raw ++ ['"']))

/-- The pair as it is written anew. -/
def plainPair (key raw : List Char) : List Char := pairText key [' '] [' '] raw

def joinLines : List (List Char) → List Char
  | [] => []
  | [l] => l
  | l :: ls => l ++ '\n' :: joinLines ls

/-- Every line with a line break before it. -/
def following (ls : List (List Char)) : List Char := ls.flatMap ('\n' :: ·)

lemma joinLines_cons (l : List Char) (ls : List (List Char)) :
    joinLines (l :: ls) = l ++ following ls := by
  induction ls generalizing l with
  | nil => exact (List.append_nil l).symm
  | cons m ls ih =>
      rw [joinLines, ih, following, following, List.flatMap_cons, List.cons_append]
      exact nofun

lemma joinLines_middle (above : List (List Char)) (l : List Char) (below : List (List Char)) :
    joinLines (above ++ l :: below) = unlines above ++ (l ++ following below) := by
  induction above with
  | nil => exact joinLines_cons l below
  | cons a above ih =>
      have hne : above ++ l :: below ≠ [] := by simp
      obtain ⟨m, ms, hms⟩ := List.exists_cons_of_ne_nil hne
      rw [List.cons_append, hms, joinLines, ← hms, ih, unlines_cons, List.append_assoc,
        List.cons_append]
      exact nofun

end Texts

section Readers

/-- A reader of TOML files, the meaning of one statement, and the value that what is said of a
top-level key gives it. -/
structure TomlReader where
  fromStr : String → Option Table
  statement : List Char → Option Statement
  entry : List Item → Option (Option Toml)

variable (g : TomlReader)

/-- The texts say these statements; a `\r` before a line break belongs to it. -/
def Means (es : List (List Char)) (ss : List Statement) : Prop :=
  List.Forall₂ (fun e s => g.statement (dropCR e) = some s) es ss

/-- The file that these texts are the statements of. -/
structure Document (es : List (List Char)) (ss : List Statement) (doc : Table) : Prop where
  means : Means g es ss
  ends : (joinLines es).getLast? ≠ some '\r'
  entries : ∀ key, g.entry (itemsOf key ss) = some (doc key)

/-- A file is read statement by statement, and each top-level key by what is said of it; a key that
is assigned is said nothing else of. -/
structure TomlReader.Lawful : Prop where
  reads : ∀ es ss doc, Document g es ss doc → g.fromStr (String.ofList (joinLines es)) = some doc
  pair : ∀ (key : String) lead v t, IsBareKey key → lead.all isBlank = true → Writable v →
    Trailing t → g.statement (lead ++ plainPair key.toList (doubled v) ++ t) =
      some (.pair key [] (.string (String.ofList v)))
  trailing : ∀ e s t, g.statement e = some s → Trailing t → g.statement (e ++ t) = some s
  absent : g.entry [] = some none
  assigned : ∀ v, g.entry [.assigned [] v] = some (some v)
  alone : ∀ items r v, g.entry items = some r → .assigned [] v ∈ items → items = [.assigned [] v]
  present : ∀ items, g.entry items = some none → items = []

/-- A place between the statements of a file, above its first header. -/
structure Around where
  above : List (List Char)
  below : List (List Char)
  saidAbove : List Statement
  saidBelow : List Statement
  means_above : Means g above saidAbove
  means_below : Means g below saidBelow
  root : ∀ s ∈ saidAbove, s.isHeader = false

variable {g} {a : Around g} {key k : String} {v w : Toml} {doc : Table} {e : List Char}

lemma Means.append {es fs : List (List Char)} {ss ts : List Statement} (h : Means g es ss)
    (h' : Means g fs ts) : Means g (es ++ fs) (ss ++ ts) := List.rel_append h h'

lemma Means.replace_last {front : List (List Char)} {e' : List Char} {ss : List Statement}
    (h : Means g (front ++ [e]) ss)
    (he : ∀ s, g.statement (dropCR e) = some s → g.statement (dropCR e') = some s) :
    Means g (front ++ [e']) ss := by
  induction front generalizing ss with
  | nil =>
      cases h with
      | cons hs hnil => exact .cons (he _ hs) hnil
  | cons f front ih =>
      cases h with
      | cons hs hrest => exact .cons hs (ih hrest)

/-- The texts around with a pair between them. -/
def Around.paired (a : Around g) (e : List Char) : List (List Char) := a.above ++ e :: a.below

lemma Around.items_pair (a : Around g) (key k : String) (v : Toml) :
    itemsOf key (a.saidAbove ++ .pair k [] v :: a.saidBelow) = itemsOf key a.saidAbove ++
      ((if k = key then [.assigned [] v] else []) ++ itemsOf key a.saidBelow) := by
  rw [itemsOf_append a.root]
  by_cases hk : k = key
  · rw [hk, itemsOf_pair_self, if_pos rfl, List.singleton_append]
  · rw [itemsOf_pair_of_ne hk, if_neg hk, List.nil_append]

lemma Around.items_none (a : Around g) (key : String) :
    itemsOf key (a.saidAbove ++ a.saidBelow) =
      itemsOf key a.saidAbove ++ itemsOf key a.saidBelow := itemsOf_append a.root

/-- Of a key that is assigned nothing is said around. -/
lemma Around.nothing_else (hg : g.Lawful) (a : Around g)
    (h : Document g (a.paired e) (a.saidAbove ++ .pair key [] v :: a.saidBelow) doc) :
    itemsOf key a.saidAbove = [] ∧ itemsOf key a.saidBelow = [] := by
  have hentry := h.entries key
  rw [a.items_pair, if_pos rfl, List.singleton_append] at hentry
  have hmem : Item.assigned [] v ∈
      itemsOf key a.saidAbove ++ .assigned [] v :: itemsOf key a.saidBelow :=
    List.mem_append_right _ List.mem_cons_self
  have hlength := congrArg List.length (hg.alone _ _ _ hentry hmem)
  rw [List.length_append, List.length_cons, List.length_singleton] at hlength
  constructor
  · exact List.eq_nil_of_length_eq_zero (by omega)
  · exact List.eq_nil_of_length_eq_zero (by omega)

/-- Writing the pair of a key anew changes this key only. -/
lemma Around.replace (hg : g.Lawful) (a : Around g) {e' : List Char}
    (h : Document g (a.paired e) (a.saidAbove ++ .pair key [] v :: a.saidBelow) doc)
    (hmeans : g.statement (dropCR e') = some (.pair key [] w))
    (hends : (joinLines (a.paired e')).getLast? ≠ some '\r') :
    Document g (a.paired e') (a.saidAbove ++ .pair key [] w :: a.saidBelow)
      (Function.update doc key (some w)) := by
  obtain ⟨habove, hbelow⟩ := a.nothing_else hg h
  refine ⟨a.means_above.append (.cons hmeans a.means_below), hends, fun k => ?_⟩
  have hentry := h.entries k
  rw [a.items_pair] at hentry ⊢
  by_cases hk : k = key
  · subst hk
    rw [if_pos rfl, habove, hbelow, Function.update_self]
    exact hg.assigned w
  · rw [if_neg (Ne.symm hk)] at hentry ⊢
    rw [Function.update_of_ne hk]
    exact hentry

/-- Adding a pair of a key that nothing is said of sets this key only. -/
lemma Around.insert (hg : g.Lawful) (a : Around g)
    (h : Document g (a.above ++ a.below) (a.saidAbove ++ a.saidBelow) doc)
    (habsent : doc key = none)
    (hmeans : g.statement (dropCR e) = some (.pair key [] w))
    (hends : (joinLines (a.paired e)).getLast? ≠ some '\r') :
    Document g (a.paired e) (a.saidAbove ++ .pair key [] w :: a.saidBelow)
      (Function.update doc key (some w)) := by
  refine ⟨a.means_above.append (.cons hmeans a.means_below), hends, fun k => ?_⟩
  have hentry := h.entries k
  rw [a.items_none] at hentry
  rw [a.items_pair]
  by_cases hk : k = key
  · subst hk
    rw [habsent] at hentry
    obtain ⟨habove, hbelow⟩ := List.append_eq_nil_iff.mp (hg.present _ hentry)
    rw [if_pos rfl, habove, hbelow, Function.update_self]
    exact hg.assigned w
  · rw [if_neg (Ne.symm hk), Function.update_of_ne hk, List.nil_append]
    exact hentry

/-- Leaving a pair out takes its key away and no other. -/
lemma Around.remove (hg : g.Lawful) (a b : Around g) (habove : b.saidAbove = a.saidAbove)
    (hbelow : b.saidBelow = a.saidBelow)
    (h : Document g (a.paired e) (a.saidAbove ++ .pair key [] v :: a.saidBelow) doc)
    (hends : (joinLines (b.above ++ b.below)).getLast? ≠ some '\r') :
    Document g (b.above ++ b.below) (b.saidAbove ++ b.saidBelow)
      (Function.update doc key none) := by
  obtain ⟨hnone, hnone'⟩ := a.nothing_else hg h
  refine ⟨b.means_above.append b.means_below, hends, fun k => ?_⟩
  have hentry := h.entries k
  rw [a.items_pair] at hentry
  rw [b.items_none, habove, hbelow]
  by_cases hk : k = key
  · subst hk
    rw [hnone, hnone', Function.update_self]
    exact hg.absent
  · rw [if_neg (Ne.symm hk), List.nil_append] at hentry
    rw [Function.update_of_ne hk]
    exact hentry

end Readers

section Places

variable (g : TomlReader)

/-- The pair that assigns a top-level key, where it stands in a file. -/
structure Place (key : String) extends Around g where
  lead : List Char
  gap : List Char
  gap' : List Char
  raw : List Char
  tail : List Char
  value : Toml
  doc : Table
  lead_blank : lead.all isBlank = true
  gap_blank : gap.all isBlank = true
  gap'_blank : gap'.all isBlank = true
  raw_plain : '"' ∉ raw
  tail_trailing : Trailing (dropCR tail)
  document : Document g (toAround.paired (lead ++ pairText key.toList gap gap' raw ++ tail))
    (saidAbove ++ .pair key [] value :: saidBelow) doc

namespace Place

variable {g} {key : String}

def before (p : Place g key) : List Char := unlines p.above ++ p.lead

def pair (p : Place g key) : List Char := pairText key.toList p.gap p.gap' p.raw

def after (p : Place g key) : List Char := p.tail ++ following p.below

def text (p : Place g key) : List Char := p.before ++ (p.pair ++ p.after)

/-- The file with the pair written anew. -/
def written (p : Place g key) (v : List Char) : List Char :=
  p.before ++ (plainPair key.toList (doubled v) ++ p.after)

lemma joinLines_paired (p : Place g key) (e : List Char) :
    joinLines (p.paired (p.lead ++ e ++ p.tail)) = p.before ++ (e ++ p.after) := by
  rw [Around.paired, joinLines_middle, before, after]
  simp only [List.append_assoc]

lemma ends_replaced {l x y t : List Char} (h : (l ++ (x ++ t)).getLast? ≠ some '\r') (hy : y ≠ [])
    (hlast : y.getLast? ≠ some '\r') : (l ++ (y ++ t)).getLast? ≠ some '\r' := by
  by_cases ht : t = []
  · rw [ht, List.append_nil, List.getLast?_append_of_ne_nil l hy]
    exact hlast
  · rw [← List.append_assoc, List.getLast?_append_of_ne_nil _ ht] at h ⊢
    exact h

lemma last_pairText (key gap gap' raw : List Char) :
    (pairText key gap gap' raw).getLast? = some '"' := by
  have htext : pairText key gap gap' raw =
      (key ++ gap ++ '=' :: (gap' ++ '"' :: raw)) ++ ['"'] := by simp [pairText]
  rw [htext, List.getLast?_concat]

lemma last_unlines (ls : List (List Char)) : (unlines ls).getLast? ≠ some '\r' := by
  rcases List.eq_nil_or_concat' ls with rfl | ⟨front, l, rfl⟩
  · exact nofun
  · rw [unlines_append, unlines_cons, unlines_nil, ← List.append_assoc, List.getLast?_concat]
    decide

lemma pairText_ne_nil (key gap gap' raw : List Char) : pairText key gap gap' raw ≠ [] := by
  intro h
  have hlast := last_pairText key gap gap' raw
  rw [h] at hlast
  cases hlast

lemma read (p : Place g key) (hg : g.Lawful) : g.fromStr (String.ofList p.text) = some p.doc := by
  rw [text, pair, ← joinLines_paired]
  exact hg.reads _ _ _ p.document

/-- A pair written anew is read as its new value. -/
lemma read_written (p : Place g key) (hg : g.Lawful) (hkey : IsBareKey key) {v : List Char}
    (hv : Writable v) : g.fromStr (String.ofList (p.written v)) =
      some (Function.update p.doc key (some (.string (String.ofList v)))) := by
  have hends : (p.before ++ (p.pair ++ p.after)).getLast? ≠ some '\r' := by
    rw [pair, ← joinLines_paired]
    exact p.document.ends
  have hlast : (p.lead ++ plainPair key.toList (doubled v)).getLast? ≠ some '\r' := by
    rw [plainPair, List.getLast?_append_of_ne_nil _ (pairText_ne_nil _ _ _ _), last_pairText]
    decide
  have hmeans : g.statement (dropCR (p.lead ++ plainPair key.toList (doubled v) ++ p.tail)) =
      some (.pair key [] (.string (String.ofList v))) := by
    rw [dropCR_append hlast]
    exact hg.pair key p.lead v _ hkey p.lead_blank hv p.tail_trailing
  have hplain : (plainPair key.toList (doubled v)).getLast? ≠ some '\r' := by
    rw [plainPair, last_pairText]
    decide
  have hdocument := p.toAround.replace hg p.document hmeans (by
    rw [joinLines_paired]
    exact ends_replaced hends (pairText_ne_nil _ _ _ _) hplain)
  rw [written, ← joinLines_paired]
  exact hg.reads _ _ _ hdocument

/-- A pair left out, with the line break before it, takes its key away; a `\r` that this line break
has before it needs another one. -/
lemma read_removed (p : Place g key) (hg : g.Lawful)
    {front : List (List Char)} {prev : List Char} (habove : p.above = front ++ [prev])
    (hreturn : prev.getLast? = some '\r' → p.tail = [] ∧ p.below ≠ []) :
    g.fromStr (String.ofList (unlines front ++ (prev ++ p.after))) =
      some (Function.update p.doc key none) := by
  have hmeans : Means g (front ++ [prev ++ p.tail]) p.saidAbove := by
    apply Means.replace_last (habove ▸ p.means_above)
    intro s hs
    by_cases hlast : prev.getLast? = some '\r'
    · rw [(hreturn hlast).1, List.append_nil]
      exact hs
    · rw [dropCR_eq_self hlast] at hs
      rw [dropCR_append hlast]
      exact hg.trailing prev s _ hs p.tail_trailing
  let b : Around g :=
    ⟨front ++ [prev ++ p.tail], p.below, p.saidAbove, p.saidBelow, hmeans, p.means_below, p.root⟩
  have htext : joinLines (b.above ++ b.below) = unlines front ++ (prev ++ p.after) := by
    have hmiddle := joinLines_middle front (prev ++ p.tail) p.below
    rw [List.append_cons] at hmiddle
    rw [hmiddle, after, List.append_assoc]
  have hends : (unlines front ++ (prev ++ p.after)).getLast? ≠ some '\r' := by
    have hold := p.document.ends
    rw [joinLines_paired] at hold
    by_cases hafter : p.after = []
    · have hlast : prev.getLast? ≠ some '\r' := by
        intro hlast
        obtain ⟨-, hbelow⟩ := hreturn hlast
        obtain ⟨l, ls, hls⟩ := List.exists_cons_of_ne_nil hbelow
        rw [after, hls, following, List.flatMap_cons, List.append_eq_nil_iff] at hafter
        cases hafter.2
      rw [hafter, List.append_nil]
      by_cases hprev : prev = []
      · rw [hprev, List.append_nil]
        exact last_unlines front
      · rw [List.getLast?_append_of_ne_nil _ hprev]
        exact hlast
    · rw [← List.append_assoc, List.getLast?_append_of_ne_nil _ hafter] at hold ⊢
      exact hold
  rw [← htext] at hends ⊢
  exact hg.reads _ _ _ (p.toAround.remove hg b rfl rfl p.document hends)

end Place

variable {g} {key : String} {doc : Table}

lemma trailing_nil : Trailing [] := ⟨[], [], rfl, rfl, .inl rfl⟩

/-- A new pair between two statements is read as its value. -/
lemma Around.read_inserted (a : Around g) (hg : g.Lawful) (hkey : IsBareKey key) {v : List Char}
    (hv : Writable v) (h : Document g (a.above ++ a.below) (a.saidAbove ++ a.saidBelow) doc)
    (habsent : doc key = none) :
    g.fromStr (String.ofList
      (unlines a.above ++ (plainPair key.toList (doubled v) ++ following a.below))) =
        some (Function.update doc key (some (.string (String.ofList v)))) := by
  have hplain : (plainPair key.toList (doubled v)).getLast? ≠ some '\r' := by
    rw [plainPair, Place.last_pairText]
    decide
  have hmeans : g.statement (dropCR (plainPair key.toList (doubled v))) =
      some (.pair key [] (.string (String.ofList v))) := by
    have hpair := hg.pair key [] v [] hkey rfl hv trailing_nil
    rwa [List.nil_append, List.append_nil, ← dropCR_eq_self hplain] at hpair
  have hends : (joinLines (a.paired (plainPair key.toList (doubled v)))).getLast? ≠ some '\r' := by
    have hold := h.ends
    rw [Around.paired, joinLines_middle]
    cases hbelow : a.below with
    | nil =>
        have hne : plainPair key.toList (doubled v) ≠ [] := Place.pairText_ne_nil _ _ _ _
        rw [following, List.flatMap_nil, List.append_nil, List.getLast?_append_of_ne_nil _ hne]
        exact hplain
    | cons l ls =>
        rw [hbelow, joinLines_middle] at hold
        have htext : unlines a.above ++ (plainPair key.toList (doubled v) ++ following (l :: ls)) =
            (unlines a.above ++ plainPair key.toList (doubled v)) ++
              ('\n' :: (l ++ following ls)) := by
          rw [List.append_assoc]
          rfl
        rw [htext, List.getLast?_append_of_ne_nil _ (List.cons_ne_nil _ _)]
        by_cases hrest : l ++ following ls = []
        · rw [hrest]
          decide
        · rw [List.getLast?_append_of_ne_nil _ hrest] at hold
          obtain ⟨c, cs, hcs⟩ := List.exists_cons_of_ne_nil hrest
          rw [hcs] at hold ⊢
          rw [List.getLast?_cons_cons]
          exact hold
  have hdocument := a.insert hg h habsent hmeans hends
  rw [← joinLines_middle]
  exact hg.reads _ _ _ hdocument

end Places

end Loker.TomlStatements
