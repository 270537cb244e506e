import Loker.PatternRuns
import Loker.SpecFiles
import Loker.TomlLines

/-! The status and the last error in a subtask's file: the edits of its text against the document
that it is read as. -/

namespace Loker.SpecStatus

open TextOps TextLines TomlText TomlStatements
open PatternRuns (run)
open SpecFiles (SubtaskStatus)

section Patterns

/-- `key\s*=\s*"[^"]*"` at the beginning of a text: the length of the match. -/
def pairAt (key cs : List Char) : Option ℕ :=
  let sign := key.length + run isWhiteSpace (cs.drop key.length)
  let quote := sign + 1 + run isWhiteSpace (cs.drop (sign + 1))
  let close := quote + 1 + run (· ≠ '"') (cs.drop (quote + 1))
  if key.isPrefixOf cs ∧ (cs.drop sign).head? = some '=' ∧ (cs.drop quote).head? = some '"' ∧
      (cs.drop close).head? = some '"' then
    some (close + 1)
  else none

/-- The first match replaced; the replacement may use the match. -/
def replacePair (key : List Char) (new : List Char → List Char) : List Char → List Char
  | [] => []
  | c :: cs =>
      match pairAt key (c :: cs) with
      | some n => new ((c :: cs).take n) ++ (c :: cs).drop n
      | none => c :: replacePair key new cs

def isNameChar (c : Char) : Bool := c.isAlphanum || c = '_'

/-- The name that a dollar sign refers to, and how far it reaches. -/
def refAt (cs : List Char) : Option (List Char × ℕ) :=
  if cs.head? = some '{' then
    let name := cs.tail.takeWhile (· ≠ '}')
    if (cs.tail.drop name.length).head? = some '}' then some (name, name.length + 2) else none
  else
    let name := cs.takeWhile isNameChar
    if name = [] then none else some (name, name.length)

/-- `str::parse::<usize>`. -/
def parseIndex (name : List Char) : Option ℕ := do
  let digits := if name.head? = some '+' then name.tail else name
  let values ← digits.mapM digitValue
  let n := values.foldl (fun n d => 10 * n + d) 0
  if values ≠ [] ∧ n < 2 ^ 64 then some n else none

/-- A replacement's references filled in, where each of the groups is all of the match; `skip`
counts the characters of the last reference still to pass. -/
def expandFrom (groups : ℕ) (found : List Char) : ℕ → List Char → List Char
  | _, [] => []
  | skip + 1, _ :: cs => expandFrom groups found skip cs
  | 0, c :: cs =>
      if c = '$' then
        if cs.head? = some '$' then '$' :: expandFrom groups found 1 cs
        else
          match refAt cs with
          | some (name, length) =>
              (if (parseIndex name).any (· ≤ groups) then found else []) ++
                expandFrom groups found length cs
          | none => '$' :: expandFrom groups found 0 cs
      else c :: expandFrom groups found 0 cs

end Patterns

section Model

def statusStr : SubtaskStatus → String
  | .pending => "pending"
  | .complete => "complete"
  | .failed => "failed"

def statusKey : List Char := "status".toList

def errorKey : List Char := "last_error".toList

def statusLine (status : SubtaskStatus) : List Char :=
  ("status = \"" ++ statusStr status ++ "\"").toList

def escapedError (error : String) : String :=
  replaceAll (replaceAll error "\\" "\\\\") "\"" "\\\""

def errorLine (error : String) : List Char :=
  ("last_error = \"" ++ escapedError error ++ "\"").toList

/-- The lines with the status after the first one that gives the order or the task, or at the
end. -/
def addStatus (line : List Char) (statusAdded : Bool) : List (List Char) → List (List Char)
  | [] => if statusAdded then [] else [line]
  | l :: ls =>
      if !statusAdded && ("order".toList.isPrefixOf l || "what".toList.isPrefixOf l) then
        l :: line :: addStatus line true ls
      else l :: addStatus line statusAdded ls

/-- `str::lines`, on characters. -/
def linesOf (content : List Char) : List (List Char) :=
  splitLines (replaceAllFrom ['\r', '\n'] ['\n'] 0 content)

/-- The text has a line that begins as the key's pair is written. -/
def marked (key content : List Char) : Bool :=
  decide ('\n' :: (key ++ " = ".toList) <:+: content) || (key ++ " = ".toList).isPrefixOf content

def withStatus (content : List Char) (status : SubtaskStatus) : List Char :=
  if marked statusKey content then replacePair statusKey (fun _ => statusLine status) content
  else joinLines (addStatus (statusLine status) false (linesOf content))

/-- The line break of the last replacement is written as a backslash and an `n`. -/
def withError (content : List Char) (error : String) : List Char :=
  if error ≠ "" then
    if marked errorKey content then
      replacePair errorKey (fun found => expandFrom 0 found 0 (errorLine error)) content
    else
      replacePair statusKey
        (fun found => expandFrom 1 found 0 ("$1\\n".toList ++ errorLine error)) content
  else if '\n' :: (errorKey ++ " = ".toList) <:+: content then
    replacePair ('\n' :: errorKey) (fun _ => []) content
  else content

def updateSpecStatusWithError (content : String) (status : SubtaskStatus) (error : String) :
    String :=
  String.ofList (withError (withStatus content.toList status) error)

def updateSpecStatus (content : String) (status : SubtaskStatus) : String :=
  updateSpecStatusWithError content status ""

end Model

section Matching

variable {key gap gap' raw before rest cs : List Char} {new : List Char → List Char} {n : ℕ}

lemma run_append {p : Char → Bool} {l : List Char} {c : Char} (hl : l.all p = true)
    (hc : p c = false) : run p (l ++ c :: rest) = l.length := by
  rw [run, List.takeWhile_append_of_pos fun x hx => List.all_eq_true.mp hl x hx,
    List.takeWhile_cons_of_neg (by simp [hc]), List.append_nil]

/-- A pair is matched as a whole. -/
lemma pairAt_pairText (hgap : gap.all isWhiteSpace = true) (hgap' : gap'.all isWhiteSpace = true)
    (hraw : '"' ∉ raw) : pairAt key (pairText key gap gap' raw ++ rest) =
      some (pairText key gap gap' raw).length := by
  have htext : pairText key gap gap' raw ++ rest =
      key ++ (gap ++ '=' :: (gap' ++ '"' :: (raw ++ '"' :: rest))) := by
    simp [pairText]
  have hplain : raw.all (· ≠ '"') = true := by
    rw [List.all_eq_true]
    intro c hc
    exact decide_eq_true fun heq => hraw (heq ▸ hc)
  have hsign : (pairText key gap gap' raw ++ rest).drop (key.length + gap.length) =
      '=' :: (gap' ++ '"' :: (raw ++ '"' :: rest)) := by
    rw [htext, ← List.drop_drop, List.drop_left, List.drop_left]
  have hafter : (pairText key gap gap' raw ++ rest).drop (key.length + gap.length + 1) =
      gap' ++ '"' :: (raw ++ '"' :: rest) := by
    rw [← List.drop_drop, hsign, List.drop_succ_cons, List.drop_zero]
  have hquote : (pairText key gap gap' raw ++ rest).drop
      (key.length + gap.length + 1 + gap'.length) = '"' :: (raw ++ '"' :: rest) := by
    rw [← List.drop_drop, hafter, List.drop_left]
  have hvalue : (pairText key gap gap' raw ++ rest).drop
      (key.length + gap.length + 1 + gap'.length + 1) = raw ++ '"' :: rest := by
    rw [← List.drop_drop, hquote, List.drop_succ_cons, List.drop_zero]
  have hclose : (pairText key gap gap' raw ++ rest).drop
      (key.length + gap.length + 1 + gap'.length + 1 + raw.length) = '"' :: rest := by
    rw [← List.drop_drop, hvalue, List.drop_left]
  have hkey : key.isPrefixOf (pairText key gap gap' raw ++ rest) = true := by
    rw [htext, List.isPrefixOf_iff_prefix]
    exact List.prefix_append _ _
  have hspaces : run isWhiteSpace ((pairText key gap gap' raw ++ rest).drop key.length) =
      gap.length := by
    rw [htext, List.drop_left]
    exact run_append hgap (by decide)
  rw [pairAt]
  simp only [hspaces, hafter, run_append hgap' (c := '"') (by decide), hvalue,
    run_append hplain (c := '"') (by decide), hsign, hquote, hclose, hkey, List.head?_cons]
  rw [if_pos ⟨trivial, trivial, trivial, trivial⟩]
  simp only [pairText, List.length_append, List.length_cons, List.length_nil]
  congr 1
  omega

/-- No match begins in the first part of the text. -/
def NoneBefore (key before rest : List Char) : Prop :=
  ∀ i < before.length, pairAt key ((before ++ rest).drop i) = none

instance (key before rest : List Char) : Decidable (NoneBefore key before rest) :=
  inferInstanceAs (Decidable (∀ i < before.length, _))

lemma replacePair_first (h : NoneBefore key before rest) (hat : pairAt key rest = some n)
    (hne : rest ≠ []) : replacePair key new (before ++ rest) =
      before ++ (new (rest.take n) ++ rest.drop n) := by
  induction before with
  | nil =>
    obtain ⟨c, cs, rfl⟩ := List.exists_cons_of_ne_nil hne
    rw [List.nil_append, List.nil_append, replacePair, hat]
  | cons c before ih =>
    have hfirst : pairAt key (c :: (before ++ rest)) = none := h 0 (Nat.succ_pos _)
    have hrest : NoneBefore key before rest := fun i hi => h (i + 1) (Nat.succ_lt_succ hi)
    rw [List.cons_append, replacePair, hfirst]
    exact congrArg (c :: ·) (ih hrest)

lemma replacePair_none (h : ∀ i < cs.length, pairAt key (cs.drop i) = none) :
    replacePair key new cs = cs := by
  induction cs with
  | nil => rfl
  | cons c cs ih =>
    have hfirst : pairAt key (c :: cs) = none := h 0 (Nat.succ_pos _)
    rw [replacePair, hfirst]
    exact congrArg (c :: ·) (ih fun i hi => h (i + 1) (Nat.succ_lt_succ hi))

/-- The first pair replaced is the one that no match begins before. -/
lemma replacePair_pair {after : List Char} (hgap : gap.all isWhiteSpace = true)
    (hgap' : gap'.all isWhiteSpace = true) (hraw : '"' ∉ raw)
    (h : NoneBefore key before (pairText key gap gap' raw ++ after)) :
    replacePair key new (before ++ (pairText key gap gap' raw ++ after)) =
      before ++ (new (pairText key gap gap' raw) ++ after) := by
  have hat : pairAt key (pairText key gap gap' raw ++ after) =
      some (pairText key gap gap' raw).length := pairAt_pairText hgap hgap' hraw
  have hne : pairText key gap gap' raw ++ after ≠ [] := by simp [pairText]
  rw [replacePair_first h hat hne, List.take_left, List.drop_left]

end Matching

section Conditions

variable (g : TomlReader)

/-- A line that the status is added after. -/
def Anchors (l : List Char) : Prop := "order".toList <+: l ∨ "what".toList <+: l

/-- The added line goes between these lines. -/
def AddsBetween (above below : List (List Char)) : Prop :=
  (∃ front l, above = front ++ [l] ∧ Anchors l ∧ ∀ m ∈ front, ¬ Anchors m) ∨
    ((∀ m ∈ above, ¬ Anchors m) ∧ below = [])

/-- The file, and what it is to be with the status in it: the pair is replaced where the first text
that looks like it is the top-level one; or there is none, and the line that is added after falls
between two statements above the first header. -/
inductive StatusWritten (status : SubtaskStatus) : List Char → List Char → Prop
  | replaced (p : Place g "status") (hmarked : marked statusKey p.text = true)
      (hfirst : NoneBefore statusKey p.before (p.pair ++ p.after)) :
      StatusWritten status p.text (p.written (statusStr status).toList)
  | added (a : Around g) (content : List Char) (doc : Table) (above below : List (List Char))
      (hplain : marked statusKey content = false) (hlines : linesOf content = above ++ below)
      (hplace : AddsBetween above below) (habove : unlines above = unlines a.above)
      (hbelow : following below = following a.below)
      (hread : g.fromStr (String.ofList content) = some doc)
      (hdocument : Document g (a.above ++ a.below) (a.saidAbove ++ a.saidBelow) doc)
      (habsent : doc "status" = none) :
      StatusWritten status content
        (unlines a.above ++ (plainPair statusKey (doubled (statusStr status).toList) ++
          following a.below))

/-- The error has no quotation mark, no control character and no reference. -/
structure Recordable (error : String) : Prop where
  writable : Writable error.toList
  literal : ∀ found, expandFrom 0 found 0 (errorLine error) = errorLine error

/-- The pair of the last error is replaced where the first text that looks like it is the top-level
one; or it is taken away, from behind a line break; or there is none and nothing looks like it. -/
inductive ErrorWritten (error : String) : List Char → List Char → Prop
  | replaced (p : Place g "last_error") (hne : error ≠ "") (hrecordable : Recordable error)
      (hmarked : marked errorKey p.text = true)
      (hfirst : NoneBefore errorKey p.before (p.pair ++ p.after)) :
      ErrorWritten error p.text (p.written error.toList)
  | removed (p : Place g "last_error") (front : List (List Char)) (prev : List Char)
      (hempty : error = "") (hlead : p.lead = []) (habove : p.above = front ++ [prev])
      (hreturn : prev.getLast? = some '\r' → p.tail = [] ∧ p.below ≠ [])
      (hmarked : '\n' :: (errorKey ++ " = ".toList) <:+: p.text)
      (hfirst : NoneBefore ('\n' :: errorKey) (unlines front ++ prev)
        ('\n' :: (p.pair ++ p.after))) :
      ErrorWritten error p.text (unlines front ++ (prev ++ p.after))
  | absent (content : List Char) (doc : Table) (hempty : error = "")
      (hread : g.fromStr (String.ofList content) = some doc) (habsent : doc "last_error" = none)
      (hnone : '\n' :: (errorKey ++ " = ".toList) <:+: content →
        ∀ i < content.length, pairAt ('\n' :: errorKey) (content.drop i) = none) :
      ErrorWritten error content content

/-- In the file that the call is repeated on, the first texts that look like the two pairs are the
written ones. -/
structure Settled (content : List Char) (status : SubtaskStatus) (error : String) : Prop where
  status_marked : marked statusKey content = true
  status_first : ∃ before after, content = before ++ (statusLine status ++ after) ∧
    NoneBefore statusKey before (statusLine status ++ after)
  error_marked : error ≠ "" → marked errorKey content = true
  error_first : error ≠ "" → ∃ before after, content = before ++ (errorLine error ++ after) ∧
    NoneBefore errorKey before (errorLine error ++ after)
  no_error : error = "" → '\n' :: (errorKey ++ " = ".toList) <:+: content →
    ∀ i < content.length, pairAt ('\n' :: errorKey) (content.drop i) = none

/-- The edits of the call meet the pairs they are for. -/
def Editable (content : String) (status : SubtaskStatus) (error : String) : Prop :=
  ∃ middle result, StatusWritten g status content.toList middle ∧
    ErrorWritten g error middle result ∧ Settled result status error

/-- The file says what the call gave it and keeps everything else of the document. -/
structure Recorded (doc : Table) (content : String) (status : SubtaskStatus) (error : String) :
    Prop where
  parses : ∃ doc', g.fromStr content = some doc' ∧
    doc' "status" = some (.string (statusStr status)) ∧
    doc' "last_error" = (if error = "" then none else some (.string error)) ∧
    ∀ key, key ≠ "status" → key ≠ "last_error" → doc' key = doc key
  repeated : updateSpecStatusWithError content status error = content

end Conditions

section Steps

variable {g : TomlReader} {status : SubtaskStatus} {error : String} {doc : Table}
  {content middle result : List Char}

lemma statusLine_eq (status : SubtaskStatus) :
    statusLine status = plainPair statusKey (doubled (statusStr status).toList) := by
  cases status <;> decide

lemma plain_of_all {v : List Char}
    (h : v.all (fun c => c ≠ '"' && !isControl c) = true) : Writable v := by
  intro c hc
  have hchar := List.all_eq_true.mp h c hc
  rw [Bool.and_eq_true, decide_eq_true_eq, Bool.not_eq_true'] at hchar
  exact hchar

lemma writable_status (status : SubtaskStatus) : Writable (statusStr status).toList := by
  apply plain_of_all
  cases status <;> decide

lemma no_quote {v : List Char} (h : Writable v) : '"' ∉ v := fun hmem => (h _ hmem).1 rfl

lemma no_quote_doubled {v : List Char} (h : Writable v) : '"' ∉ doubled v := by
  intro hmem
  obtain ⟨c, hc, hin⟩ := List.mem_flatMap.mp hmem
  split at hin
  · simp at hin
  · rw [← List.mem_singleton.mp hin] at hc
    exact no_quote h hc

lemma errorLine_eq (h : Writable error.toList) :
    errorLine error = plainPair errorKey (doubled error.toList) := by
  have hback : (replaceAll error "\\" "\\\\").toList = doubled error.toList := by
    rw [replaceAll, String.toList_ofList]
    exact TextSearch.replaceAllFrom_single '\\' _
  have hquote : (escapedError error).toList = doubled error.toList := by
    rw [escapedError, replaceAll, String.toList_ofList, hback]
    apply TextSearch.replaceAllFrom_free
    intro hin
    exact no_quote_doubled h (hin.subset List.mem_cons_self)
  have hlead : "last_error = \"".toList = errorKey ++ [' ', '=', ' ', '"'] := by decide
  have hclose : "\"".toList = ['"'] := by decide
  rw [errorLine, String.toList_append, String.toList_append, hquote, hlead, hclose, plainPair,
    pairText]
  simp only [List.append_assoc, List.cons_append, List.nil_append]

lemma blank_white {w : List Char} (h : w.all isBlank = true) : w.all isWhiteSpace = true := by
  rw [List.all_eq_true] at h ⊢
  intro c hc
  have hblank := h c hc
  rw [isBlank, Bool.or_eq_true, decide_eq_true_eq, decide_eq_true_eq] at hblank
  rcases hblank with rfl | rfl <;> decide

lemma addStatus_true (line : List Char) (ls : List (List Char)) : addStatus line true ls = ls := by
  induction ls with
  | nil => rfl
  | cons l ls ih => exact congrArg (l :: ·) ih

lemma anchors_iff (l : List Char) :
    (!false && ("order".toList.isPrefixOf l || "what".toList.isPrefixOf l)) = true ↔
      Anchors l := by
  rw [Bool.not_false, Bool.true_and, Bool.or_eq_true, List.isPrefixOf_iff_prefix,
    List.isPrefixOf_iff_prefix, Anchors]

lemma addStatus_free {line : List Char} {front : List (List Char)} (ls : List (List Char))
    (h : ∀ m ∈ front, ¬ Anchors m) :
    addStatus line false (front ++ ls) = front ++ addStatus line false ls := by
  induction front with
  | nil => rfl
  | cons m front ih =>
      have hm : ¬ Anchors m := h m List.mem_cons_self
      rw [List.cons_append, addStatus, if_neg (mt (anchors_iff m).mp hm)]
      exact congrArg (m :: ·) (ih fun m hm => h m (List.mem_cons_of_mem _ hm))

lemma addStatus_between {line : List Char} {above below : List (List Char)}
    (h : AddsBetween above below) :
    addStatus line false (above ++ below) = above ++ line :: below := by
  rcases h with ⟨front, l, rfl, hl, hfront⟩ | ⟨hnone, rfl⟩
  · rw [List.append_assoc, addStatus_free _ hfront, List.singleton_append, addStatus,
      if_pos ((anchors_iff l).mpr hl), addStatus_true, List.append_assoc]
    rfl
  · rw [addStatus_free _ hnone]
    rfl

lemma isBareKey_status : IsBareKey "status" := ⟨by decide, by decide⟩

lemma isBareKey_last_error : IsBareKey "last_error" := ⟨by decide, by decide⟩

/-- The file has the status where its condition puts it. -/
lemma withStatus_eq (h : StatusWritten g status content middle) :
    withStatus content status = middle := by
  cases h with
  | replaced p hmarked hfirst =>
      rw [withStatus, if_pos hmarked, statusLine_eq]
      exact replacePair_pair (blank_white p.gap_blank) (blank_white p.gap'_blank) p.raw_plain hfirst
  | added a content doc above below hplain hlines hplace habove hbelow hread hdocument habsent =>
      rw [withStatus, if_neg (Bool.not_eq_true _ ▸ hplain), hlines, addStatus_between hplace,
        joinLines_middle, habove, hbelow, statusLine_eq]

lemma read_status (hg : g.Lawful) (h : StatusWritten g status content middle)
    (hread : g.fromStr (String.ofList content) = some doc) :
    g.fromStr (String.ofList middle) =
      some (Function.update doc "status" (some (.string (statusStr status)))) := by
  cases h with
  | replaced p hmarked hfirst =>
      have hdoc : p.doc = doc := Option.some.inj ((p.read hg).symm.trans hread)
      have hwritten := p.read_written hg isBareKey_status (writable_status status)
      rwa [hdoc, String.ofList_toList] at hwritten
  | added a content doc' above below hplain hlines hplace habove hbelow hread' hdocument habsent =>
      have hdoc : doc' = doc := Option.some.inj (hread'.symm.trans hread)
      have hwritten :=
        a.read_inserted hg isBareKey_status (writable_status status) hdocument habsent
      rwa [hdoc, String.ofList_toList] at hwritten

lemma removed_text (p : Place g "last_error") {front : List (List Char)} {prev : List Char}
    (hlead : p.lead = []) (habove : p.above = front ++ [prev]) :
    p.text = (unlines front ++ prev) ++
      (pairText ('\n' :: errorKey) p.gap p.gap' p.raw ++ p.after) := by
  have hkey : "last_error".toList = errorKey := rfl
  rw [Place.text, Place.before, Place.pair, habove, hlead, unlines_append, unlines_cons,
    unlines_nil, hkey]
  simp only [pairText, List.append_assoc, List.cons_append, List.nil_append]

lemma withError_eq (h : ErrorWritten g error middle result) : withError middle error = result := by
  cases h with
  | replaced p hne hrecordable hmarked hfirst =>
      rw [withError, if_pos hne, if_pos hmarked]
      simp only [hrecordable.literal]
      rw [errorLine_eq hrecordable.writable]
      exact replacePair_pair (blank_white p.gap_blank) (blank_white p.gap'_blank) p.raw_plain hfirst
  | removed p front prev hempty hlead habove hreturn hmarked hfirst =>
      rw [withError, if_neg (not_not.mpr hempty), if_pos hmarked, removed_text p hlead habove,
        replacePair_pair (blank_white p.gap_blank) (blank_white p.gap'_blank) p.raw_plain hfirst,
        List.nil_append, List.append_assoc]
  | absent content doc hempty hread habsent hnone =>
      rw [withError, if_neg (not_not.mpr hempty)]
      split
      · exact replacePair_none (hnone ‹_›)
      · rfl

lemma read_error (hg : g.Lawful) (h : ErrorWritten g error middle result)
    (hread : g.fromStr (String.ofList middle) = some doc) :
    g.fromStr (String.ofList result) = some (Function.update doc "last_error"
      (if error = "" then none else some (.string error))) := by
  cases h with
  | replaced p hne hrecordable hmarked hfirst =>
      have hdoc : p.doc = doc := Option.some.inj ((p.read hg).symm.trans hread)
      have hwritten := p.read_written hg isBareKey_last_error hrecordable.writable
      rw [hdoc, String.ofList_toList] at hwritten
      rwa [if_neg hne]
  | removed p front prev hempty hlead habove hreturn hmarked hfirst =>
      have hdoc : p.doc = doc := Option.some.inj ((p.read hg).symm.trans hread)
      rw [if_pos hempty, ← hdoc]
      exact p.read_removed hg habove hreturn
  | absent content doc' hempty hread' habsent hnone =>
      have hdoc : doc' = doc := Option.some.inj (hread'.symm.trans hread)
      rw [if_pos hempty, Function.update_eq_self_iff.mpr (hdoc ▸ habsent).symm]
      exact hread

/-- A pair that is the first of its kind and written as it is to be is replaced by itself. -/
lemma replacePair_same {key raw before after : List Char} (hraw : '"' ∉ raw)
    (h : NoneBefore key before (plainPair key raw ++ after)) :
    replacePair key (fun _ => plainPair key raw) (before ++ (plainPair key raw ++ after)) =
      before ++ (plainPair key raw ++ after) :=
  replacePair_pair (by decide) (by decide) hraw h

lemma withStatus_settled (h : Settled result status error) : withStatus result status = result := by
  obtain ⟨before, after, htext, hfirst⟩ := h.status_first
  rw [withStatus, if_pos h.status_marked, htext]
  rw [statusLine_eq] at hfirst ⊢
  exact replacePair_same (no_quote_doubled (writable_status status)) hfirst

lemma withError_settled (h : Settled result status error) (hrecordable : error ≠ "" →
    Recordable error) : withError result error = result := by
  by_cases hempty : error = ""
  · rw [withError, if_neg (not_not.mpr hempty)]
    split
    · exact replacePair_none (h.no_error hempty ‹_›)
    · rfl
  · have hrec := hrecordable hempty
    obtain ⟨before, after, htext, hfirst⟩ := h.error_first hempty
    rw [withError, if_pos hempty, if_pos (h.error_marked hempty)]
    simp only [hrec.literal]
    rw [htext]
    rw [errorLine_eq hrec.writable] at hfirst ⊢
    exact replacePair_same (no_quote_doubled hrec.writable) hfirst

lemma ErrorWritten.recordable (h : ErrorWritten g error middle result) (hne : error ≠ "") :
    Recordable error := by
  cases h with
  | replaced p hne' hrecordable hmarked hfirst => exact hrecordable
  | removed p front prev hempty hlead habove hreturn hmarked hfirst => exact absurd hempty hne
  | absent content doc hempty hread habsent hnone => exact absurd hempty hne

/-- What one call does to the document. -/
lemma call_recorded {content : String} (hg : g.Lawful) (h : Editable g content status error)
    (hread : g.fromStr content = some doc) :
    Recorded g doc (updateSpecStatusWithError content status error) status error := by
  obtain ⟨middle, result, hstatus, herror, hsettled⟩ := h
  have hresult : updateSpecStatusWithError content status error = String.ofList result := by
    rw [updateSpecStatusWithError, withStatus_eq hstatus, withError_eq herror]
  have hmiddle := read_status hg hstatus (by rwa [String.ofList_toList])
  rw [hresult]
  refine ⟨⟨_, read_error hg herror hmiddle, ?_, Function.update_self .., ?_⟩, ?_⟩
  · rw [Function.update_of_ne (by decide), Function.update_self]
  · intro key hkey hkey'
    rw [Function.update_of_ne hkey', Function.update_of_ne hkey]
  · rw [updateSpecStatusWithError, String.toList_ofList, withStatus_settled hsettled,
      withError_settled hsettled herror.recordable]

end Steps

section Runs

variable {g : TomlReader} {doc : Table}

/-- The file after the calls, one after the other. -/
def afterCalls (content : String) (calls : List (SubtaskStatus × String)) : String :=
  calls.foldl (fun content call => updateSpecStatusWithError content call.1 call.2) content

/-- The document keeps its other keys through a run. -/
lemma Recorded.of_kept {status : SubtaskStatus} {error content : String} {doc' : Table}
    (h : Recorded g doc' content status error)
    (hkept : ∀ key, key ≠ "status" → key ≠ "last_error" → doc' key = doc key) :
    Recorded g doc content status error := by
  obtain ⟨⟨doc'', hread, hstatus, herror, hother⟩, hrepeated⟩ := h
  refine ⟨⟨doc'', hread, hstatus, herror, fun key hkey hkey' => ?_⟩, hrepeated⟩
  rw [hother key hkey hkey', hkept key hkey hkey']

/-- Each call of a run is recorded in the file when each edit meets the pairs it is for. -/
theorem updates_recorded (hg : g.Lawful) (content : String) (hread : g.fromStr content = some doc)
    (calls : List (SubtaskStatus × String))
    (h : ∀ earlier call later, calls = earlier ++ call :: later →
      Editable g (afterCalls content earlier) call.1 call.2) :
    ∀ earlier call later, calls = earlier ++ call :: later →
      Recorded g doc (afterCalls content (earlier ++ [call])) call.1 call.2 := by
  intro earlier
  induction earlier generalizing content doc calls with
  | nil =>
      intro call later hcalls
      exact call_recorded hg (h [] call later hcalls) hread
  | cons first earlier ih =>
      intro call later hcalls
      have hfirst := call_recorded hg (h [] first (earlier ++ call :: later) hcalls) hread
      obtain ⟨doc', hread', hstatus, herror, hother⟩ := hfirst.parses
      have hlater := ih _ hread' (earlier ++ call :: later) (fun done next rest hrest =>
        h (first :: done) next rest (by rw [hcalls, List.cons_append, hrest, List.cons_append]))
        call later rfl
      exact hlater.of_kept hother

end Runs

section FirstErrors

variable {g : TomlReader} {groups : ℕ} {found cs : List Char} {error : String}

lemma expandFrom_plain (h : '$' ∉ cs) : expandFrom groups found 0 cs = cs := by
  induction cs with
  | nil => rfl
  | cons c cs ih =>
      have hc : c ≠ '$' := fun heq => h (heq ▸ List.mem_cons_self)
      rw [expandFrom, if_neg hc, ih fun hmem => h (List.mem_cons_of_mem _ hmem)]

lemma dollar_doubled {v : List Char} (h : '$' ∉ v) : '$' ∉ doubled v := by
  intro hmem
  obtain ⟨c, hc, hin⟩ := List.mem_flatMap.mp hmem
  split at hin
  · simp at hin
  · rw [← List.mem_singleton.mp hin] at hc
    exact h hc

/-- An error without a dollar sign is written as it is. -/
lemma recordable_plain (hv : Writable error.toList) (h : '$' ∉ error.toList) :
    Recordable error := by
  refine ⟨hv, fun found => expandFrom_plain ?_⟩
  have hkey : '$' ∉ errorKey := by decide
  rw [errorLine_eq hv, plainPair, pairText]
  simp [hkey, dollar_doubled h]

lemma expandFrom_first (found cs : List Char) :
    expandFrom 1 found 0 ("$1\\n".toList ++ cs) =
      found ++ '\\' :: 'n' :: expandFrom 1 found 0 cs := by
  have htext : "$1\\n".toList = ['$', '1', '\\', 'n'] := by decide
  have href : refAt ('1' :: '\\' :: 'n' :: cs) = some (['1'], 1) := rfl
  rw [htext, List.cons_append, List.cons_append, List.cons_append, List.cons_append,
    List.nil_append, expandFrom, if_pos rfl, if_neg (by rw [List.head?_cons]; decide), href]
  rfl

/-- An error that is recorded where none was stands on the status's own line, behind a backslash and
an `n`. -/
lemma first_error_joined (p : Place g "status") (hne : error ≠ "")
    (hnew : marked errorKey p.text = false)
    (hfirst : NoneBefore statusKey p.before (p.pair ++ p.after)) :
    withError p.text error = p.before ++
      ((p.pair ++ '\\' :: 'n' :: expandFrom 1 p.pair 0 (errorLine error)) ++ p.after) := by
  have hpair : p.pair = pairText statusKey p.gap p.gap' p.raw := rfl
  rw [withError, if_pos hne, if_neg (Bool.eq_false_iff.mp hnew), Place.text, hpair,
    replacePair_pair (blank_white p.gap_blank) (blank_white p.gap'_blank) p.raw_plain hfirst,
    expandFrom_first]

end FirstErrors

section Sample

open TomlLines

variable {status : SubtaskStatus} {error : String}

def line (key v : String) : List Char := plainPair key.toList (doubled v.toList)

def said (key v : String) : Statement := .pair key [] (.string (String.ofList v.toList))

/-- A file with a task, a status and an error. -/
def sampleLines (status : SubtaskStatus) (error : String) : List (List Char) :=
  [line "what" "Add a cache", line "status" (statusStr status), line "last_error" error, []]

def sampleText (status : SubtaskStatus) (error : String) : List Char :=
  joinLines (sampleLines status error)

def sampleSaid (status : SubtaskStatus) (error : String) : List Statement :=
  [said "what" "Add a cache", said "status" (statusStr status), said "last_error" error, .nothing]

def sampleDoc (status : SubtaskStatus) (error : String) : Table :=
  fun key => (entryOf (itemsOf key (sampleSaid status error))).join

lemma read_line {key v : String} (hkey : IsBareKey key) (hv : Writable v.toList) :
    stringReader.statement (dropCR (line key v)) = some (said key v) := by
  have hlast : (line key v).getLast? ≠ some '\r' := by
    rw [line, plainPair, Place.last_pairText]
    decide
  have hpair := stringReader_lawful.pair key [] v.toList [] hkey rfl hv trailing_nil
  rwa [List.nil_append, List.append_nil, ← line, ← dropCR_eq_self hlast] at hpair

lemma means_above : Means stringReader [line "what" "Add a cache"] [said "what" "Add a cache"] :=
  .cons (read_line (by decide) (plain_of_all (by decide))) .nil

lemma means_status (status : SubtaskStatus) : Means stringReader
    [line "status" (statusStr status)] [said "status" (statusStr status)] :=
  .cons (read_line isBareKey_status (writable_status status)) .nil

lemma means_error (he : Writable error.toList) :
    Means stringReader [line "last_error" error] [said "last_error" error] :=
  .cons (read_line isBareKey_last_error he) .nil

lemma means_end : Means stringReader [[]] [.nothing] := .cons rfl .nil

lemma document_sample (status : SubtaskStatus) (he : Writable error.toList) :
    Document stringReader (sampleLines status error) (sampleSaid status error)
      (sampleDoc status error) := by
  refine ⟨?_, ?_, entries_of_documentOf (if_pos rfl)⟩
  · exact means_above.append ((means_status status).append ((means_error he).append means_end))
  · have htext : sampleText status error = unlines [line "what" "Add a cache",
        line "status" (statusStr status), line "last_error" error] ++ ([] ++ following []) :=
      joinLines_middle [_, _, _] [] []
    rw [← sampleText, htext, following, List.flatMap_nil, List.append_nil, List.append_nil]
    exact Place.last_unlines _

/-- Where the status stands in the sample. -/
def statusPlace (status : SubtaskStatus) (he : Writable error.toList) :
    Place stringReader "status" where
  above := [line "what" "Add a cache"]
  below := [line "last_error" error, []]
  saidAbove := [said "what" "Add a cache"]
  saidBelow := [said "last_error" error, .nothing]
  means_above := means_above
  means_below := (means_error he).append means_end
  root := by
    intro s hs
    rw [List.mem_singleton.mp hs]
    rfl
  lead := []
  gap := [' ']
  gap' := [' ']
  raw := doubled (statusStr status).toList
  tail := []
  value := .string (String.ofList (statusStr status).toList)
  doc := sampleDoc status error
  lead_blank := rfl
  gap_blank := by decide
  gap'_blank := by decide
  raw_plain := no_quote_doubled (writable_status status)
  tail_trailing := trailing_nil
  document := by
    rw [List.nil_append, List.append_nil]
    exact document_sample status he

/-- Where the error stands in it. -/
def errorPlace (status : SubtaskStatus) (he : Writable error.toList) :
    Place stringReader "last_error" where
  above := [line "what" "Add a cache", line "status" (statusStr status)]
  below := [[]]
  saidAbove := [said "what" "Add a cache", said "status" (statusStr status)]
  saidBelow := [.nothing]
  means_above := means_above.append (means_status status)
  means_below := means_end
  root := by
    intro s hs
    rcases List.mem_pair.mp hs with rfl | rfl
    · rfl
    · rfl
  lead := []
  gap := [' ']
  gap' := [' ']
  raw := doubled error.toList
  tail := []
  value := .string (String.ofList error.toList)
  doc := sampleDoc status error
  lead_blank := rfl
  gap_blank := by decide
  gap'_blank := by decide
  raw_plain := no_quote_doubled he
  tail_trailing := trailing_nil
  document := by
    rw [List.nil_append, List.append_nil]
    exact document_sample status he

lemma statusPlace_written (status status' : SubtaskStatus) (he : Writable error.toList) :
    (statusPlace status he).written (statusStr status').toList = sampleText status' error := by
  rw [Place.written, ← Place.joinLines_paired]
  exact congrArg (fun l => joinLines [line "what" "Add a cache", l, line "last_error" error, []])
    (List.append_nil _)

lemma errorPlace_written (status : SubtaskStatus) (he : Writable error.toList) (error' : String) :
    (errorPlace status he).written error'.toList = sampleText status error' := by
  rw [Place.written, ← Place.joinLines_paired]
  exact congrArg
    (fun l => joinLines [line "what" "Add a cache", line "status" (statusStr status), l, []])
    (List.append_nil _)

lemma sample_status {status status' : SubtaskStatus} (he : Writable error.toList)
    (hmarked : marked statusKey (statusPlace status he).text = true)
    (hfirst : NoneBefore statusKey (statusPlace status he).before
      ((statusPlace status he).pair ++ (statusPlace status he).after)) :
    StatusWritten stringReader status' (sampleText status error) (sampleText status' error) := by
  have htext : (statusPlace status he).text = sampleText status error :=
    statusPlace_written status status he
  rw [← htext, ← statusPlace_written status status' he]
  exact .replaced _ hmarked hfirst

lemma sample_error {error' : String} (he : Writable error.toList) (hne : error' ≠ "")
    (hrecordable : Recordable error')
    (hmarked : marked errorKey (errorPlace status he).text = true)
    (hfirst : NoneBefore errorKey (errorPlace status he).before
      ((errorPlace status he).pair ++ (errorPlace status he).after)) :
    ErrorWritten stringReader error' (sampleText status error) (sampleText status error') := by
  have htext : (errorPlace status he).text = sampleText status error :=
    errorPlace_written status he error
  rw [← htext, ← errorPlace_written status he error']
  exact .replaced _ hne hrecordable hmarked hfirst

lemma writable_broke : Writable "it broke".toList := plain_of_all (by decide)

lemma writable_missing : Writable "no such file".toList := plain_of_all (by decide)

def sampleSpec : String := String.ofList (sampleText .pending "it broke")

def sampleCalls : List (SubtaskStatus × String) := [(.failed, "no such file"), (.complete, "")]

lemma editable_failed : Editable stringReader sampleSpec .failed "no such file" := by
  refine ⟨sampleText .failed "it broke", sampleText .failed "no such file", ?_, ?_, ?_⟩
  · rw [sampleSpec, String.toList_ofList]
    exact sample_status writable_broke (by decide +kernel) (by decide +kernel)
  · exact sample_error writable_broke (by decide)
      (recordable_plain writable_missing (by decide)) (by decide +kernel) (by decide +kernel)
  · let p := statusPlace .failed writable_missing
    let q := errorPlace .failed writable_missing
    exact
      { status_marked := by decide +kernel
        status_first := ⟨p.before, p.after, by decide +kernel, by decide +kernel⟩
        error_marked := fun _ => by decide +kernel
        error_first := fun _ => ⟨q.before, q.after, by decide +kernel, by decide +kernel⟩
        no_error := fun h => absurd h (by decide) }

lemma after_failed : updateSpecStatusWithError sampleSpec .failed "no such file" =
    String.ofList (sampleText .failed "no such file") := by
  decide +kernel

/-- The sample when the error is taken out again. -/
def completeText : List Char :=
  unlines [line "what" "Add a cache"] ++
    (line "status" "complete" ++ (errorPlace .complete writable_missing).after)

lemma editable_complete : Editable stringReader
    (String.ofList (sampleText .failed "no such file")) .complete "" := by
  refine ⟨sampleText .complete "no such file", completeText, ?_, ?_, ?_⟩
  · rw [String.toList_ofList]
    exact sample_status writable_missing (by decide +kernel) (by decide +kernel)
  · have htext : (errorPlace .complete writable_missing).text =
        sampleText .complete "no such file" := errorPlace_written .complete writable_missing _
    have hreturn : (line "status" "complete").getLast? ≠ some '\r' := by
      rw [line, plainPair, Place.last_pairText]
      decide
    rw [← htext]
    exact .removed _ [line "what" "Add a cache"] (line "status" "complete") rfl rfl rfl
      (fun h => absurd h hreturn) (by decide +kernel) (by decide +kernel)
  · exact
      { status_marked := by decide +kernel
        status_first := ⟨unlines [line "what" "Add a cache"],
          (errorPlace .complete writable_missing).after, by decide +kernel, by decide +kernel⟩
        error_marked := fun h => absurd rfl h
        error_first := fun h => absurd rfl h
        no_error := fun _ h => absurd h (by decide +kernel) }

theorem sampleCalls_recorded :
    Recorded stringReader (sampleDoc .pending "it broke")
      (afterCalls sampleSpec [(.failed, "no such file")]) .failed "no such file" ∧
    Recorded stringReader (sampleDoc .pending "it broke") (afterCalls sampleSpec sampleCalls)
      .complete "" := by
  have hrecorded : ∀ earlier call later, sampleCalls = earlier ++ call :: later →
      Recorded stringReader (sampleDoc .pending "it broke")
        (afterCalls sampleSpec (earlier ++ [call])) call.1 call.2 := by
    apply updates_recorded stringReader_lawful
    · exact stringReader_lawful.reads _ _ _ (document_sample .pending writable_broke)
    · intro earlier call later hcalls
      match earlier, hcalls with
      | [], hcalls =>
          cases hcalls
          exact editable_failed
      | [first], hcalls =>
          cases hcalls
          rw [afterCalls, List.foldl_cons, List.foldl_nil, after_failed]
          exact editable_complete
      | _ :: _ :: _, hcalls =>
          have hlength := congrArg List.length hcalls
          simp [sampleCalls] at hlength
  exact ⟨hrecorded [] _ _ rfl, hrecorded [_] _ [] rfl⟩

/-- A file in which no error is recorded yet. -/
def newSpec : String := "what = \"Add a cache\"\nstatus = \"pending\"\n"

theorem first_error_unread : stringReader.Lawful ∧ ∃ doc,
    stringReader.fromStr newSpec = some doc ∧
      ¬ Recorded stringReader doc (afterCalls newSpec [(.failed, "it broke")]) .failed
        "it broke" := by
  have hread : (stringReader.fromStr newSpec).isSome = true := by decide +kernel
  have hunread : (stringReader.fromStr
      (afterCalls newSpec [(.failed, "it broke")])).isSome = false := by decide +kernel
  obtain ⟨doc, hdoc⟩ := Option.isSome_iff_exists.mp hread
  refine ⟨stringReader_lawful, doc, hdoc, fun hrecorded => ?_⟩
  obtain ⟨doc', hread', -⟩ := hrecorded.parses
  rw [hread'] at hunread
  cases hunread

end Sample

end Loker.SpecStatus
