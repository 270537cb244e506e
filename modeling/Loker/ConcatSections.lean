import Loker.BraceTemplates
import Loker.Concat

/-! What the `concat` aggregator makes of a list of branch outcomes: its sections, its headings
and its footer. -/

namespace Loker.ConcatSections

open BraceTemplates TextOps Concat

section Headings

/-- The placeholders of a heading. -/
inductive Field where
  | backendId
  | family
  | index
  deriving DecidableEq, Repr

def Field.name : Field → List Char
  | .backendId => "backend_id".toList
  | .family => "family".toList
  | .index => "index".toList

def fields : List Field := [.backendId, .family, .index]

def Field.value (success : BranchSuccess) : Field → List Char
  | .backendId => success.backendId.toList
  | .family => success.family.toList
  | .index => success.index.repr.toList

lemma names : Names Field.name where
  opening f := by cases f <;> decide
  closing f := by cases f <;> decide
  injective f g h := by
    have hall : ∀ f ∈ fields, ∀ g ∈ fields, f.name = g.name → f = g := by decide
    exact hall f (by cases f <;> decide) g (by cases g <;> decide) h

/-- The heading of a success, under a template read as these pieces. -/
def headingOf (pieces : List (Piece Field)) (success : BranchSuccess) : String :=
  String.ofList (rendered (Field.value success) pieces)

/-- The template with every placeholder replaced. -/
def expanded (template : String) (success : BranchSuccess) : String :=
  String.ofList (expandFrom Field.name fields (Field.value success) 0 template.toList)

variable {success : BranchSuccess} {cs : List Char} {ps : List (Piece Field)}

/-- What the scanner does at an opening brace. -/
lemma headingFrom_open (cs : List Char) :
    headingFrom success.backendId success.family success.index 0 ('{' :: cs) =
      match fields.find? fun f => (placeholder Field.name f).isPrefixOf ('{' :: cs) with
      | some f => f.value success ++ headingFrom success.backendId success.family success.index
          (f.name ++ ['}']).length cs
      | none =>
        if '}' ∈ cs then
          '{' :: (cs.takeWhile (· ≠ '}') ++ '}' :: headingFrom success.backendId success.family
            success.index ((cs.takeWhile (· ≠ '}')).length + 1) cs)
        else '{' :: cs := by
  have hbackend : backendField = placeholder Field.name .backendId := by decide
  have hfamily : familyField = placeholder Field.name .family := by decide
  have hindex : indexField = placeholder Field.name .index := by decide
  rw [headingFrom, if_pos rfl, hbackend, hfamily, hindex, fields]
  simp only [List.find?_cons, List.find?_nil]
  split
  · next h => rw [h]; rfl
  next hnot =>
  rw [Bool.not_eq_true] at hnot
  rw [hnot]
  split
  · next h => rw [h]; rfl
  next hnot =>
  rw [Bool.not_eq_true] at hnot
  rw [hnot]
  split
  · next h => rw [h]; rfl
  next hnot =>
  rw [Bool.not_eq_true] at hnot
  rw [hnot]
  rfl

lemma headingFrom_rendered (h : Reads Field.name cs ps) :
    headingFrom success.backendId success.family success.index 0 cs =
      rendered (Field.value success) ps := by
  induction h with
  | nil => rfl
  | plain hc _ ih =>
    rw [headingFrom_plain hc, ih]
    rfl
  | @field f cs ps _ ih =>
    have hmem : f ∈ fields := by cases f <;> decide
    have hfind : (fields.find? fun g => (placeholder Field.name g).isPrefixOf
        (placeholder Field.name f ++ cs)) = some f := find_field names hmem
    rw [placeholder, List.cons_append] at hfind ⊢
    rw [headingFrom_open, hfind]
    dsimp only
    rw [headingFrom_skip, ih]
    rfl
  | @braced body cs ps hend hother _ ih =>
    have hfind : (fields.find? fun g => (placeholder Field.name g).isPrefixOf
        ('{' :: (body ++ '}' :: cs))) = none := by
      apply find_none
      intro f hpre
      exact hother f ((placeholder_prefix_iff names hend).mp hpre)
    have hbody : (body ++ '}' :: cs).takeWhile (· ≠ '}') = body := by
      rw [List.takeWhile_append_of_pos, List.takeWhile_cons_of_neg (by decide), List.append_nil]
      intro c hc
      rw [decide_eq_true_eq]
      rintro rfl
      exact hend hc
    have hskip : headingFrom success.backendId success.family success.index (body.length + 1)
        (body ++ '}' :: cs) = rendered (Field.value success) ps := by
      have hpassed : headingFrom success.backendId success.family success.index
          (body ++ ['}']).length (body ++ ['}'] ++ cs) = _ := headingFrom_skip (body ++ ['}'])
      rw [List.length_append, List.append_assoc] at hpassed
      exact hpassed.trans ih
    rw [headingFrom_open, hfind]
    dsimp only
    rw [if_pos (List.mem_append_right _ List.mem_cons_self), hbody, hskip]
    change _ = '{' :: (body ++ ['}']) ++ rendered (Field.value success) ps
    rw [List.cons_append, List.append_assoc, List.singleton_append]
  | @unclosed rest hend =>
    rw [headingFrom_open, find_none fun f => not_placeholder_unclosed hend]
    dsimp only
    rw [if_neg hend]
    exact (List.append_nil _).symm

lemma renderHeading_eq {template : String} (h : Reads Field.name template.toList ps) :
    renderHeading success.backendId success.family success.index template =
      headingOf ps success := by
  rw [renderHeading, headingFrom_rendered h, headingOf]

/-- With no placeholder in the braces of another, each one is replaced. -/
lemma headingOf_expanded {template : String} (h : Reads Field.name template.toList ps)
    (hfree : ∀ f before, ¬ Enclosed Field.name ps f before) :
    headingOf ps success = expanded template success := by
  have hall : ∀ f, f ∈ fields := by
    intro f
    cases f <;> decide
  rw [headingOf, expanded, expand_rendered names hall h hfree]

end Headings

section Trimming

/-- The text without the white space around it. -/
def Trimmed (text body : String) : Prop :=
  ∃ before after, text.toList = before ++ body.toList ++ after ∧
    (∀ c ∈ before, isWhiteSpace c = true) ∧ (∀ c ∈ after, isWhiteSpace c = true) ∧
    (∀ c, body.toList.head? = some c → isWhiteSpace c = false) ∧
    ∀ c, body.toList.getLast? = some c → isWhiteSpace c = false

lemma trimmed_trim (text : String) : Trimmed text (trim text) := by
  let opened := text.toList.dropWhile isWhiteSpace
  have hbody : (trim text).toList = opened.rdropWhile isWhiteSpace := String.toList_ofList
  have hsplit : opened.rdropWhile isWhiteSpace ++ opened.rtakeWhile isWhiteSpace = opened :=
    List.rdropWhile_append_rtakeWhile
  refine ⟨text.toList.takeWhile isWhiteSpace, opened.rtakeWhile isWhiteSpace, ?_, ?_, ?_, ?_, ?_⟩
  · rw [hbody, List.append_assoc, hsplit, List.takeWhile_append_dropWhile]
  · intro c hc
    exact List.mem_takeWhile_imp hc
  · intro c hc
    exact List.mem_rtakeWhile_imp hc
  · intro c hc
    have hopened : opened.head? = some c := by
      rw [← hsplit, ← hbody, List.head?_append, hc]
      rfl
    have hnot := List.head?_dropWhile_not isWhiteSpace text.toList
    rw [hopened] at hnot
    exact hnot
  · intro c hc
    rw [hbody] at hc
    have hne : opened.rdropWhile isWhiteSpace ≠ [] := by
      intro hnil
      rw [hnil] at hc
      cases hc
    have hnot := List.rdropWhile_last_not isWhiteSpace opened hne
    rw [List.getLast?_eq_some_getLast hne] at hc
    rw [Option.some.inj hc] at hnot
    exact Bool.eq_false_of_not_eq_true hnot

lemma trimmed_iff {text body : String} : Trimmed text body ↔ body = trim text := by
  constructor
  · intro ⟨before, after, htext, hbefore, hafter, hfirst, hlast⟩
    have hopened : text.toList.dropWhile isWhiteSpace =
        (body.toList ++ after).dropWhile isWhiteSpace := by
      rw [htext, List.append_assoc, List.dropWhile_append_of_pos hbefore]
    rcases List.eq_nil_or_concat' body.toList with hnil | ⟨front, d, hbody⟩
    · have hblank : after.dropWhile isWhiteSpace = [] := List.dropWhile_eq_nil_iff.mpr hafter
      rw [hnil, List.nil_append, hblank] at hopened
      rw [trim, hopened, ← String.toList_inj, hnil]
      rfl
    · have hd : isWhiteSpace d = false := hlast d (by rw [hbody, List.getLast?_concat])
      have hkept : (body.toList ++ after).dropWhile isWhiteSpace = body.toList ++ after := by
        cases hchars : body.toList with
        | nil => rw [hchars] at hbody; simp at hbody
        | cons c cs =>
          have hc : isWhiteSpace c = false := hfirst c (by rw [hchars]; rfl)
          rw [List.cons_append, List.dropWhile_cons_of_neg (by rw [hc]; decide)]
      have hreverse : (body.toList ++ after).reverse.dropWhile isWhiteSpace =
          body.toList.reverse := by
        rw [List.reverse_append, List.dropWhile_append_of_pos (fun c hc =>
          hafter c (List.mem_reverse.mp hc)), hbody, List.reverse_append, List.reverse_singleton,
          List.singleton_append, List.dropWhile_cons_of_neg (by rw [hd]; decide)]
      rw [trim, hopened, hkept, hreverse, List.reverse_reverse, String.ofList_toList]
  · rintro rfl
    exact trimmed_trim text

end Trimming

section Aggregation

inductive BranchOutcome where
  | success (branch : BranchSuccess)
  | failure (branch : BranchFailure)
  deriving DecidableEq, Repr

/-- One pass of the loop over the outcomes: the sections so far and the failures so far. -/
def collectBranch (headingTemplate : String) (collected : List String × List BranchFailure) :
    BranchOutcome → List String × List BranchFailure
  | .success branch => (collected.1 ++ [renderSuccess headingTemplate branch], collected.2)
  | .failure branch => (collected.1, collected.2 ++ [branch])

def aggregateConcat (headingTemplate : String) (branches : List BranchOutcome) :
    AggregatedArtifact :=
  if branches = [] then ⟨emptyConcatSentinel, 0, 0⟩
  else
    let (sections, failures) := branches.foldl (collectBranch headingTemplate) ([], [])
    let parts := if failures = [] then sections else sections ++ [renderErrors failures]
    let text := if parts = [] then "" else "\n\n".intercalate parts
    ⟨text ++ "\n", sections.length, failures.length⟩

def successes (branches : List BranchOutcome) : List BranchSuccess :=
  branches.filterMap fun
    | .success branch => some branch
    | .failure _ => none

def failures (branches : List BranchOutcome) : List BranchFailure :=
  branches.filterMap fun
    | .success _ => none
    | .failure branch => some branch

/-- The heading and below it the output, when there is one. -/
def SectionOf (heading : BranchSuccess → String) (success : BranchSuccess) (text : String) : Prop :=
  ∃ body, Trimmed success.output body ∧
    text = if body = "" then heading success else heading success ++ "\n\n" ++ body

/-- The paragraphs of the footer. -/
def footer (failures : List BranchFailure) : List String :=
  if failures = [] then [] else "## Errors" :: failures.map renderError

/-- A section for each success and then a record for each failure, in the order of the branches. -/
inductive Concatenated (heading : BranchSuccess → String) :
    List BranchOutcome → AggregatedArtifact → Prop
  | none : Concatenated heading [] ⟨emptyConcatSentinel, 0, 0⟩
  | some {branches : List BranchOutcome} {sections : List String} (hne : branches ≠ [])
      (hsections : List.Forall₂ (SectionOf heading) (successes branches) sections) :
      Concatenated heading branches
        ⟨"\n\n".intercalate (sections ++ footer (failures branches)) ++ "\n",
          (successes branches).length, (failures branches).length⟩

variable {headingTemplate : String} {branches : List BranchOutcome}

lemma collect_branches (collected : List String × List BranchFailure) :
    branches.foldl (collectBranch headingTemplate) collected =
      (collected.1 ++ (successes branches).map (renderSuccess headingTemplate),
        collected.2 ++ failures branches) := by
  induction branches generalizing collected with
  | nil => simp [successes, failures]
  | cons branch branches ih =>
    rw [List.foldl_cons, ih]
    cases branch with
    | success branch => simp [collectBranch, successes, failures]
    | failure branch => simp [collectBranch, successes, failures]

lemma length_successes_failures (branches : List BranchOutcome) :
    (successes branches).length + (failures branches).length = branches.length := by
  induction branches with
  | nil => rfl
  | cons branch branches ih =>
    cases branch with
    | success branch =>
      change (successes branches).length + 1 + (failures branches).length = branches.length + 1
      omega
    | failure branch =>
      change (successes branches).length + ((failures branches).length + 1) = branches.length + 1
      omega

lemma renderErrors_eq (failed : List BranchFailure) :
    renderErrors failed = "\n\n".intercalate ("## Errors" :: failed.map renderError) := by
  have hfold : ∀ out : String,
      failed.foldl (fun out failure => out ++ "\n\n" ++ renderError failure) out =
        "\n\n".intercalate (out :: failed.map renderError) := by
    induction failed with
    | nil =>
      intro out
      exact String.intercalate_singleton.symm
    | cons failure failed ih =>
      intro out
      rw [List.foldl_cons, ih, List.map_cons, String.intercalate_cons_append,
        String.intercalate_cons_cons]
  exact hfold "## Errors"

/-- The footer stands in the text as its paragraphs do. -/
lemma parts_text (sections : List String) (failed : List BranchFailure) :
    "\n\n".intercalate (if failed = [] then sections else sections ++ [renderErrors failed]) =
      "\n\n".intercalate (sections ++ footer failed) := by
  unfold footer
  split
  · rw [List.append_nil]
  · by_cases hnil : sections = []
    · rw [hnil, List.nil_append, List.nil_append, String.intercalate_singleton, renderErrors_eq]
    · rw [String.intercalate_append_of_ne_nil hnil (by simp), String.intercalate_singleton,
        renderErrors_eq, String.intercalate_append_of_ne_nil hnil (by simp)]

lemma joined_parts (parts : List String) :
    (if parts = [] then "" else "\n\n".intercalate parts) = "\n\n".intercalate parts := by
  split
  · next hnil => rw [hnil, String.intercalate_nil]
  · rfl

lemma sections_of (heading : BranchSuccess → String) (succeeded : List BranchSuccess)
    (hheading : ∀ s, renderHeading s.backendId s.family s.index headingTemplate = heading s) :
    List.Forall₂ (SectionOf heading) succeeded
      (succeeded.map (renderSuccess headingTemplate)) := by
  rw [List.forall₂_map_right_iff, List.forall₂_same]
  intro success _
  refine ⟨trim success.output, trimmed_trim _, ?_⟩
  rw [renderSuccess, hheading]

lemma aggregate_concatenated (heading : BranchSuccess → String)
    (hheading : ∀ s, renderHeading s.backendId s.family s.index headingTemplate = heading s)
    (branches : List BranchOutcome) :
    Concatenated heading branches (aggregateConcat headingTemplate branches) := by
  unfold aggregateConcat
  split
  · next hnil =>
    rw [hnil]
    exact .none
  · next hne =>
    have hsections := sections_of heading (successes branches) hheading
    rw [collect_branches]
    dsimp only
    rw [joined_parts, List.nil_append, List.nil_append, parts_text, List.length_map]
    exact .some hne hsections

lemma aggregate_counts (headingTemplate : String) (branches : List BranchOutcome) :
    (aggregateConcat headingTemplate branches).successful +
      (aggregateConcat headingTemplate branches).failed = branches.length := by
  unfold aggregateConcat
  split
  · next hnil =>
    rw [hnil]
    rfl
  · rw [collect_branches, ← length_successes_failures branches]
    simp

end Aggregation

section Claim

/-- The outcome with the metadata that a heading shows. -/
def branchOf : Strategies.BranchOutcome → BranchOutcome
  | .success backendId index output =>
      .success ⟨backendId, (familyOf backendId).asStr, index, output⟩
  | .failure backendId index reason =>
      .failure ⟨backendId, (familyOf backendId).asStr, index, reason⟩

/-- The outcomes of a fan-out are concatenated as any others are. -/
lemma concat_of_branches (headingTemplate : String) (outcomes : List Strategies.BranchOutcome) :
    Concat.aggregateConcat headingTemplate outcomes =
      aggregateConcat headingTemplate (outcomes.map branchOf) := by
  have hsuccesses : successes (outcomes.map branchOf) = outcomes.filterMap asSuccess := by
    rw [successes, List.filterMap_map]
    congr 1
    funext outcome
    cases outcome <;> rfl
  have hfailures : failures (outcomes.map branchOf) = outcomes.filterMap asFailure := by
    rw [failures, List.filterMap_map]
    congr 1
    funext outcome
    cases outcome <;> rfl
  rw [Concat.aggregateConcat, aggregateConcat]
  by_cases hnil : outcomes = []
  · rw [if_pos hnil, if_pos (by rw [hnil]; rfl)]
  · rw [if_neg hnil, if_neg (by simpa using hnil), collect_branches, hsuccesses, hfailures]
    dsimp only
    rw [joined_parts, List.nil_append, List.nil_append, List.length_map]
    rfl

/-- The text keeps every branch, and a heading's pieces do not depend on what they are filled
with. -/
theorem concat_keeps_branches (headingTemplate : String) :
    ∃ pieces, sourceOf Field.name pieces = headingTemplate.toList ∧
      (∀ pieces', Reads Field.name headingTemplate.toList pieces' ↔ pieces' = pieces) ∧
      (∀ f before after,
        headingTemplate.toList = before ++ (placeholder Field.name f ++ after) →
        Standing Field.name pieces f before ∨ Enclosed Field.name pieces f before) ∧
      ((∀ f before, ¬ Enclosed Field.name pieces f before) →
        ∀ success, headingOf pieces success = expanded headingTemplate success) ∧
      ∀ branches, Concatenated (headingOf pieces) branches
          (aggregateConcat headingTemplate branches) ∧
        (aggregateConcat headingTemplate branches).successful +
          (aggregateConcat headingTemplate branches).failed = branches.length := by
  have hexists : ∃ pieces, Reads Field.name headingTemplate.toList pieces := exists_reads _
  obtain ⟨pieces, hreads⟩ := hexists
  refine ⟨pieces, hreads.source, fun pieces' => ?_,
    fun f before after => hreads.occurrence names, fun hfree success => ?_, fun branches => ?_⟩
  · constructor
    · intro h
      exact h.unique names hreads
    · rintro rfl
      exact hreads
  · exact headingOf_expanded hreads hfree
  · have hheading : ∀ s : BranchSuccess, renderHeading s.backendId s.family s.index
        headingTemplate = headingOf pieces s := fun s => renderHeading_eq hreads
    exact ⟨aggregate_concatenated _ hheading branches, aggregate_counts headingTemplate branches⟩

lemma Concatenated.single {heading : BranchSuccess → String} {success : BranchSuccess}
    {artefact : AggregatedArtifact} (h : Concatenated heading [.success success] artefact) :
    artefact.text = (if trim success.output = "" then heading success
      else heading success ++ "\n\n" ++ trim success.output) ++ "\n" := by
  cases h with
  | some _ hsections =>
    cases hsections with
    | cons hsection hnil =>
      cases hnil
      obtain ⟨body, hbody, rfl⟩ := hsection
      rw [trimmed_iff.mp hbody]
      exact congrArg (· ++ "\n") String.intercalate_singleton

/-- A template with placeholders within other braces. -/
def nestedTemplate : String := "## \x7b\x7bbackend_id\x7d\x7d \x7bunknown \x7bfamily\x7d\x7d"

def review : BranchSuccess := ⟨"claude", "anthropic", 1, "text"⟩

/-- The placeholders within other braces are not replaced. -/
theorem nested_placeholders_kept :
    (aggregateConcat nestedTemplate [.success review]).text = nestedTemplate ++ "\n\ntext\n" ∧
      expanded nestedTemplate review = "## \x7bclaude\x7d \x7bunknown anthropic\x7d" ∧
      ¬ Concatenated (expanded nestedTemplate) [.success review]
        (aggregateConcat nestedTemplate [.success review]) := by
  have htext : (aggregateConcat nestedTemplate [.success review]).text =
      nestedTemplate ++ "\n\ntext\n" := by decide
  have hexpanded : expanded nestedTemplate review =
      "## \x7bclaude\x7d \x7bunknown anthropic\x7d" := by decide
  have hne : nestedTemplate ++ "\n\ntext\n" ≠
      (if trim review.output = "" then "## \x7bclaude\x7d \x7bunknown anthropic\x7d"
        else "## \x7bclaude\x7d \x7bunknown anthropic\x7d" ++ "\n\n" ++
          trim review.output) ++ "\n" := by decide
  refine ⟨htext, hexpanded, fun h => ?_⟩
  have hsingle := h.single
  rw [htext, hexpanded] at hsingle
  exact hne hsingle

end Claim

end Loker.ConcatSections
