import Loker.TextSearch
import Loker.VoteOutcome

/-! The comment below an elected text: nothing that is shown in it ends it. -/

namespace Loker.VoteComment

open TextOps TextSearch Strategies Concat Vote VoteOutcome

/-- What ends a comment. -/
def commentEnd : List Char := ['-', '-', '>']

def brokenEnd : List Char := ['-', '-', ' ', '>']

/-- No comment ends in the text. -/
def Endless (s : String) : Prop := ¬ commentEnd <:+: s.toList

instance (s : String) : Decidable (Endless s) := inferInstanceAs (Decidable (¬ _))

section Replacement

variable {s : List Char}

/-- The rest of an end is in the replaced text only where it was before. -/
lemma rest_kept (h : ['-', '>'] <+: replaceAllFrom commentEnd brokenEnd 0 s) :
    ['-', '>'] <+: s := by
  cases s with
  | nil => cases List.prefix_nil.mp h
  | cons c s =>
    by_cases hfirst : commentEnd <+: c :: s
    · obtain ⟨r, hr⟩ := hfirst
      rw [← hr, replaceAllFrom_match (by decide)] at h
      have hsecond := (List.prefix_cons_inj '-').mp h
      cases (List.cons_prefix_cons.mp hsecond).1
    · rw [replaceAllFrom_cons hfirst, List.cons_prefix_cons] at h
      obtain ⟨rfl, hrest⟩ := h
      cases s with
      | nil => cases List.prefix_nil.mp hrest
      | cons d s =>
        by_cases hsecond : commentEnd <+: d :: s
        · obtain ⟨r, hr⟩ := hsecond
          rw [← hr, replaceAllFrom_match (by decide)] at hrest
          cases (List.cons_prefix_cons.mp hrest).1
        · rw [replaceAllFrom_cons hsecond, List.cons_prefix_cons] at hrest
          rw [hrest.1]
          exact ⟨s, rfl⟩

/-- Replacing the ends makes no new one, neither across a replaced place nor between two. -/
lemma not_commentEnd : ¬ commentEnd <:+: replaceAllFrom commentEnd brokenEnd 0 s := by
  induction hn : s.length using Nat.strong_induction_on generalizing s with
  | _ n ih =>
    intro h
    cases s with
    | nil => exact absurd (List.infix_nil.mp h) (by decide)
    | cons c s =>
      by_cases hfirst : commentEnd <+: c :: s
      · obtain ⟨r, hr⟩ := hfirst
        have hshort : r.length < n := by
          have hlen := congrArg List.length hr
          rw [List.length_append] at hlen
          simp only [commentEnd, List.length_cons, List.length_nil] at hlen
          rw [List.length_cons] at hn
          omega
        rw [← hr, replaceAllFrom_match (by decide)] at h
        have hafter : ¬ commentEnd <:+: '>' :: replaceAllFrom commentEnd brokenEnd 0 r := by
          intro hin
          rcases List.infix_cons_iff.mp hin with hpre | hin
          · cases (List.cons_prefix_cons.mp hpre).1
          · exact ih r.length hshort rfl hin
        have hbefore : ¬ commentEnd <:+: ['-', '-'] := by decide
        exact not_infix_append_cons (by decide) (by decide) hbefore hafter h
      · rw [replaceAllFrom_cons hfirst] at h
        rcases List.infix_cons_iff.mp h with hpre | hin
        · obtain ⟨rfl, hrest⟩ := List.cons_prefix_cons.mp hpre
          exact hfirst ((List.prefix_cons_inj '-').mpr (rest_kept hrest))
        · rw [List.length_cons] at hn
          exact ih s.length (by omega) rfl hin

lemma endless_sanitizeComment (text : String) : Endless (sanitizeComment text) := by
  unfold Endless sanitizeComment replaceAll
  rw [String.toList_ofList]
  exact not_commentEnd

end Replacement

section Lines

variable {s t u : String}

/-- Between two texts without an end stands a character that no end has. -/
lemma Endless.seam (hs : Endless s) (ht : Endless t) (c : Char) (hc : c ∉ commentEnd)
    (hu : u.toList = s.toList ++ c :: t.toList) : Endless u := by
  unfold Endless
  rw [hu]
  exact not_infix_append_cons (by decide) hc hs ht

lemma endless_empty : Endless "" := by decide

lemma endless_repr (n : ℕ) : Endless n.repr := by
  intro h
  have hmem : '>' ∈ n.repr.toList := h.subset (by decide)
  cases FileTree.isDigit_of_mem_repr hmem

/-- A blank stands before what a line shows. -/
lemma Endless.after_blank (hs : Endless s) : Endless (" " ++ s) :=
  endless_empty.seam hs ' ' (by decide) (by rw [String.toList_append]; rfl)

lemma Endless.field {name : String} (hname : Endless name) (hs : Endless s) :
    Endless (name ++ " " ++ s) := by
  apply hname.seam hs ' ' (by decide)
  rw [String.toList_append, String.toList_append, List.append_assoc]
  rfl

lemma Endless.count (hs : Endless s) (n : ℕ) : Endless (s ++ ": " ++ n.repr) := by
  apply hs.seam (endless_repr n).after_blank ':' (by decide)
  rw [String.toList_append, String.toList_append, String.toList_append, List.append_assoc]
  rfl

lemma endless_intercalate {ls : List String} (h : ∀ l ∈ ls, Endless l) :
    Endless ("\n".intercalate ls) := by
  induction ls with
  | nil => exact endless_empty
  | cons l ls ih =>
    have hfirst := h l List.mem_cons_self
    have hrest := ih fun m hm => h m (List.mem_cons_of_mem _ hm)
    cases ls with
    | nil => rwa [String.intercalate_singleton]
    | cons m ls =>
      rw [String.intercalate_cons_cons]
      apply hfirst.seam hrest '\n' (by decide)
      rw [String.toList_append, String.toList_append, List.append_assoc]
      rfl

lemma intercalate_append_head (s t : String) (ls : List String) :
    "\n".intercalate ((s ++ t) :: ls) = s ++ "\n".intercalate (t :: ls) := by
  cases ls with
  | nil => rw [String.intercalate_singleton, String.intercalate_singleton]
  | cons l ls =>
    rw [String.intercalate_cons_cons, String.intercalate_cons_cons, String.append_assoc,
      String.append_assoc, String.append_assoc]

end Lines

section Comment

variable {lib : Library} {config : VoteConfig} {branches : List BranchOutcome}
  {artefact : AggregatedArtifact} {result : VoteResult}

/-- The lines between the comment's first line and its last. -/
def shownLines (result : VoteResult) : List String :=
  ["  winner: " ++ sanitizeComment result.winner,
    "  total_branches: " ++ result.totalBranches.repr,
    "  vote_counts:"] ++
  (result.voteCounts.map fun x => "    " ++ sanitizeComment x.1 ++ ": " ++ x.2.repr) ++
  ["  abstain_count: " ++ result.abstainCount.repr,
    "  tie_broken: " ++ (if result.tieBroken then "true" else "false"),
    "  tie_break_rule: " ++ sanitizeComment result.tieBreakRule]

def metadataBlock (result : VoteResult) : String := "\n".intercalate (metadataLines result)

/-- What the comment shows, from its opening mark to its last line. -/
def commentBody (result : VoteResult) : String :=
  "\n".intercalate (" loker: Vote aggregator metadata" :: shownLines result)

lemma endless_shownLines (result : VoteResult) : ∀ l ∈ shownLines result, Endless l := by
  intro l hl
  rw [shownLines, List.mem_append, List.mem_append] at hl
  rcases hl with (hl | hl) | hl
  · simp only [List.mem_cons, List.not_mem_nil, or_false] at hl
    rcases hl with rfl | rfl | rfl
    · have hname : Endless "  winner:" := by decide
      exact hname.field (endless_sanitizeComment result.winner)
    · have hname : Endless "  total_branches:" := by decide
      exact hname.field (endless_repr result.totalBranches)
    · decide
  · obtain ⟨x, _, rfl⟩ := List.mem_map.mp hl
    have hname : Endless "   " := by decide
    exact (hname.field (endless_sanitizeComment x.1)).count x.2
  · simp only [List.mem_cons, List.not_mem_nil, or_false] at hl
    rcases hl with rfl | rfl | rfl
    · have hname : Endless "  abstain_count:" := by decide
      exact hname.field (endless_repr result.abstainCount)
    · cases result.tieBroken <;> decide
    · have hname : Endless "  tie_break_rule:" := by decide
      exact hname.field (endless_sanitizeComment result.tieBreakRule)

lemma endless_commentBody (result : VoteResult) : Endless (commentBody result) := by
  apply endless_intercalate
  intro l hl
  rcases List.mem_cons.mp hl with rfl | hl
  · decide
  · exact endless_shownLines result l hl

lemma metadataLines_eq (result : VoteResult) : metadataLines result =
    (("<!--" ++ " loker: Vote aggregator metadata") :: shownLines result) ++ ["-->", ""] := by
  simp only [metadataLines, shownLines, List.cons_append, List.nil_append, List.append_assoc]
  rfl

lemma metadataBlock_eq (result : VoteResult) :
    metadataBlock result = "<!--" ++ commentBody result ++ "\n-->\n" := by
  have hlast : "\n".intercalate ["-->", ""] = "-->\n" := by decide
  rw [metadataBlock, metadataLines_eq, String.intercalate_append_of_ne_nil (List.cons_ne_nil _ _)
    (List.cons_ne_nil _ _), intercalate_append_head, hlast, String.append_assoc, commentBody]
  rfl

/-- The first end after the opening mark is the last line of the block. -/
lemma splitAtFirst_commentBody (result : VoteResult) :
    splitAtFirst (commentBody result ++ "\n-->\n") "-->" =
      some (commentBody result ++ "\n", "\n") := by
  have htext : (commentBody result ++ "\n-->\n").toList =
      ((commentBody result).toList ++ ['\n']) ++ ("-->".toList ++ ['\n']) := by
    rw [String.toList_append, List.append_assoc]
    rfl
  have hpat : "-->".toList ≠ [] := by decide
  have hfirst : ∀ i < ((commentBody result).toList ++ ['\n']).length, ¬ OccursAt "-->".toList i
      (((commentBody result).toList ++ ['\n']) ++ ("-->".toList ++ ['\n'])) := by
    intro i hi hoccurs
    rw [List.length_append, List.length_singleton] at hi
    rw [List.append_assoc] at hoccurs
    have hwithin : OccursAt "-->".toList i (commentBody result).toList :=
      OccursAt.within hoccurs (by decide) (by decide) (by omega)
    exact endless_commentBody result (infix_iff_occursAt.mpr ⟨i, hwithin⟩)
  have hsplit : splitAtFirst (String.ofList (((commentBody result).toList ++ ['\n']) ++
      ("-->".toList ++ ['\n']))) "-->" =
      some (String.ofList ((commentBody result).toList ++ ['\n']), String.ofList ['\n']) :=
    splitAtFirst_first hpat hfirst
  have hend : String.ofList ['\n'] = "\n" := rfl
  rw [← htext, String.ofList_toList, String.ofList_append, String.ofList_toList, hend] at hsplit
  exact hsplit

/-- The text is the original of the winner's first ballot and then one comment, which ends with
its own last line. -/
structure Annotated (lib : Library) (branches : List BranchOutcome) (text : String)
    (result : VoteResult) (c : VoteCandidate) (body : String) : Prop where
  branch : ∃ index, branches[c.arrivalOrder]? = some (.success c.backendId index c.original)
  winner : normaliseBallot lib c.original = result.winner
  text_eq : text = c.original ++ "\n\n" ++ metadataBlock result
  block_eq : metadataBlock result = "<!--" ++ body ++ "\n-->\n"
  first_end : splitAtFirst (body ++ "\n-->\n") "-->" = some (body ++ "\n", "\n")

lemma aggregateVote_text (h : aggregateVote lib config branches = .ok (artefact, result)) :
    artefact.text = buildAggregatedText result (candidates lib branches) := by
  obtain ⟨_, hne, hresult, _⟩ := aggregateVote_ok h
  simp only [aggregateVote, if_neg hne] at h
  split at h
  · cases h
  · obtain ⟨hartefact, _⟩ := Prod.mk.inj (Except.ok.inj h)
    rw [hresult, ← hartefact]

lemma candidate_normalised {c : VoteCandidate} (h : c ∈ candidates lib branches) :
    c.normalised = normaliseBallot lib c.original := by
  obtain ⟨⟨branch, i⟩, _, hc⟩ := List.mem_filterMap.mp h
  cases branch with
  | failure backendId index reason => cases hc
  | success backendId index output =>
    simp only [candidateOf] at hc
    split at hc
    · cases hc
    · obtain rfl := Option.some.inj hc
      rfl

/-- Whatever the ballots, their keys and the tie-break's family say, none of it ends the comment
before its last line. -/
theorem comment_ends_last (hchoose : ∀ seed n, 0 < n → lib.choose seed n < n)
    (config : VoteConfig) (branches : List BranchOutcome)
    (h : aggregateVote lib config branches = .ok (artefact, result)) :
    ∃ c, Annotated lib branches artefact.text result c (commentBody result) := by
  obtain ⟨_, hne, hresult, _⟩ := aggregateVote_ok h
  have hwinner : (elect lib config (candidates lib branches)).1 ∈
      winners (candidates lib branches) := elect_mem_winners hchoose hne
  have hbucket : result.winner ∈ buckets (candidates lib branches) := by
    rw [hresult]
    exact List.mem_of_mem_filter hwinner
  obtain ⟨voter, hvoter, hkey⟩ := mem_buckets.mp hbucket
  have hvotes : bucket (candidates lib branches) result.winner ≠ [] :=
    List.ne_nil_of_mem (List.mem_filter.mpr ⟨hvoter, decide_eq_true hkey⟩)
  obtain ⟨c, rest, hfirst⟩ := List.exists_cons_of_ne_nil hvotes
  have hc : c ∈ bucket (candidates lib branches) result.winner := by
    rw [hfirst]
    exact List.mem_cons_self
  obtain ⟨hmem, hnormalised⟩ := List.mem_filter.mp hc
  have horiginal : winnerOriginal result (candidates lib branches) = c.original := by
    rw [winnerOriginal, hfirst]
    rfl
  refine ⟨c, ?_, ?_, ?_, metadataBlock_eq result, splitAtFirst_commentBody result⟩
  · exact candidate_branch hmem
  · rw [← candidate_normalised hmem, of_decide_eq_true hnormalised]
  · have hlines : metadataLines result ≠ [] := by
      rw [metadataLines_eq]
      exact List.cons_ne_nil _ _
    obtain ⟨l, ls, hl⟩ := List.exists_cons_of_ne_nil hlines
    have hbreaks : ∀ s, "\n" ++ ("\n" ++ s) = "\n\n" ++ s := fun s => String.append_assoc.symm
    rw [aggregateVote_text h, buildAggregatedText, horiginal, metadataBlock, hl,
      String.intercalate_cons_cons, String.intercalate_cons_cons, String.empty_append,
      String.append_assoc, String.append_assoc, hbreaks]

/-- Two ballots that try to end the comment, and a tie between them. -/
def endingBallots : List BranchOutcome :=
  [.success "claude" 1 "Yes --> <script>", .success "codex" 2 "---->",
    .failure "gemini" 3 "timeout"]

theorem comment_ends_last_endingBallots :
    ∃ artefact result, aggregateVote asciiLibrary ⟨.random 7, 1⟩ endingBallots =
        .ok (artefact, result) ∧ result.tieBroken = true ∧
      ∃ c, Annotated asciiLibrary endingBallots artefact.text result c (commentBody result) := by
  have hchoose : ∀ seed n, 0 < n → asciiLibrary.choose seed n < n :=
    fun seed n hn => Nat.mod_lt seed hn
  exact ⟨_, _, rfl, by decide, comment_ends_last hchoose ⟨.random 7, 1⟩ endingBallots rfl⟩

end Comment

end Loker.VoteComment
