import Loker.Concat
import Loker.RunOps

/-! The choice that a judge backend makes among the outputs of a fan-out's branches. -/

namespace Loker.LlmJudge

open TextOps RunOps Strategies Concat

section Model

/-- A candidate as the prompt template sees it. -/
structure Candidate where
  index : ℕ
  backendId : String
  family : String
  output : String
  deriving DecidableEq, Repr

def Candidate.fromBranchSuccess (success : BranchSuccess) : Candidate :=
  ⟨success.index, success.backendId, success.family, success.output⟩

structure Ballot where
  chosenIndex : ℕ
  reason : String
  deriving DecidableEq, Repr

inductive LLMJudgeError where
  | familyOverlap (judge candidate family : String)
  | backendNotFound (name : String)
  | judgeCall (e : BackendError)
  | contract (message : String)
  deriving DecidableEq, Repr

structure BallotContext where
  candidates : List Candidate
  phaseName : String
  deriving DecidableEq, Repr

structure Backend where
  name : String
  query : String → Except BackendError String

/-- The JSON values of the library and what is read from them. -/
structure JsonLibrary where
  Value : Type
  fromStr : String → Except String Value
  get : Value → String → Option Value
  asU64 : Value → Option ℕ
  asStr : Value → Option String

/-- What surrounds the judge: the library, the template engine and the phase. -/
structure Setting where
  json : JsonLibrary
  renderSerde : String → BallotContext → Except String String
  phaseName : String

def stripMarkdownFences (text : String) : String :=
  let text := (stripPrefix text "```json").getD text
  let text := (stripPrefix text "```").getD text
  let text := (stripSuffix text "```").getD text
  trim text

/-- The text from the first opening to the last closing brace. -/
def betweenBraces (text : String) : Option String :=
  let opening := text.toList.idxOf '{'
  let closing := text.toList.length - 1 - text.toList.reverse.idxOf '}'
  if '{' ∈ text.toList ∧ '}' ∈ text.toList ∧ opening < closing then
    some (String.ofList ((text.toList.take (closing + 1)).drop opening))
  else none

def parseJson (json : JsonLibrary) (text : String) : Except String json.Value :=
  match json.fromStr text with
  | .ok value => .ok value
  | .error _ =>
      match betweenBraces text with
      | some inner => json.fromStr inner
      | none => .error "invalid JSON payload"

def parseBallot (json : JsonLibrary) (text : String) : Except LLMJudgeError Ballot :=
  match parseJson json (stripMarkdownFences (trim text)) with
  | .error e => .error (.contract ("JSON parse error: " ++ e))
  | .ok value =>
      match (json.get value "chosen_index").bind json.asU64 with
      | none => .error (.contract "missing or non-integer 'chosen_index'")
      | some chosenIndex =>
          match (json.get value "reason").bind json.asStr with
          | none => .error (.contract "missing or non-string 'reason'")
          | some reason => .ok ⟨chosenIndex, reason⟩

def checkCrossFamily (judgeBackend : String) (candidates : List BranchSuccess)
    (requireDifferent : Bool) : Except LLMJudgeError Unit :=
  match candidates.find? fun c => familyOf c.backendId = familyOf judgeBackend with
  | some c =>
      if requireDifferent then
        .error (.familyOverlap judgeBackend c.backendId (familyOf judgeBackend).asStr)
      else .ok ()
  | none => .ok ()

variable (setting : Setting)

def renderBallotPrompt (template : String) (candidates : List BranchSuccess) :
    Except LLMJudgeError String :=
  match setting.renderSerde template
      ⟨candidates.map Candidate.fromBranchSuccess, setting.phaseName⟩ with
  | .ok prompt => .ok prompt
  | .error e => .error (.contract ("template render failed: " ++ e))

def clampChosenIndex (chosenIndex candidateCount : ℕ) : ℕ :=
  if candidateCount = 0 then 0 else min chosenIndex (candidateCount - 1)

/-- The output of the chosen candidate with the judge's reason for it. -/
def judgement (chosen : BranchSuccess) (reason : String) : String :=
  chosen.output ++ "\n\n<!-- loker: LLMJudge chose candidate " ++ chosen.index.repr ++ " (" ++
    chosen.backendId ++ ") -->\n" ++ reason

def overlapWarning (judgeBackend : String) (candidates : List BranchSuccess)
    (requireDifferent : Bool) : String :=
  match candidates.find? fun c => familyOf c.backendId = familyOf judgeBackend with
  | some c =>
      if requireDifferent then ""
      else "\n<!-- loker: warning judge family '" ++ (familyOf judgeBackend).asStr ++
        "' shares family with candidate '" ++ c.backendId ++
        "' but require_judge_different_family=false -->"
  | none => ""

/-- The judge's ballot on the candidates. -/
def judgeBallot (candidates : List BranchSuccess) (judgeBackend promptTemplate : String)
    (requireDifferent : Bool) (backends : List Backend) : Except LLMJudgeError Ballot := do
  if candidates = [] then throw (.contract "no candidates available for judge decision")
  checkCrossFamily judgeBackend candidates requireDifferent
  let ballotPrompt ← renderBallotPrompt setting promptTemplate candidates
  match backends.find? fun backend => backend.name = judgeBackend with
  | none => throw (.backendNotFound judgeBackend)
  | some judge =>
      match judge.query ballotPrompt with
      | .error e => throw (.judgeCall e)
      | .ok stdout => parseBallot setting.json stdout

def aggregateLlmJudge (candidates : List BranchSuccess) (judgeBackend promptTemplate : String)
    (requireDifferent : Bool) (backends : List Backend) : Except LLMJudgeError AggregatedArtifact := do
  let ballot ← judgeBallot setting candidates judgeBackend promptTemplate requireDifferent backends
  match candidates[clampChosenIndex ballot.chosenIndex candidates.length]? with
  | some chosen =>
      pure ⟨judgement chosen ballot.reason ++ overlapWarning judgeBackend candidates requireDifferent,
        candidates.length, 0⟩
  | none => throw (.contract "index out of bounds")

/-- The successful branches in the order of their completion, numbered from one. -/
def successfulCandidates (completions : List (String × Except BackendError String)) :
    List BranchSuccess :=
  completions.foldl (fun candidates completion =>
    match completion.2 with
    | .ok stdout =>
        candidates ++
          [⟨completion.1, (familyOf completion.1).asStr, candidates.length + 1, stdout⟩]
    | .error _ => candidates) []

end Model

section Numbering

variable {completions : List (String × Except BackendError String)} {i : ℕ} {c : BranchSuccess}

/-- A successful branch before it has a number. -/
def answered : String × Except BackendError String → Option (String × String)
  | (backendId, .ok stdout) => some (backendId, stdout)
  | (_, .error _) => none

lemma successfulCandidates_concat (completions : List (String × Except BackendError String))
    (completion : String × Except BackendError String) :
    successfulCandidates (completions ++ [completion]) = successfulCandidates completions ++
      ((answered completion).map fun branch => ⟨branch.1, (familyOf branch.1).asStr,
        (successfulCandidates completions).length + 1, branch.2⟩).toList := by
  obtain ⟨backendId, answer⟩ := completion
  rw [successfulCandidates, List.foldl_append, ← successfulCandidates]
  cases answer with
  | ok stdout => rfl
  | error e => exact (List.append_nil _).symm

/-- Every candidate is numbered by its place, the first one with one. -/
lemma index_of_getElem? (h : (successfulCandidates completions)[i]? = some c) : c.index = i + 1 := by
  induction completions using List.reverseRecOn generalizing i with
  | nil => simp [successfulCandidates] at h
  | append_singleton completions completion ih =>
      rw [successfulCandidates_concat] at h
      by_cases hi : i < (successfulCandidates completions).length
      · rw [List.getElem?_append_left hi] at h
        exact ih h
      · rw [List.getElem?_append_right (by omega)] at h
        cases hbranch : answered completion with
        | none => simp [hbranch] at h
        | some branch =>
            obtain ⟨hlt, hc⟩ := List.getElem?_eq_some_iff.mp h
            simp only [hbranch, Option.map_some, Option.toList_some, List.length_singleton] at hlt hc
            have hend : i = (successfulCandidates completions).length := by omega
            subst hend
            simp only [Nat.sub_self, List.getElem_cons_zero] at hc
            rw [← hc]

/-- The candidates are the successful branches in the order of their completion. -/
lemma successfulCandidates_answers (completions : List (String × Except BackendError String)) :
    (successfulCandidates completions).map (fun c => (c.backendId, c.output)) =
      completions.filterMap answered := by
  induction completions using List.reverseRecOn with
  | nil => rfl
  | append_singleton completions completion ih =>
      rw [successfulCandidates_concat, List.map_append, ih, List.filterMap_append]
      congr 1
      cases hbranch : answered completion with
      | none => simp [hbranch]
      | some branch => simp [hbranch]

end Numbering

section Choice

variable {setting : Setting} {candidates : List BranchSuccess} {judgeBackend promptTemplate : String}
  {requireDifferent : Bool} {backends : List Backend} {ballot : Ballot} {e : LLMJudgeError}

lemma clampChosenIndex_eq (chosenIndex candidateCount : ℕ) :
    clampChosenIndex chosenIndex candidateCount = min chosenIndex (candidateCount - 1) := by
  unfold clampChosenIndex
  split <;> omega

lemma candidates_ne_nil
    (h : judgeBallot setting candidates judgeBackend promptTemplate requireDifferent backends =
      .ok ballot) : candidates ≠ [] := by
  intro hnil
  simp only [judgeBallot, if_pos hnil] at h
  cases h

lemma exists_chosen (hne : candidates ≠ []) (k : ℕ) :
    ∃ c, candidates[clampChosenIndex k candidates.length]? = some c := by
  have hpos := List.length_pos_iff.mpr hne
  have hlt : clampChosenIndex k candidates.length < candidates.length := by
    rw [clampChosenIndex_eq]
    omega
  exact ⟨_, List.getElem?_eq_getElem hlt⟩

lemma aggregateLlmJudge_of_error
    (h : judgeBallot setting candidates judgeBackend promptTemplate requireDifferent backends =
      .error e) :
    aggregateLlmJudge setting candidates judgeBackend promptTemplate requireDifferent backends =
      .error e := by
  simp only [aggregateLlmJudge, h]
  rfl

/-- Only a judge that returned a ballot chooses. -/
lemma judgeBallot_of_aggregate {artefact : AggregatedArtifact}
    (h : aggregateLlmJudge setting candidates judgeBackend promptTemplate requireDifferent backends =
      .ok artefact) :
    ∃ ballot, judgeBallot setting candidates judgeBackend promptTemplate requireDifferent backends =
      .ok ballot := by
  cases hballot : judgeBallot setting candidates judgeBackend promptTemplate requireDifferent backends with
  | ok ballot => exact ⟨ballot, rfl⟩
  | error e =>
      rw [aggregateLlmJudge_of_error hballot] at h
      cases h

lemma aggregateLlmJudge_of_ballot {c : BranchSuccess}
    (h : judgeBallot setting candidates judgeBackend promptTemplate requireDifferent backends =
      .ok ballot)
    (hc : candidates[clampChosenIndex ballot.chosenIndex candidates.length]? = some c) :
    aggregateLlmJudge setting candidates judgeBackend promptTemplate requireDifferent backends =
      .ok ⟨judgement c ballot.reason ++ overlapWarning judgeBackend candidates requireDifferent,
        candidates.length, 0⟩ := by
  simp only [aggregateLlmJudge, h]
  change (match candidates[clampChosenIndex ballot.chosenIndex candidates.length]? with
    | some chosen => _
    | none => _) = _
  rw [hc]
  rfl

/-- The candidate at the place that the ballot names, counted from zero, or the last one beyond
the end, is the one whose output is returned and whose number and backend are named. -/
theorem aggregateLlmJudge_chosen (completions : List (String × Except BackendError String)) :
    (∀ ballot, judgeBallot setting (successfulCandidates completions) judgeBackend promptTemplate
          requireDifferent backends = .ok ballot →
      ∃ place c, place = min ballot.chosenIndex ((completions.filterMap answered).length - 1) ∧
        (completions.filterMap answered)[place]? = some (c.backendId, c.output) ∧
        ((successfulCandidates completions).map Candidate.fromBranchSuccess)[place]? =
          some (Candidate.fromBranchSuccess c) ∧
        c.index = place + 1 ∧
        aggregateLlmJudge setting (successfulCandidates completions) judgeBackend promptTemplate
          requireDifferent backends =
            .ok ⟨judgement c ballot.reason ++
              overlapWarning judgeBackend (successfulCandidates completions) requireDifferent,
              (successfulCandidates completions).length, 0⟩) ∧
    ∀ artefact, aggregateLlmJudge setting (successfulCandidates completions) judgeBackend
        promptTemplate requireDifferent backends = .ok artefact →
      ∃ ballot, judgeBallot setting (successfulCandidates completions) judgeBackend promptTemplate
        requireDifferent backends = .ok ballot := by
  constructor
  · intro ballot h
    obtain ⟨c, hc⟩ := exists_chosen (candidates_ne_nil h) ballot.chosenIndex
    have hlength := congrArg List.length (successfulCandidates_answers completions)
    rw [List.length_map] at hlength
    refine ⟨_, c, rfl, ?_, ?_, ?_, aggregateLlmJudge_of_ballot h hc⟩
    all_goals rw [← hlength, ← clampChosenIndex_eq]
    · rw [← successfulCandidates_answers, List.getElem?_map, hc]
      rfl
    · rw [List.getElem?_map, hc]
      rfl
    · exact index_of_getElem? hc
  · intro artefact h
    exact judgeBallot_of_aggregate h

/-- A branch fails between two that answer. -/
def twoAnswers : List (String × Except BackendError String) :=
  [("claude", .ok "a"), ("codex", .error (.network "down")), ("gemini", .ok "b")]

def ballotText (chosenIndex : ℕ) : String :=
  "\x7b\"chosen_index\":" ++ chosenIndex.repr ++ ",\"reason\":\"clear\"\x7d"

/-- A library that reads this one text. -/
def ballotLibrary (chosenIndex : ℕ) : JsonLibrary where
  Value := ℕ ⊕ String
  fromStr text := if text = ballotText chosenIndex then .ok (.inr "") else .error "expected value"
  get _ key :=
    if key = "chosen_index" then some (.inl chosenIndex)
    else if key = "reason" then some (.inr "clear")
    else none
  asU64 value := value.getLeft?
  asStr value := value.getRight?

def judging (chosenIndex : ℕ) : Setting :=
  ⟨ballotLibrary chosenIndex, fun _ _ => .ok "choose", "review"⟩

def reviewer (chosenIndex : ℕ) : List Backend :=
  [⟨"reviewer", fun _ => .ok ("```json\n" ++ ballotText chosenIndex ++ "\n```")⟩]

theorem aggregateLlmJudge_chosen_twoAnswers :
    judgeBallot (judging 1) (successfulCandidates twoAnswers) "reviewer" "" true (reviewer 1) =
      .ok ⟨1, "clear"⟩ ∧
    ∃ (place : ℕ) (c : BranchSuccess), place = 1 ∧
      (twoAnswers.filterMap answered)[place]? = some (c.backendId, c.output) ∧ c.index = place + 1 := by
  have hballot : judgeBallot (judging 1) (successfulCandidates twoAnswers) "reviewer" "" true
      (reviewer 1) = .ok ⟨1, "clear"⟩ := by decide
  obtain ⟨place, c, hplace, hc, _, hindex, _⟩ :=
    (aggregateLlmJudge_chosen twoAnswers).1 _ hballot
  exact ⟨hballot, place, c, hplace, hc, hindex⟩

/-- The number that the first candidate is shown with brings the second one, and a number that no
candidate is shown with brings the last one. -/
theorem shown_number_misses :
    ((successfulCandidates twoAnswers).map Candidate.fromBranchSuccess).map
        (fun c => (c.index, c.backendId)) = [(1, "claude"), (2, "gemini")] ∧
      (aggregateLlmJudge (judging 1) (successfulCandidates twoAnswers) "reviewer" "" true
        (reviewer 1)).toOption.map AggregatedArtifact.text =
          some "b\n\n<!-- loker: LLMJudge chose candidate 2 (gemini) -->\nclear" ∧
      (aggregateLlmJudge (judging 7) (successfulCandidates twoAnswers) "reviewer" "" true
        (reviewer 7)).toOption.map AggregatedArtifact.text =
          some "b\n\n<!-- loker: LLMJudge chose candidate 2 (gemini) -->\nclear" := by
  decide

end Choice

end Loker.LlmJudge
