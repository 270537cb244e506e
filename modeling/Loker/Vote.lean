import Loker.Concat

/-! The vote over the outputs of a fan-out's branches, and the attempt whose output it elects. -/

namespace Loker.Vote

open TextOps Strategies Concat

section Data

inductive TieBreak where
  | closestToFamily (family : Family)
  | random (seed : ℕ)
  | firstResponder
  deriving DecidableEq, Repr

/-- The ballots are free texts. -/
structure VoteConfig where
  tieBreak : TieBreak
  abstainThreshold : ℕ
  deriving DecidableEq, Repr

structure VoteCandidate where
  backendId : String
  family : String
  normalised : String
  original : String
  arrivalOrder : ℕ
  deriving DecidableEq, Repr

structure VoteResult where
  winner : String
  voteCounts : List (String × ℕ)
  abstainCount : ℕ
  totalBranches : ℕ
  tieBroken : Bool
  tieBreakRule : String
  deriving DecidableEq, Repr

inductive VoteError where
  | quorumLost (abstains threshold : ℕ)
  | noCandidates
  deriving DecidableEq, Repr

/-- The text of the phase error that a vote's error becomes. -/
def VoteError.text : VoteError → String
  | .quorumLost abstains threshold =>
      "quorum lost: " ++ abstains.repr ++ " abstentions exceed threshold " ++ threshold.repr
  | .noCandidates => "aggregator rejected: no candidates"

/-- The Unicode lower-case mapping and the seeded choice among a number of candidates. -/
structure Library where
  lower : String → String
  choose : ℕ → ℕ → ℕ

end Data

variable (lib : Library)

section Ballots

def normaliseBallot (text : String) : String := lib.lower (trim text)

/-- A branch's vote; failed and blank branches abstain. -/
def candidateOf (x : BranchOutcome × ℕ) : Option VoteCandidate :=
  match x.1 with
  | .success backendId _ output =>
      let normalised := normaliseBallot lib output
      if normalised = "" then none
      else some ⟨backendId, (familyOf backendId).asStr, normalised, output, x.2⟩
  | .failure _ _ _ => none

def candidates (branches : List BranchOutcome) : List VoteCandidate :=
  branches.zipIdx.filterMap (candidateOf lib)

/-- The byte order of strings is that of their characters. -/
def keyLe : List Char → List Char → Bool
  | [], _ => true
  | _ :: _, [] => false
  | a :: as, b :: bs => a.toNat < b.toNat || (a.toNat = b.toNat && keyLe as bs)

/-- The keys of the buckets, in order. -/
def buckets (cs : List VoteCandidate) : List String :=
  (cs.map VoteCandidate.normalised).dedup.insertionSort fun a b => keyLe a.toList b.toList

def bucket (cs : List VoteCandidate) (key : String) : List VoteCandidate :=
  cs.filter fun c => c.normalised = key

def votes (cs : List VoteCandidate) (key : String) : ℕ := (bucket cs key).length

def maxVotes (cs : List VoteCandidate) : ℕ := ((buckets cs).map (votes cs)).foldl max 0

def winners (cs : List VoteCandidate) : List String :=
  (buckets cs).filter fun key => votes cs key = maxVotes cs

end Ballots

section Ties

/-- When the first vote of a bucket arrived. -/
def firstArrival (cs : List VoteCandidate) (key : String) : ℕ :=
  ((bucket cs key).map VoteCandidate.arrivalOrder).min?.getD (2 ^ 64 - 1)

def firstResponder (tied : List String) (cs : List VoteCandidate) : String :=
  (tied.argmin (firstArrival cs)).getD (tied.headD "")

def resolveTie (tied : List String) (cs : List VoteCandidate) : TieBreak → String
  | .firstResponder => firstResponder tied cs
  | .closestToFamily target =>
      let matching := tied.filter fun key =>
        (bucket cs key).any fun c => familyOf c.backendId = target
      if matching = [] then firstResponder tied cs
      else if matching.length = 1 then matching.headD ""
      else firstResponder matching cs
  | .random seed => tied.getD (lib.choose seed tied.length) ""

def formatTieBreakRule : TieBreak → String
  | .closestToFamily family => "closest_to_family(" ++ family.asStr ++ ")"
  | .random seed => "random(seed=" ++ seed.repr ++ ")"
  | .firstResponder => "first_responder"

end Ties

section Texts

/-- A text in which no comment ends. -/
def sanitizeComment (text : String) : String := replaceAll text "-->" "-- >"

/-- The original text of the first vote in the winning bucket. -/
def winnerOriginal (result : VoteResult) (cs : List VoteCandidate) : String :=
  ((bucket cs result.winner).head?.map VoteCandidate.original).getD result.winner

def metadataLines (result : VoteResult) : List String :=
  ["<!-- loker: Vote aggregator metadata",
    "  winner: " ++ sanitizeComment result.winner,
    "  total_branches: " ++ result.totalBranches.repr,
    "  vote_counts:"] ++
  (result.voteCounts.map fun x => "    " ++ sanitizeComment x.1 ++ ": " ++ x.2.repr) ++
  ["  abstain_count: " ++ result.abstainCount.repr,
    "  tie_broken: " ++ (if result.tieBroken then "true" else "false"),
    "  tie_break_rule: " ++ sanitizeComment result.tieBreakRule,
    "-->", ""]

def buildAggregatedText (result : VoteResult) (cs : List VoteCandidate) : String :=
  "\n".intercalate (winnerOriginal result cs :: "" :: metadataLines result)

end Texts

section Aggregate

variable (config : VoteConfig) (branches : List BranchOutcome)

/-- The winning bucket, and whether a tie was broken for it. -/
def elect (cs : List VoteCandidate) : String × Bool :=
  if maxVotes cs * 2 > cs.length then ((winners cs).headD "", false)
  else (resolveTie lib (winners cs) cs config.tieBreak, true)

/-- Buckets of more votes come first, equal ones in the order of their keys. -/
def voteCounts (cs : List VoteCandidate) : List (String × ℕ) :=
  ((buckets cs).map fun key => (key, votes cs key)).insertionSort fun a b => b.2 ≤ a.2

def abstentions : ℕ := branches.length - (candidates lib branches).length

def voteResult : VoteResult :=
  let cs := candidates lib branches
  let (winner, tieBroken) := elect lib config cs
  { winner := winner
    voteCounts := voteCounts cs
    abstainCount := abstentions lib branches
    totalBranches := branches.length
    tieBroken := tieBroken
    tieBreakRule :=
      if tieBroken then formatTieBreakRule config.tieBreak else "none (strict majority)" }

def aggregateVote : Except VoteError (AggregatedArtifact × VoteResult) :=
  let cs := candidates lib branches
  let abstains := abstentions lib branches
  if abstains > config.abstainThreshold then .error (.quorumLost abstains config.abstainThreshold)
  else if cs = [] then .error .noCandidates
  else
    let result := voteResult lib config branches
    .ok (⟨buildAggregatedText result cs, cs.length, abstains⟩, result)

/-- The configuration that the name `vote` stands for. -/
def namedVote : VoteConfig := ⟨.firstResponder, 2 ^ 64 - 1⟩

/-- The text of the artefact or of the error. -/
def voteText : Except String String :=
  match aggregateVote lib namedVote branches with
  | .ok (artefact, _) => .ok artefact.text
  | .error e => .error e.text

/-- The candidate whose original text the artefact has. -/
def electedCandidate : Option VoteCandidate :=
  (bucket (candidates lib branches) (voteResult lib config branches).winner).head?

end Aggregate

section Elected

variable {lib} {config : VoteConfig} {branches : List BranchOutcome} {cs : List VoteCandidate}

omit lib in
lemma mem_buckets {key : String} : key ∈ buckets cs ↔ ∃ c ∈ cs, c.normalised = key := by
  rw [buckets, List.mem_insertionSort, List.mem_dedup, List.mem_map]

lemma foldl_max_mem (xs : List ℕ) (a : ℕ) : xs.foldl max a = a ∨ xs.foldl max a ∈ xs := by
  induction xs generalizing a with
  | nil => exact Or.inl rfl
  | cons x xs ih =>
      rw [List.foldl_cons]
      rcases ih (max a x) with h | h
      · rw [h]
        rcases max_choice a x with hmax | hmax
        · exact Or.inl hmax
        · rw [hmax]
          exact Or.inr List.mem_cons_self
      · exact Or.inr (List.mem_cons_of_mem _ h)

lemma le_foldl_max {xs : List ℕ} {x : ℕ} (a : ℕ) (h : x ∈ xs ∨ x ≤ a) : x ≤ xs.foldl max a := by
  induction xs generalizing a with
  | nil => exact h.resolve_left nofun
  | cons y ys ih =>
      rw [List.foldl_cons]
      apply ih
      rcases h with h | h
      · rcases List.mem_cons.mp h with rfl | hmem
        · exact Or.inr (le_max_right a x)
        · exact Or.inl hmem
      · exact Or.inr (le_trans h (le_max_left a y))

omit lib in
lemma votes_pos {c : VoteCandidate} (h : c ∈ cs) : 0 < votes cs c.normalised :=
  List.length_pos_of_mem (List.mem_filter.mpr ⟨h, by simp⟩)

omit lib in
/-- Some bucket has the most votes. -/
lemma winners_ne_nil (h : cs ≠ []) : winners cs ≠ [] := by
  obtain ⟨c, rest, rfl⟩ := List.exists_cons_of_ne_nil h
  have hkey : c.normalised ∈ buckets (c :: rest) :=
    mem_buckets.mpr ⟨c, List.mem_cons_self, rfl⟩
  have hvotes : votes (c :: rest) c.normalised ∈ (buckets (c :: rest)).map (votes (c :: rest)) :=
    List.mem_map_of_mem hkey
  have hle := le_foldl_max 0 (Or.inl hvotes)
  have hpos : 0 < votes (c :: rest) c.normalised := votes_pos List.mem_cons_self
  rcases foldl_max_mem ((buckets (c :: rest)).map (votes (c :: rest))) 0 with hzero | hmem
  · omega
  · obtain ⟨key, hbucket, hmax⟩ := List.mem_map.mp hmem
    exact List.ne_nil_of_mem (List.mem_filter.mpr ⟨hbucket, decide_eq_true hmax⟩)

omit lib in
lemma firstResponder_mem {tied : List String} (h : tied ≠ []) : firstResponder tied cs ∈ tied := by
  unfold firstResponder
  cases hmin : tied.argmin (firstArrival cs) with
  | none => exact absurd (List.argmin_eq_none.mp hmin) h
  | some key => exact List.argmin_mem hmin

lemma elect_mem (h : cs ≠ []) : (elect lib namedVote cs).1 ∈ buckets cs := by
  have hne := winners_ne_nil h
  have hsub : ∀ key ∈ winners cs, key ∈ buckets cs := fun key hkey => List.mem_of_mem_filter hkey
  unfold elect
  split
  · obtain ⟨key, rest, hwinners⟩ := List.exists_cons_of_ne_nil hne
    rw [hwinners]
    exact hsub key (hwinners ▸ List.mem_cons_self)
  · exact hsub _ (firstResponder_mem hne)

lemma candidate_branch {c : VoteCandidate} (h : c ∈ candidates lib branches) :
    ∃ index, branches[c.arrivalOrder]? = some (.success c.backendId index c.original) := by
  obtain ⟨⟨branch, i⟩, hmem, hc⟩ := List.mem_filterMap.mp h
  have hget : branches[i]? = some branch := List.mem_zipIdx_iff_getElem?.mp hmem
  cases branch with
  | failure backendId index reason => cases hc
  | success backendId index output =>
      simp only [candidateOf] at hc
      split at hc
      · cases hc
      · obtain rfl := Option.some.inj hc
        exact ⟨index, hget⟩

/-- A vote that succeeds has elected one of the branches, with whose output its text begins. -/
lemma voteText_ok {text : String} (h : voteText lib branches = .ok text) :
    ∃ c, electedCandidate lib namedVote branches = some c ∧ c ∈ candidates lib branches ∧
      ∃ rest, text = c.original ++ rest := by
  unfold voteText at h
  cases hvote : aggregateVote lib namedVote branches with
  | error e =>
      rw [hvote] at h
      cases h
  | ok x =>
      rw [hvote] at h
      obtain rfl := Except.ok.inj h
      simp only [aggregateVote] at hvote
      split at hvote
      · cases hvote
      split at hvote
      · cases hvote
      · next _ hne =>
        obtain rfl := Except.ok.inj hvote
        have hmember : (elect lib namedVote (candidates lib branches)).1 ∈
            buckets (candidates lib branches) := elect_mem hne
        obtain ⟨c, hc, hkey⟩ := mem_buckets.mp hmember
        have hsome : bucket (candidates lib branches)
            (voteResult lib namedVote branches).winner ≠ [] :=
          List.ne_nil_of_mem (List.mem_filter.mpr ⟨hc, decide_eq_true hkey⟩)
        obtain ⟨first, rest, hbucket⟩ := List.exists_cons_of_ne_nil hsome
        have helected : electedCandidate lib namedVote branches = some first := by
          rw [electedCandidate, hbucket, List.head?_cons]
        have hfirst : first ∈ bucket (candidates lib branches)
            (voteResult lib namedVote branches).winner := by
          rw [hbucket]
          exact List.mem_cons_self
        have horiginal : winnerOriginal (voteResult lib namedVote branches)
            (candidates lib branches) = first.original := by
          rw [winnerOriginal, hbucket]
          rfl
        refine ⟨first, helected, List.mem_of_mem_filter hfirst, ?_⟩
        rw [buildAggregatedText, horiginal, String.intercalate_cons_cons]
        exact ⟨_, String.append_assoc⟩

/-- The vote does not look at the branches' own numbers nor at why they failed. -/
inductive SameBallot : BranchOutcome → BranchOutcome → Prop
  | success {backendId output i j} :
      SameBallot (.success backendId i output) (.success backendId j output)
  | failure {b i r b' j r'} : SameBallot (.failure b i r) (.failure b' j r')

lemma candidates_congr {branches' : List BranchOutcome}
    (h : List.Forall₂ SameBallot branches branches') :
    candidates lib branches = candidates lib branches' := by
  unfold candidates
  generalize 0 = k
  induction h generalizing k with
  | nil => rfl
  | @cons b b' bs bs' hsame _ ih =>
      have hfirst : candidateOf lib (b, k) = candidateOf lib (b', k) := by
        cases hsame with
        | success => rfl
        | failure => rfl
      rw [List.zipIdx_cons, List.zipIdx_cons, List.filterMap_cons, List.filterMap_cons, hfirst, ih]

lemma electedCandidate_congr {branches' : List BranchOutcome}
    (h : List.Forall₂ SameBallot branches branches') :
    electedCandidate lib config branches = electedCandidate lib config branches' := by
  have hsame : candidates lib branches = candidates lib branches' := candidates_congr h
  simp only [electedCandidate, voteResult, hsame]

end Elected

end Loker.Vote
