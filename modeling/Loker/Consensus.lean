import Loker.TextOps

/-! Votes on the responses of several backends. -/

namespace Loker.Consensus

open TextOps

structure BackendResponse where
  backend : String
  content : String
  deriving DecidableEq, Repr

structure VoteResult where
  winner : String
  breakdown : List (String × ℕ)
  total : ℕ
  wasTie : Bool
  deriving DecidableEq, Repr

structure WeightedVoteResult where
  winner : String
  breakdown : List (String × ℕ)
  wasTie : Bool
  deriving DecidableEq, Repr

section Vote

/-- White space around a response does not count. -/
def normalized (r : BackendResponse) : String := trim r.content

def addVote (scores : List (String × ℕ)) (content : String) (weight : ℕ) : List (String × ℕ) :=
  if (scores.lookup content).isSome then
    scores.map fun x => if x.1 = content then (x.1, x.2 + weight) else x
  else scores ++ [(content, weight)]

def scoresOf (weight : BackendResponse → ℕ) (responses : List BackendResponse) :
    List (String × ℕ) :=
  responses.foldl (fun scores r => addVote scores (normalized r) (weight r)) []

def firstSeen (responses : List BackendResponse) (content : String) : ℕ :=
  (responses.map normalized).idxOf content

-- The order in which the map of the scores is iterated.
variable (iteration : List (String × ℕ) → List (String × ℕ))

def winnersOf (scores : List (String × ℕ)) : List (String × ℕ) :=
  (iteration scores).filter fun x => x.2 = (scores.map Prod.snd).foldl max 0

/-- The best score wins, and among equal ones the first response. -/
def vote (weight : BackendResponse → ℕ) (responses : List BackendResponse) : Option VoteResult :=
  if responses = [] then none
  else
    let scores := scoresOf weight responses
    let winners := winnersOf iteration scores
    (winners.argmin fun x => firstSeen responses x.1).map fun x =>
      ⟨x.1, scores, responses.length, 1 < winners.length⟩

def majorityVote (responses : List BackendResponse) : Option VoteResult :=
  vote iteration (fun _ => 1) responses

/-- The weights are multiples of one half, and here their doubles. -/
def defaultWeight (backend : String) : ℕ :=
  match backend with
  | "claude" => 4
  | "codex" => 3
  | "gemini" => 3
  | "bedrock" => 4
  | "ollama" => 2
  | _ => 2

def weightedVote (responses : List BackendResponse) : Option WeightedVoteResult :=
  (vote iteration (fun r => defaultWeight r.backend) responses).map fun result =>
    ⟨result.winner, result.breakdown, result.wasTie⟩

end Vote

end Loker.Consensus
