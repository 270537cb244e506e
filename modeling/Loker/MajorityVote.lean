import Loker.Consensus
import Loker.Grouping
import Loker.Vote

/-! The majority vote, whatever order the map of its counts is iterated in. -/

namespace Loker.MajorityVote

open Consensus Grouping
open Vote (foldl_max_mem le_foldl_max)

section Tally

/-- The number of responses that agree with a text. -/
def votesFor (responses : List BackendResponse) (content : String) : ℕ :=
  (responses.map normalized).count content

/-- Every response's text is listed once, with the number of responses that agree with it. -/
structure Tally (responses : List BackendResponse) (scores : List (String × ℕ)) : Prop where
  unique : (scores.map Prod.fst).Nodup
  mem_iff : ∀ content count, (content, count) ∈ scores ↔
    content ∈ responses.map normalized ∧ count = votesFor responses content
  lookup : ∀ content ∈ responses.map normalized,
    scores.lookup content = some (votesFor responses content)

lemma addVote_eq (scores : List (String × ℕ)) (content : String) (weight : ℕ) :
    addVote scores content weight = insertGroup (· + ·) 0 scores (content, weight) := by
  rw [addVote, insertGroup, Nat.zero_add]

lemma scoresOf_eq (weight : BackendResponse → ℕ) (responses : List BackendResponse) :
    scoresOf weight responses =
      groupsOf (· + ·) 0 (responses.map fun r => (normalized r, weight r)) := by
  rw [scoresOf, groupsOf, List.foldl_map]
  simp only [addVote_eq]

/-- One vote for each response that agrees. -/
lemma foldl_votes (responses : List BackendResponse) (content : String) :
    (valuesOf (responses.map fun r => (normalized r, 1)) content).foldl (· + ·) 0 =
      votesFor responses content := by
  rw [← List.sum_eq_foldl, votesFor]
  induction responses with
  | nil => rfl
  | cons r responses ih =>
    unfold valuesOf at ih ⊢
    rw [List.map_cons, List.map_cons, List.count_cons, ← ih]
    by_cases hcontent : normalized r = content
    · simp [hcontent, Nat.add_comm]
    · simp [hcontent]

/-- Every response adds its vote. -/
lemma tally_scoresOf (responses : List BackendResponse) :
    Tally responses (scoresOf (fun _ => 1) responses) := by
  have hgroups : Groups (· + ·) 0 (responses.map fun r => (normalized r, 1))
      (groupsOf (· + ·) 0 (responses.map fun r => (normalized r, 1))) := groups_groupsOf _
  have hkeys : (responses.map fun r => (normalized r, 1)).map Prod.fst =
      responses.map normalized := by rw [List.map_map]; rfl
  rw [scoresOf_eq]
  constructor
  · exact hgroups.unique
  · intro content count
    rw [hgroups.mem_iff, hkeys, foldl_votes]
  · intro content hmem
    rw [hgroups.lookup (hkeys ▸ hmem), foldl_votes]

end Tally

section Winners

/-- No other text has more votes. -/
def Maximal (responses : List BackendResponse) (content : String) : Prop :=
  ∀ r ∈ responses, votesFor responses (normalized r) ≤ votesFor responses content

variable {responses : List BackendResponse} {iteration : List (String × ℕ) → List (String × ℕ)}

lemma mem_winners {x : String × ℕ}
    (hiteration : ∀ scores, (iteration scores).Perm scores) :
    x ∈ winnersOf iteration (scoresOf (fun _ => 1) responses) ↔
      x.1 ∈ responses.map normalized ∧ x.2 = votesFor responses x.1 ∧ Maximal responses x.1 := by
  have htally := tally_scoresOf responses
  rw [winnersOf, List.mem_filter, (hiteration _).mem_iff, decide_eq_true_eq,
    htally.mem_iff x.1 x.2, and_assoc]
  apply and_congr_right
  intro hmem
  apply and_congr_right
  intro hcount
  constructor
  · intro hmax r hr
    have hother : (normalized r, votesFor responses (normalized r)) ∈
        scoresOf (fun _ => 1) responses :=
      (htally.mem_iff _ _).mpr ⟨List.mem_map_of_mem hr, rfl⟩
    rw [← hcount, hmax]
    exact le_foldl_max 0 (Or.inl (List.mem_map_of_mem (f := Prod.snd) hother))
  · intro hmax
    apply le_antisymm
    · have hx := (htally.mem_iff x.1 x.2).mpr ⟨hmem, hcount⟩
      exact le_foldl_max 0 (Or.inl (List.mem_map_of_mem (f := Prod.snd) hx))
    · rcases foldl_max_mem ((scoresOf (fun _ => 1) responses).map Prod.snd) 0 with hzero | hbest
      · rw [hzero]
        exact Nat.zero_le _
      · obtain ⟨y, hy, hvotes⟩ := List.mem_map.mp hbest
        obtain ⟨hother, hyvotes⟩ := (htally.mem_iff y.1 y.2).mp hy
        obtain ⟨r, hr, hcontent⟩ := List.mem_map.mp hother
        rw [← hvotes, hyvotes, hcount, ← hcontent]
        exact hmax r hr

lemma exists_maximal (hne : responses ≠ []) :
    ∃ r ∈ responses, Maximal responses (normalized r) := by
  cases hbest : responses.argmax fun r => votesFor responses (normalized r) with
  | none => exact absurd (List.argmax_eq_none.mp hbest) hne
  | some r =>
    have hmem := List.argmax_mem hbest
    exact ⟨r, hmem, fun r' hr' => List.le_of_mem_argmax
      (f := fun r => votesFor responses (normalized r)) hr' hbest⟩

/-- The elected text is the first response's among those with the most votes. -/
lemma argmin_winners (hiteration : ∀ scores, (iteration scores).Perm scores)
    (hne : responses ≠ []) :
    ∃ x, ∃ i, ∃ hi : i < responses.length,
      (winnersOf iteration (scoresOf (fun _ => 1) responses)).argmin
        (fun x => firstSeen responses x.1) = some x ∧
      x.1 = normalized responses[i] ∧ Maximal responses x.1 ∧
      ∀ j, (hj : j < i) → ¬ Maximal responses (normalized responses[j]) := by
  cases hfirst : (winnersOf iteration (scoresOf (fun _ => 1) responses)).argmin
      (fun x => firstSeen responses x.1) with
  | none =>
    obtain ⟨r, hr, hmax⟩ := exists_maximal hne
    have hwins := (mem_winners (x := (normalized r, votesFor responses (normalized r)))
      hiteration).mpr ⟨List.mem_map_of_mem hr, rfl, hmax⟩
    rw [List.argmin_eq_none.mp hfirst] at hwins
    cases hwins
  | some x =>
    obtain ⟨hmem, _, hmax⟩ := (mem_winners hiteration).mp (List.argmin_mem hfirst)
    have hlt : firstSeen responses x.1 < (responses.map normalized).length :=
      List.idxOf_lt_length_of_mem hmem
    have hi : firstSeen responses x.1 < responses.length := by simpa using hlt
    have hat : (responses.map normalized)[firstSeen responses x.1] = x.1 :=
      List.getElem_idxOf hlt
    rw [List.getElem_map] at hat
    refine ⟨x, firstSeen responses x.1, hi, rfl, hat.symm, hmax, ?_⟩
    intro j hj hearlier
    have hjlt : j < responses.length := hj.trans hi
    have hwins := (mem_winners
      (x := (normalized responses[j], votesFor responses (normalized responses[j])))
      hiteration).mpr ⟨List.mem_map_of_mem (List.getElem_mem hjlt), rfl, hearlier⟩
    have hle : firstSeen responses x.1 ≤ firstSeen responses (normalized responses[j]) :=
      List.le_of_mem_argmin (f := fun x => firstSeen responses x.1) hwins hfirst
    have hseen : firstSeen responses (normalized responses[j]) ≤ j := by
      by_contra hlater
      have hdiffers := List.not_of_lt_findIdx (Nat.lt_of_not_le hlater)
      rw [List.getElem_map, beq_self_eq_true] at hdiffers
      cases hdiffers
    omega

lemma majorityVote_eq (iteration : List (String × ℕ) → List (String × ℕ))
    (hne : responses ≠ []) : majorityVote iteration responses =
      ((winnersOf iteration (scoresOf (fun _ => 1) responses)).argmin
        (fun x => firstSeen responses x.1)).map fun x =>
          ⟨x.1, scoresOf (fun _ => 1) responses, responses.length,
            1 < (winnersOf iteration (scoresOf (fun _ => 1) responses)).length⟩ := by
  rw [majorityVote, vote, if_neg hne]

/-- As many win in every order. -/
lemma length_winners (hiteration : ∀ scores, (iteration scores).Perm scores)
    (scores : List (String × ℕ)) :
    (winnersOf iteration scores).length = (winnersOf id scores).length :=
  ((hiteration scores).filter _).length_eq

/-- The first text with the most votes wins, with its exact count, and the result does not
depend on the order in which the counts are iterated. -/
theorem majority_vote (responses : List BackendResponse)
    (iteration iteration' : List (String × ℕ) → List (String × ℕ))
    (hiteration : ∀ scores, (iteration scores).Perm scores)
    (hiteration' : ∀ scores, (iteration' scores).Perm scores) :
    majorityVote iteration responses = majorityVote iteration' responses ∧
    (responses = [] → majorityVote iteration responses = none) ∧
    (responses ≠ [] → ∃ result, majorityVote iteration responses = some result ∧
      ∃ i, ∃ hi : i < responses.length,
        result.winner = normalized responses[i] ∧
        (∀ r ∈ responses, votesFor responses (normalized r) ≤ votesFor responses result.winner) ∧
        (∀ j, (hj : j < i) →
          votesFor responses (normalized responses[j]) < votesFor responses result.winner) ∧
        result.total = responses.length ∧
        ∀ r ∈ responses,
          result.breakdown.lookup (normalized r) = some (votesFor responses (normalized r))) := by
  by_cases hne : responses = []
  · subst hne
    exact ⟨rfl, fun _ => rfl, fun h => absurd rfl h⟩
  · obtain ⟨x, i, hi, helected, hwinner, hmax, hearlier⟩ := argmin_winners hiteration hne
    obtain ⟨y, k, hk, helected', hwinner', hmax', hearlier'⟩ := argmin_winners hiteration' hne
    have hsame : i = k := by
      rcases Nat.lt_trichotomy i k with hlt | heq | hgt
      · exact absurd (hwinner ▸ hmax) (hearlier' i hlt)
      · exact heq
      · exact absurd (hwinner' ▸ hmax') (hearlier k hgt)
    refine ⟨?_, fun h => absurd h hne, fun _ => ?_⟩
    · subst hsame
      rw [majorityVote_eq iteration hne, majorityVote_eq iteration' hne, helected, helected',
        Option.map_some, Option.map_some, hwinner, hwinner', length_winners hiteration,
        length_winners hiteration']
    · rw [majorityVote_eq iteration hne, helected]
      refine ⟨_, rfl, i, hi, hwinner, hmax, ?_, rfl, ?_⟩
      · intro j hj
        by_contra hnot
        apply hearlier j hj
        intro r hr
        exact (hmax r hr).trans (Nat.le_of_not_lt hnot)
      · intro r hr
        exact (tally_scoresOf responses).lookup _ (List.mem_map_of_mem hr)

def ballots : List BackendResponse :=
  [⟨"claude", "no"⟩, ⟨"codex", " yes"⟩, ⟨"gemini", "yes\n"⟩, ⟨"ollama", "no "⟩, ⟨"bedrock", "?"⟩]

theorem majority_vote_ballots :
    majorityVote List.reverse ballots = majorityVote id ballots ∧
      (majorityVote List.reverse ballots).map (fun result => (result.winner, result.wasTie)) =
        some ("no", true) := by
  have horder := (majority_vote ballots List.reverse id (fun scores => scores.reverse_perm)
    fun scores => List.Perm.refl scores).1
  exact ⟨horder, by decide⟩

end Winners

end Loker.MajorityVote
