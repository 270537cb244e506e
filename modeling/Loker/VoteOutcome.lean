import Loker.Vote

/-! What a vote elects, in terms of the ballots alone. -/

namespace Loker.VoteOutcome

open TextOps Strategies Concat Vote

section Tally

variable {κ : Type} [DecidableEq κ] {ballots ballots' : List (Option κ)} {key key' : κ}

/-- The ballots for a key; a ballot without one abstains. -/
def tally (ballots : List (Option κ)) (key : κ) : ℕ := ballots.count (some key)

def cast (ballots : List (Option κ)) : ℕ := ballots.countP Option.isSome

/-- No key has more ballots. -/
def Leads (ballots : List (Option κ)) (key : κ) : Prop := ∀ key', tally ballots key' ≤ tally ballots key

def HasMajority (ballots : List (Option κ)) (key : κ) : Prop := cast ballots < 2 * tally ballots key

lemma cast_add_abstain (ballots : List (Option κ)) : cast ballots + ballots.count none = ballots.length := by
  induction ballots with
  | nil => rfl
  | cons ballot ballots ih =>
      unfold cast at ih ⊢
      cases ballot with
      | none =>
          rw [List.count_cons_self, List.length_cons, List.countP_cons_of_neg (by simp)]
          omega
      | some key =>
          rw [List.count_cons_of_ne (by simp), List.length_cons, List.countP_cons_of_pos rfl]
          omega

lemma tally_add_le (ballots : List (Option κ)) (hne : key ≠ key') :
    tally ballots key + tally ballots key' ≤ cast ballots := by
  induction ballots with
  | nil => exact Nat.le_refl 0
  | cons ballot ballots ih =>
      unfold tally cast at ih ⊢
      cases ballot with
      | none =>
          rw [List.count_cons_of_ne (by simp), List.count_cons_of_ne (by simp),
            List.countP_cons_of_neg (by simp)]
          exact ih
      | some k =>
          rw [List.countP_cons_of_pos rfl, List.count_cons, List.count_cons]
          by_cases hk : k = key
          · simp only [hk, beq_self_eq_true, if_true, Option.some_beq_some, beq_iff_eq]
            simp only [hne, if_false]
            omega
          · simp only [hk, Option.some_beq_some, beq_iff_eq, if_false]
            split <;> omega

lemma tally_cons_of_ne {ballot : Option κ} (h : ballot ≠ some key) :
    tally (ballot :: ballots) key = tally ballots key :=
  List.count_cons_of_ne h

/-- Beside a strict majority no other key leads. -/
lemma HasMajority.eq_of_leads (h : HasMajority ballots key) (hleads : Leads ballots key') :
    key' = key := by
  by_contra hne
  have hle := hleads key
  have hsum := tally_add_le ballots hne
  unfold HasMajority at h
  omega

lemma HasMajority.leads (h : HasMajority ballots key) : Leads ballots key := by
  intro key'
  by_cases hne : key = key'
  · rw [hne]
  · have hsum := tally_add_le ballots hne
    unfold HasMajority at h
    omega

end Tally

section Ballots

variable {lib : Library} {branches : List BranchOutcome} {key : String}

/-- What a branch votes for: its output in normal form, unless it is blank or the branch failed. -/
def ballot (lib : Library) : BranchOutcome → Option String
  | .success _ _ output =>
      if normaliseBallot lib output = "" then none else some (normaliseBallot lib output)
  | .failure _ _ _ => none

lemma candidateOf_normalised (branch : BranchOutcome) (i : ℕ) :
    (candidateOf lib (branch, i)).map VoteCandidate.normalised = ballot lib branch := by
  cases branch with
  | failure backendId index reason => rfl
  | success backendId index output =>
      simp only [candidateOf, ballot]
      split
      · rfl
      · rfl

lemma candidates_normalised (branches : List BranchOutcome) :
    (candidates lib branches).map VoteCandidate.normalised = branches.filterMap (ballot lib) := by
  unfold candidates
  generalize 0 = k
  induction branches generalizing k with
  | nil => rfl
  | cons branch branches ih =>
      rw [List.zipIdx_cons, List.filterMap_cons, List.filterMap_cons, ← candidateOf_normalised branch k]
      cases candidateOf lib (branch, k) with
      | none => exact ih (k + 1)
      | some c =>
          rw [Option.map_some, List.map_cons, ih (k + 1)]

lemma votes_eq_tally (branches : List BranchOutcome) (key : String) :
    votes (candidates lib branches) key = tally (branches.map (ballot lib)) key := by
  have hcount : ∀ cs : List VoteCandidate, votes cs key = (cs.map VoteCandidate.normalised).count key := by
    intro cs
    rw [votes, bucket, ← List.countP_eq_length_filter, List.count, List.countP_map]
    rfl
  rw [hcount, candidates_normalised, tally]
  induction branches with
  | nil => rfl
  | cons branch branches ih =>
      rw [List.filterMap_cons, List.map_cons, List.count_cons]
      cases ballot lib branch with
      | none => simpa using ih
      | some k =>
          rw [List.count_cons, ih]
          simp

lemma length_candidates (branches : List BranchOutcome) :
    (candidates lib branches).length = cast (branches.map (ballot lib)) := by
  have hlength : ((candidates lib branches).map VoteCandidate.normalised).length = _ :=
    congrArg List.length (candidates_normalised branches)
  rw [List.length_map] at hlength
  rw [hlength, List.length_filterMap_eq_countP, cast, List.countP_map]
  rfl

lemma abstentions_eq (branches : List BranchOutcome) :
    abstentions lib branches = (branches.map (ballot lib)).count none := by
  have hsum := cast_add_abstain (branches.map (ballot lib))
  rw [List.length_map] at hsum
  rw [abstentions, length_candidates]
  omega

lemma mem_buckets_iff : key ∈ buckets (candidates lib branches) ↔
    0 < tally (branches.map (ballot lib)) key := by
  rw [mem_buckets, tally, List.count_pos_iff, List.mem_map]
  constructor
  · rintro ⟨c, hc, rfl⟩
    have hmem : c.normalised ∈ branches.filterMap (ballot lib) := by
      rw [← candidates_normalised]
      exact List.mem_map_of_mem hc
    obtain ⟨branch, hbranch, hballot⟩ := List.mem_filterMap.mp hmem
    exact ⟨branch, hbranch, hballot⟩
  · rintro ⟨branch, hbranch, hballot⟩
    have hmem : key ∈ branches.filterMap (ballot lib) := List.mem_filterMap.mpr ⟨branch, hbranch, hballot⟩
    rw [← candidates_normalised] at hmem
    obtain ⟨c, hc, hkey⟩ := List.mem_map.mp hmem
    exact ⟨c, hc, hkey⟩

/-- The branches' ballots in their order. -/
def ballotsOf (lib : Library) (branches : List BranchOutcome) : List (Option String) :=
  branches.map (ballot lib)

end Ballots

section Winners

variable {lib : Library} {config : VoteConfig} {branches : List BranchOutcome} {key : String}

lemma le_maxVotes (cs : List VoteCandidate) (key : String) : votes cs key ≤ maxVotes cs := by
  rcases Nat.eq_zero_or_pos (votes cs key) with hzero | hpos
  · omega
  · obtain ⟨c, hc⟩ := List.exists_mem_of_length_pos hpos
    obtain ⟨hmem, hkey⟩ := List.mem_filter.mp hc
    have hbucket : key ∈ buckets cs := mem_buckets.mpr ⟨c, hmem, of_decide_eq_true hkey⟩
    exact le_foldl_max 0 (Or.inl (List.mem_map_of_mem hbucket))

/-- The winners are the keys that lead and have a ballot. -/
lemma mem_winners_iff : key ∈ winners (candidates lib branches) ↔
    0 < tally (ballotsOf lib branches) key ∧ Leads (ballotsOf lib branches) key := by
  rw [winners, List.mem_filter, mem_buckets_iff, decide_eq_true_eq]
  refine and_congr_right fun hpos => ?_
  constructor
  · intro hmax key'
    rw [ballotsOf, ← votes_eq_tally, ← votes_eq_tally, hmax]
    exact le_maxVotes _ key'
  · intro hleads
    refine le_antisymm (le_maxVotes _ key) ?_
    rcases foldl_max_mem ((buckets (candidates lib branches)).map (votes (candidates lib branches))) 0 with
      hzero | hmem
    · rw [maxVotes, hzero]
      exact Nat.zero_le _
    · obtain ⟨key', _, hmax⟩ := List.mem_map.mp hmem
      have hle := hleads key'
      rw [ballotsOf, ← votes_eq_tally, ← votes_eq_tally, hmax] at hle
      exact hle

lemma resolveTie_mem (hchoose : ∀ seed n, 0 < n → lib.choose seed n < n) {tied : List String}
    {cs : List VoteCandidate} (h : tied ≠ []) (tieBreak : TieBreak) :
    resolveTie lib tied cs tieBreak ∈ tied := by
  cases tieBreak with
  | firstResponder => exact firstResponder_mem h
  | random seed =>
      have hlt := hchoose seed tied.length (List.length_pos_iff.mpr h)
      rw [resolveTie, List.getD_eq_getElem?_getD, List.getElem?_eq_getElem hlt, Option.getD_some]
      exact List.getElem_mem hlt
  | closestToFamily target =>
      simp only [resolveTie]
      split
      · exact firstResponder_mem h
      · next hmatching =>
        have hsub : ∀ k ∈ tied.filter (fun key => (bucket cs key).any fun c => familyOf c.backendId = target),
            k ∈ tied := fun k hk => List.mem_of_mem_filter hk
        split
        · obtain ⟨k, rest, hk⟩ := List.exists_cons_of_ne_nil hmatching
          rw [hk, List.headD_cons]
          exact hsub k (hk ▸ List.mem_cons_self)
        · exact hsub _ (firstResponder_mem hmatching)

lemma elect_mem_winners (hchoose : ∀ seed n, 0 < n → lib.choose seed n < n)
    {cs : List VoteCandidate} (h : cs ≠ []) : (elect lib config cs).1 ∈ winners cs := by
  have hne := winners_ne_nil h
  unfold elect
  split
  · obtain ⟨key, rest, hwinners⟩ := List.exists_cons_of_ne_nil hne
    rw [hwinners]
    exact List.mem_cons_self
  · exact resolveTie_mem hchoose hne config.tieBreak

lemma candidateOf_some {branch : BranchOutcome} {i : ℕ} {c : VoteCandidate}
    (h : candidateOf lib (branch, i) = some c) :
    c.arrivalOrder = i ∧ ballot lib branch = some c.normalised := by
  refine ⟨?_, by rw [← candidateOf_normalised branch i, h, Option.map_some]⟩
  cases branch with
  | failure backendId index reason => cases h
  | success backendId index output =>
      simp only [candidateOf] at h
      split at h
      · cases h
      · obtain rfl := Option.some.inj h
        rfl

lemma arrivals_ge {branches : List BranchOutcome} {k : ℕ} {c : VoteCandidate}
    (h : c ∈ (branches.zipIdx k).filterMap (candidateOf lib)) : k ≤ c.arrivalOrder := by
  obtain ⟨⟨branch, i⟩, hmem, hc⟩ := List.mem_filterMap.mp h
  rw [(candidateOf_some hc).1]
  exact (List.mem_zipIdx hmem).1

/-- A bucket's first ballot is where its key is first among the ballots. -/
lemma firstArrival_eq (hpos : 0 < tally (ballotsOf lib branches) key) :
    firstArrival (candidates lib branches) key = (ballotsOf lib branches).idxOf (some key) := by
  have hfrom : ∀ k, firstArrival ((branches.zipIdx k).filterMap (candidateOf lib)) key =
      k + (ballotsOf lib branches).idxOf (some key) := by
    induction branches with
    | nil => cases hpos
    | cons branch branches ih =>
        intro k
        rw [ballotsOf, List.map_cons, List.zipIdx_cons, List.filterMap_cons]
        rw [ballotsOf, List.map_cons] at hpos
        cases hc : candidateOf lib (branch, k) with
        | none =>
            have hnone : ballot lib branch = none := by
              rw [← candidateOf_normalised branch k, hc, Option.map_none]
            rw [hnone] at hpos ⊢
            rw [tally_cons_of_ne (by simp)] at hpos
            rw [List.idxOf_cons_ne _ (by simp)]
            have hrest := ih hpos (k + 1)
            rw [hrest, ballotsOf]
            omega
        | some c =>
            obtain ⟨harrival, hballot⟩ := candidateOf_some hc
            rw [hballot] at hpos ⊢
            by_cases hkey : c.normalised = key
            · rw [hkey, List.idxOf_cons_self]
              have hbucket : bucket (c :: (branches.zipIdx (k + 1)).filterMap (candidateOf lib)) key =
                  c :: bucket ((branches.zipIdx (k + 1)).filterMap (candidateOf lib)) key :=
                List.filter_cons_of_pos (by simpa using hkey)
              have hmin : ((bucket (c :: (branches.zipIdx (k + 1)).filterMap (candidateOf lib)) key).map
                  VoteCandidate.arrivalOrder).min? = some k := by
                rw [hbucket, List.map_cons, harrival, List.min?_eq_some_iff]
                refine ⟨List.mem_cons_self, fun i hi => ?_⟩
                rcases List.mem_cons.mp hi with rfl | hi
                · exact le_refl _
                · obtain ⟨c', hc', rfl⟩ := List.mem_map.mp hi
                  have hlater := arrivals_ge (List.mem_of_mem_filter hc')
                  omega
              simp only [firstArrival, hmin, Option.getD_some, Nat.add_zero]
            · have hne : some c.normalised ≠ some key := by simpa using hkey
              rw [tally_cons_of_ne hne] at hpos
              rw [List.idxOf_cons_ne _ hne]
              have hbucket : bucket (c :: (branches.zipIdx (k + 1)).filterMap (candidateOf lib)) key =
                  bucket ((branches.zipIdx (k + 1)).filterMap (candidateOf lib)) key :=
                List.filter_cons_of_neg (by simpa using hkey)
              have hrest := ih hpos (k + 1)
              rw [firstArrival, hbucket, ← firstArrival, hrest, ballotsOf]
              omega
  rw [candidates, hfrom 0, Nat.zero_add]

lemma firstResponder_le {tied : List String} {cs : List VoteCandidate} (h : key ∈ tied) :
    firstArrival cs (firstResponder tied cs) ≤ firstArrival cs key := by
  unfold firstResponder
  cases hmin : tied.argmin (firstArrival cs) with
  | none =>
      rw [List.argmin_eq_none.mp hmin] at h
      cases h
  | some first => exact List.le_of_mem_argmin h hmin

end Winners

section Outcome

variable {lib : Library} {config : VoteConfig} {branches branches' : List BranchOutcome}
  {artefact : AggregatedArtifact} {result : VoteResult}

/-- Some ballot for the key is from a backend of the family. -/
def FromFamily (lib : Library) (branches : List BranchOutcome) (family : Family) (key : String) : Prop :=
  ∃ backendId index output, .success backendId index output ∈ branches ∧
    ballot lib (.success backendId index output) = some key ∧ familyOf backendId = family

/-- What a vote that returns a winner has counted. -/
structure Elected (lib : Library) (config : VoteConfig) (branches : List BranchOutcome)
    (artefact : AggregatedArtifact) (result : VoteResult) : Prop where
  voted : 0 < tally (ballotsOf lib branches) result.winner
  leads : Leads (ballotsOf lib branches) result.winner
  keys : (result.voteCounts.map Prod.fst).Nodup
  counts : ∀ key n, (key, n) ∈ result.voteCounts ↔ 0 < n ∧ tally (ballotsOf lib branches) key = n
  sum : (result.voteCounts.map Prod.snd).sum = artefact.successful
  successful : artefact.successful = cast (ballotsOf lib branches)
  all : artefact.successful + artefact.failed = branches.length
  earliest : config.tieBreak = .firstResponder → ∀ key, Leads (ballotsOf lib branches) key →
    (ballotsOf lib branches).idxOf (some result.winner) ≤ (ballotsOf lib branches).idxOf (some key)
  closest : ∀ family, config.tieBreak = .closestToFamily family →
    (∃ key, Leads (ballotsOf lib branches) key ∧ FromFamily lib branches family key) →
    FromFamily lib branches family result.winner

lemma mem_voteCounts {cs : List VoteCandidate} {key : String} {n : ℕ} :
    (key, n) ∈ voteCounts cs ↔ key ∈ buckets cs ∧ votes cs key = n := by
  rw [voteCounts, List.mem_insertionSort, List.mem_map]
  constructor
  · rintro ⟨k, hk, heq⟩
    obtain ⟨rfl, rfl⟩ := Prod.mk.inj heq
    exact ⟨hk, rfl⟩
  · rintro ⟨hk, rfl⟩
    exact ⟨key, hk, rfl⟩

lemma voteCounts_perm (cs : List VoteCandidate) :
    (voteCounts cs).Perm (((cs.map VoteCandidate.normalised).dedup).map fun key => (key, votes cs key)) :=
  (List.perm_insertionSort _ _).trans ((List.perm_insertionSort _ _).map _)

lemma voteCounts_keys (cs : List VoteCandidate) : ((voteCounts cs).map Prod.fst).Nodup := by
  rw [((voteCounts_perm cs).map Prod.fst).nodup_iff, List.map_map]
  have hid : (Prod.fst ∘ fun key => (key, votes cs key)) = id := rfl
  rw [hid, List.map_id]
  exact List.nodup_dedup _

lemma voteCounts_sum (cs : List VoteCandidate) : ((voteCounts cs).map Prod.snd).sum = cs.length := by
  have hvotes : (Prod.snd ∘ fun key => (key, votes cs key)) =
      fun key => (cs.map VoteCandidate.normalised).count key := by
    funext key
    rw [Function.comp_apply, votes, bucket, ← List.countP_eq_length_filter, List.count, List.countP_map]
    rfl
  rw [((voteCounts_perm cs).map Prod.snd).sum_eq, List.map_map, hvotes,
    List.sum_map_count_dedup_eq_length, List.length_map]

lemma candidateOf_success {backendId output : String} {index : ℕ} {key : String}
    (h : ballot lib (.success backendId index output) = some key) (i : ℕ) :
    ∃ c, candidateOf lib (.success backendId index output, i) = some c ∧ c.backendId = backendId ∧
      c.normalised = key := by
  simp only [ballot] at h
  split at h
  · cases h
  · next hne => exact ⟨_, if_neg hne, rfl, Option.some.inj h⟩

/-- The buckets that the family's tie-break looks for. -/
lemma matching_iff {family : Family} {key : String} :
    ((bucket (candidates lib branches) key).any fun c => familyOf c.backendId = family) = true ↔
      FromFamily lib branches family key := by
  rw [List.any_eq_true]
  constructor
  · rintro ⟨c, hc, hfamily⟩
    obtain ⟨hmem, hkey⟩ := List.mem_filter.mp hc
    obtain ⟨⟨branch, i⟩, hbranch, hcandidate⟩ := List.mem_filterMap.mp hmem
    obtain ⟨_, hballot⟩ := candidateOf_some hcandidate
    have hlisted : branch ∈ branches := List.fst_mem_of_mem_zipIdx hbranch
    cases branch with
    | failure backendId index reason => cases hcandidate
    | success backendId index output =>
        obtain ⟨c', hc', hbackend, _⟩ := candidateOf_success hballot i
        obtain rfl : c = c' := Option.some.inj (hcandidate.symm.trans hc')
        refine ⟨backendId, index, output, hlisted, ?_, ?_⟩
        · rw [hballot, of_decide_eq_true hkey]
        · rw [← hbackend]
          exact of_decide_eq_true hfamily
  · rintro ⟨backendId, index, output, hbranch, hballot, hfamily⟩
    obtain ⟨i, hi⟩ := List.mem_iff_getElem?.mp hbranch
    obtain ⟨c, hc, hbackend, hkey⟩ := candidateOf_success hballot i
    have hmem : c ∈ candidates lib branches :=
      List.mem_filterMap.mpr ⟨_, List.mem_zipIdx_iff_getElem?.mpr hi, hc⟩
    refine ⟨c, List.mem_filter.mpr ⟨hmem, decide_eq_true hkey⟩, decide_eq_true ?_⟩
    rw [hbackend, hfamily]

lemma aggregateVote_ok (h : aggregateVote lib config branches = .ok (artefact, result)) :
    (ballotsOf lib branches).count none ≤ config.abstainThreshold ∧
      candidates lib branches ≠ [] ∧ result = voteResult lib config branches ∧
      artefact.successful = (candidates lib branches).length ∧
      artefact.failed = (ballotsOf lib branches).count none := by
  simp only [aggregateVote] at h
  split at h
  · cases h
  next habstain =>
  split at h
  · cases h
  next hne =>
  obtain ⟨rfl, rfl⟩ := Prod.mk.inj (Except.ok.inj h)
  rw [abstentions_eq] at habstain
  exact ⟨not_lt.mp habstain, hne, rfl, rfl, abstentions_eq branches⟩

lemma quorumLost_iff :
    (∃ abstains threshold, aggregateVote lib config branches = .error (.quorumLost abstains threshold)) ↔
      config.abstainThreshold < (ballotsOf lib branches).count none := by
  rw [ballotsOf, ← abstentions_eq]
  simp only [aggregateVote]
  constructor
  · rintro ⟨abstains, threshold, h⟩
    split at h
    · assumption
    split at h
    · cases h
    · cases h
  · intro h
    exact ⟨_, _, if_pos h⟩

lemma votes_of_winner {cs : List VoteCandidate} {key : String} (h : key ∈ winners cs) :
    votes cs key = maxVotes cs :=
  of_decide_eq_true (List.mem_filter.mp h).2

/-- With a strict majority there is one winner. -/
lemma winner_unique {key key' : String}
    (hmajority : maxVotes (candidates lib branches) * 2 > (candidates lib branches).length)
    (h : key ∈ winners (candidates lib branches)) (h' : key' ∈ winners (candidates lib branches)) :
    key' = key := by
  have hkey : HasMajority (ballotsOf lib branches) key := by
    rw [HasMajority, ballotsOf, ← length_candidates, ← votes_eq_tally, votes_of_winner h]
    omega
  exact hkey.eq_of_leads (mem_winners_iff.mp h').2

/-- Which of the winners is elected: a sole one, or the one that the tie-break takes. -/
lemma elect_cases (lib : Library) (config : VoteConfig) {branches : List BranchOutcome}
    (hne : candidates lib branches ≠ []) :
    (∀ key ∈ winners (candidates lib branches),
      key = (elect lib config (candidates lib branches)).1) ∨
    (elect lib config (candidates lib branches)).1 =
      resolveTie lib (winners (candidates lib branches)) (candidates lib branches) config.tieBreak := by
  unfold elect
  split
  · next hmajority =>
    left
    obtain ⟨first, rest, hwinners⟩ := List.exists_cons_of_ne_nil (winners_ne_nil hne)
    have hfirst : first ∈ winners (candidates lib branches) := by
      rw [hwinners]
      exact List.mem_cons_self
    intro key hkey
    rw [hwinners, List.headD_cons]
    exact winner_unique hmajority hfirst hkey
  · exact Or.inr rfl

lemma elect_earliest (hne : candidates lib branches ≠ []) {key : String}
    (hkey : key ∈ winners (candidates lib branches)) (hrule : config.tieBreak = .firstResponder) :
    firstArrival (candidates lib branches) (elect lib config (candidates lib branches)).1 ≤
      firstArrival (candidates lib branches) key := by
  rcases elect_cases lib config hne with hsole | htie
  · rw [← hsole key hkey]
  · rw [htie, hrule]
    exact firstResponder_le hkey

lemma elect_closest (hne : candidates lib branches ≠ []) {family : Family} {key : String}
    (hkey : key ∈ winners (candidates lib branches)) (hfrom : FromFamily lib branches family key)
    (hrule : config.tieBreak = .closestToFamily family) :
    FromFamily lib branches family (elect lib config (candidates lib branches)).1 := by
  rcases elect_cases lib config hne with hsole | htie
  · rwa [← hsole key hkey]
  · rw [htie, hrule]
    simp only [resolveTie]
    have hmatching : key ∈ (winners (candidates lib branches)).filter fun key =>
        (bucket (candidates lib branches) key).any fun c => familyOf c.backendId = family :=
      List.mem_filter.mpr ⟨hkey, matching_iff.mpr hfrom⟩
    have hall : ∀ k ∈ (winners (candidates lib branches)).filter (fun key =>
        (bucket (candidates lib branches) key).any fun c => familyOf c.backendId = family),
        FromFamily lib branches family k := fun k hk => matching_iff.mp (List.mem_filter.mp hk).2
    rw [if_neg (List.ne_nil_of_mem hmatching)]
    split
    · obtain ⟨first, rest, hfirst⟩ := List.exists_cons_of_ne_nil (List.ne_nil_of_mem hmatching)
      rw [hfirst, List.headD_cons]
      exact hall first (hfirst ▸ List.mem_cons_self)
    · exact hall _ (firstResponder_mem (List.ne_nil_of_mem hmatching))

lemma aggregateVote_elected (hchoose : ∀ seed n, 0 < n → lib.choose seed n < n)
    (h : aggregateVote lib config branches = .ok (artefact, result)) :
    Elected lib config branches artefact result := by
  obtain ⟨_, hne, rfl, hsuccessful, hfailed⟩ := aggregateVote_ok h
  have hwinner : (elect lib config (candidates lib branches)).1 ∈ winners (candidates lib branches) :=
    elect_mem_winners hchoose hne
  obtain ⟨hvoted, hleads⟩ := mem_winners_iff.mp hwinner
  have htally : ∀ key, Leads (ballotsOf lib branches) key → key ∈ winners (candidates lib branches) := by
    intro key hkey
    have hle := hkey (elect lib config (candidates lib branches)).1
    exact mem_winners_iff.mpr ⟨by omega, hkey⟩
  have hpos : ∀ key, Leads (ballotsOf lib branches) key → 0 < tally (ballotsOf lib branches) key :=
    fun key hkey => (mem_winners_iff.mp (htally key hkey)).1
  constructor
  · exact hvoted
  · exact hleads
  · exact voteCounts_keys _
  · intro key n
    rw [voteResult, mem_voteCounts, mem_buckets_iff, votes_eq_tally]
    constructor
    · rintro ⟨hkey, rfl⟩
      exact ⟨hkey, rfl⟩
    · rintro ⟨hn, rfl⟩
      exact ⟨hn, rfl⟩
  · rw [voteResult, voteCounts_sum, hsuccessful]
  · rw [hsuccessful, length_candidates, ballotsOf]
  · have hsum := cast_add_abstain (ballotsOf lib branches)
    rw [hsuccessful, hfailed, length_candidates, ← ballotsOf, hsum, ballotsOf, List.length_map]
  · intro hrule key hkey
    have hle := elect_earliest hne (htally key hkey) hrule
    rwa [firstArrival_eq hvoted, firstArrival_eq (hpos key hkey)] at hle
  · rintro family hrule ⟨key, hkey, hfrom⟩
    exact elect_closest hne (htally key hkey) hfrom hrule

/-- A vote that returns a winner has counted every ballot once and elected a key that no other
exceeds, the earliest or one from the family where the tie-break asks for it; it loses its quorum
exactly when more abstain than the threshold allows; and a strict majority wins in every order of
the ballots. -/
theorem aggregateVote_correct (hchoose : ∀ seed n, 0 < n → lib.choose seed n < n)
    (config : VoteConfig) (branches : List BranchOutcome) :
    (∀ artefact result, aggregateVote lib config branches = .ok (artefact, result) →
      Elected lib config branches artefact result) ∧
    ((∃ abstains threshold,
        aggregateVote lib config branches = .error (.quorumLost abstains threshold)) ↔
      config.abstainThreshold < (ballotsOf lib branches).count none) ∧
    ∀ artefact result branches', aggregateVote lib config branches = .ok (artefact, result) →
      branches.Perm branches' → (∃ key, HasMajority (ballotsOf lib branches) key) →
      ∃ artefact' result', aggregateVote lib config branches' = .ok (artefact', result') ∧
        result'.winner = result.winner := by
  refine ⟨fun _ _ h => aggregateVote_elected hchoose h, quorumLost_iff, ?_⟩
  rintro artefact result branches' h hperm ⟨key, hmajority⟩
  have hballots : (ballotsOf lib branches).Perm (ballotsOf lib branches') := hperm.map _
  obtain ⟨habstain, hne, _⟩ := aggregateVote_ok h
  have habstain' : ¬ abstentions lib branches' > config.abstainThreshold := by
    rw [abstentions_eq, ← ballotsOf, ← hballots.count_eq none]
    omega
  have hne' : candidates lib branches' ≠ [] := by
    rw [← List.length_pos_iff, length_candidates, ← ballotsOf, cast, ← hballots.countP_eq]
    rwa [← cast, ballotsOf, ← length_candidates, List.length_pos_iff]
  obtain ⟨artefact', h'⟩ : ∃ artefact', aggregateVote lib config branches' =
      .ok (artefact', voteResult lib config branches') := by
    simp only [aggregateVote]
    exact ⟨_, (if_neg habstain').trans (if_neg hne')⟩
  refine ⟨_, _, h', ?_⟩
  have hleads := (aggregateVote_elected hchoose h).leads
  have hleads' := (aggregateVote_elected hchoose h').leads
  rw [hmajority.eq_of_leads hleads]
  refine hmajority.eq_of_leads fun k => ?_
  have hle := hleads' k
  unfold tally at hle ⊢
  rwa [hballots.count_eq, hballots.count_eq]

/-- Two ballots for one key in different spellings, one against them and a failure. -/
def twoAgainstOne : List BranchOutcome :=
  [.success "codex" 1 "No", .success "claude" 2 " Yes", .failure "gemini" 3 "timeout",
    .success "ollama" 4 "yes"]

def asciiLibrary : Library := ⟨toAsciiLowercase, fun seed n => seed % n⟩

theorem aggregateVote_correct_twoAgainstOne :
    ∃ artefact result,
      aggregateVote asciiLibrary ⟨.firstResponder, 1⟩ twoAgainstOne = .ok (artefact, result) ∧
      result.winner = "yes" ∧
      Elected asciiLibrary ⟨.firstResponder, 1⟩ twoAgainstOne artefact result := by
  have hchoose : ∀ seed n, 0 < n → asciiLibrary.choose seed n < n := fun seed n hn => Nat.mod_lt seed hn
  exact ⟨_, _, rfl, by decide, (aggregateVote_correct hchoose _ _).1 _ _ rfl⟩

end Outcome

end Loker.VoteOutcome
