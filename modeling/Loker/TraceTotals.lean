import Loker.TextLines
import Loker.Grouping

/-! The token usage of a run, as it is collected from the lines of its trace. -/

namespace Loker.TraceTotals

open TextOps Grouping

section Model

/-- Integers without a sign have 64 bits. -/
inductive Number where
  | posInt (n : UInt64)
  | negInt (i : ℤ)
  | float

inductive Value where
  | null
  | bool (b : Bool)
  | number (n : Number)
  | string (text : String)
  | array (items : List Value)
  | object (members : List (String × Value))

def Value.asStr : Value → Option String
  | .string text => some text
  | _ => none

def Value.asU64 : Value → Option ℕ
  | .number (.posInt n) => some n.toNat
  | _ => none

structure BackendUsage where
  name : String
  model : String
  inputTokens : ℕ
  outputTokens : ℕ
  deriving DecidableEq, Repr

inductive TraceReaderError where
  | io (detail : String)
  | parse (line : ℕ) (message : String)
  deriving DecidableEq, Repr

structure BackendCall where
  pair : String × String
  tokens : ℕ × ℕ
  deriving DecidableEq, Repr

/-- A span with a backend's name and both of its token counts; a missing model has a name of
its own. -/
def callOf : Value → Option BackendCall
  | .object members => do
      let system ← (members.lookup "gen_ai.system").bind Value.asStr
      if system = "" then none
      else
        let model := ((members.lookup "gen_ai.request.model").bind Value.asStr).getD "default"
        let inputTokens ← (members.lookup "gen_ai.usage.input_tokens").bind Value.asU64
        let outputTokens ← (members.lookup "gen_ai.usage.output_tokens").bind Value.asU64
        some ⟨(system, model), (inputTokens, outputTokens)⟩
  | _ => none

def u64Max : ℕ := 2 ^ 64 - 1

/-- Both counts are added without overflow. -/
def saturatingAdd (sums tokens : ℕ × ℕ) : ℕ × ℕ :=
  (capped u64Max sums.1 tokens.1, capped u64Max sums.2 tokens.2)

abbrev Usage := List ((String × String) × (ℕ × ℕ))

def addCall (groups : Usage) (call : BackendCall) : Usage :=
  insertGroup saturatingAdd (0, 0) groups (call.pair, call.tokens)

-- The JSON parser, with the text of its error.
variable (fromStr : String → Except String Value)

def scanLines : ℕ → List String → Usage → Except TraceReaderError Usage
  | _, [], groups => .ok groups
  | idx, line :: lines, groups =>
      if trim line = "" then scanLines (idx + 1) lines groups
      else
        match fromStr (trim line) with
        | .error e => .error (.parse (idx + 1) ("invalid JSON: " ++ e))
        | .ok value =>
            match callOf value with
            | none => scanLines (idx + 1) lines groups
            | some call => scanLines (idx + 1) lines (addCall groups call)

def usageOf (group : (String × String) × (ℕ × ℕ)) : BackendUsage :=
  ⟨group.1.1, group.1.2, group.2.1, group.2.2⟩

/-- By name and then by model. -/
def usageOrder (a b : BackendUsage) : Prop :=
  a.name < b.name ∨ (a.name = b.name ∧ a.model ≤ b.model)

instance : DecidableRel usageOrder := fun a b =>
  inferInstanceAs (Decidable (a.name < b.name ∨ (a.name = b.name ∧ a.model ≤ b.model)))

/-- `iteration` is the order in which the map of the groups is iterated. -/
def aggregate (iteration : Usage → Usage) (content : String) :
    Except TraceReaderError (List BackendUsage) :=
  if trim content = "" then .ok []
  else
    (scanLines fromStr 0 (lines content) []).map fun groups =>
      ((iteration groups).map usageOf).insertionSort usageOrder

structure Totals where
  inputTokens : ℕ
  outputTokens : ℕ
  deriving DecidableEq, Repr

-- Tells whether the build checks its arithmetic; without checks it wraps.
variable (checks : Bool)

def addU64 (a b : ℕ) : Option ℕ :=
  if a + b < 2 ^ 64 then some (a + b) else if checks then none else some ((a + b) % 2 ^ 64)

def sumU64 (values : List ℕ) : Option ℕ := values.foldlM (addU64 checks) 0

def totals (backends : List BackendUsage) : Option Totals := do
  let inputTokens ← sumU64 checks (backends.map BackendUsage.inputTokens)
  let outputTokens ← sumU64 checks (backends.map BackendUsage.outputTokens)
  some ⟨inputTokens, outputTokens⟩

end Model

section Sums

variable {checks : Bool} {values : List ℕ} {a r : ℕ}

lemma addU64_lt {b : ℕ} (h : addU64 checks a b = some r) : r < 2 ^ 64 := by
  unfold addU64 at h
  split at h
  · next hlt =>
    cases h
    exact hlt
  · split at h
    · cases h
    · cases h
      exact Nat.mod_lt _ (Nat.two_pow_pos 64)

lemma foldlM_lt (ha : a < 2 ^ 64) (h : values.foldlM (addU64 checks) a = some r) :
    r < 2 ^ 64 := by
  induction values generalizing a with
  | nil =>
    cases h
    exact ha
  | cons x values ih =>
    rw [List.foldlM_cons] at h
    obtain ⟨b, hadd, hrest⟩ := Option.bind_eq_some_iff.mp h
    exact ih (addU64_lt hadd) hrest

lemma foldlM_fits (h : a + values.sum < 2 ^ 64) :
    values.foldlM (addU64 checks) a = some (a + values.sum) := by
  induction values generalizing a with
  | nil => rfl
  | cons x values ih =>
    rw [List.sum_cons] at h
    have hadd : addU64 checks a x = some (a + x) := if_pos (by omega)
    rw [List.foldlM_cons, hadd, Option.bind_eq_bind, Option.bind_some, ih (by omega),
      List.sum_cons, Nat.add_assoc]

/-- The sum is exact exactly if it fits. -/
lemma sumU64_eq_iff (checks : Bool) :
    sumU64 checks values = some values.sum ↔ values.sum < 2 ^ 64 := by
  unfold sumU64
  constructor
  · exact foldlM_lt (Nat.two_pow_pos 64)
  · intro h
    have hfits : values.foldlM (addU64 checks) 0 = some (0 + values.sum) := foldlM_fits (by omega)
    rwa [Nat.zero_add] at hfits

lemma totals_eq_iff {backends : List BackendUsage} :
    totals checks backends = some ⟨(backends.map BackendUsage.inputTokens).sum,
      (backends.map BackendUsage.outputTokens).sum⟩ ↔
    (backends.map BackendUsage.inputTokens).sum < 2 ^ 64 ∧
      (backends.map BackendUsage.outputTokens).sum < 2 ^ 64 := by
  rw [← sumU64_eq_iff checks, ← sumU64_eq_iff checks]
  unfold totals
  constructor
  · intro h
    obtain ⟨inputTokens, hinput, hrest⟩ := Option.bind_eq_some_iff.mp h
    obtain ⟨outputTokens, houtput, htotals⟩ := Option.bind_eq_some_iff.mp hrest
    cases htotals
    exact ⟨hinput, houtput⟩
  · rintro ⟨hinput, houtput⟩
    rw [hinput, houtput]
    rfl

end Sums

section Spec

variable (fromStr : String → Except String Value)

/-- The backend call of a line, if it is a complete one. -/
def lineCall (line : String) : Option BackendCall :=
  if trim line = "" then none
  else
    match fromStr (trim line) with
    | .error _ => none
    | .ok value => callOf value

def callsOf (content : String) : List BackendCall := (lines content).filterMap (lineCall fromStr)

/-- Every line is blank or holds some JSON value. -/
def WellFormed (content : String) : Prop :=
  ∀ line ∈ lines content, trim line = "" ∨ ∃ value, fromStr (trim line) = .ok value

/-- What a pair's calls add up to, in one of the two counts, up to the highest value. -/
def cappedSum (part : ℕ × ℕ → ℕ) (calls : List BackendCall) (pair : String × String) : ℕ :=
  min ((calls.filter (·.pair = pair)).map fun call => part call.tokens).sum u64Max

def BackendUsage.pair (b : BackendUsage) : String × String := (b.name, b.model)

/-- Every pair of a call is listed once, with its capped sums. -/
structure Lists (calls : List BackendCall) (backends : List BackendUsage) : Prop where
  unique : (backends.map BackendUsage.pair).Nodup
  complete : ∀ pair, pair ∈ backends.map BackendUsage.pair ↔ ∃ call ∈ calls, call.pair = pair
  sums : ∀ b ∈ backends, b.inputTokens = cappedSum Prod.fst calls b.pair ∧
    b.outputTokens = cappedSum Prod.snd calls b.pair

/-- The listing and its totals are right, and depend neither on the order of the lines nor on
that of the map. -/
structure Aggregated (checks : Bool) (content : String) : Prop where
  listed : ∀ iteration : Usage → Usage, (∀ groups, (iteration groups).Perm groups) →
    ∃ backends, aggregate fromStr iteration content = .ok backends ∧
      Lists (callsOf fromStr content) backends ∧
      totals checks backends = some ⟨(backends.map BackendUsage.inputTokens).sum,
        (backends.map BackendUsage.outputTokens).sum⟩
  invariant : ∀ (content' : String) (iteration iteration' : Usage → Usage),
    (∀ groups, (iteration groups).Perm groups) → (∀ groups, (iteration' groups).Perm groups) →
    (lines content').Perm (lines content) →
    aggregate fromStr iteration' content' = aggregate fromStr iteration content

/-- The capped sums of all pairs add up to no more than the highest value. -/
def Fits (part : ℕ × ℕ → ℕ) (calls : List BackendCall) : Prop :=
  ((calls.map BackendCall.pair).dedup.map (cappedSum part calls)).sum < 2 ^ 64

instance (part : ℕ × ℕ → ℕ) (calls : List BackendCall) : Decidable (Fits part calls) :=
  inferInstanceAs (Decidable (_ < _))

end Spec

section Lines

variable {pat new cs : List Char} {c : Char}

lemma mem_replaceAllFrom {skip : ℕ} (h : c ∈ replaceAllFrom pat new skip cs) :
    c ∈ new ∨ c ∈ cs := by
  induction cs generalizing skip with
  | nil => cases skip <;> cases h
  | cons d cs ih =>
    cases skip with
    | succ skip => exact (ih h).imp_right (List.mem_cons_of_mem _)
    | zero =>
      rw [replaceAllFrom] at h
      split at h
      · rcases List.mem_append.mp h with hnew | hrest
        · exact Or.inl hnew
        · exact (ih hrest).imp_right (List.mem_cons_of_mem _)
      · rcases List.mem_cons.mp h with rfl | hrest
        · exact Or.inr List.mem_cons_self
        · exact (ih hrest).imp_right (List.mem_cons_of_mem _)

lemma mem_splitLines {line : List Char} (hline : line ∈ splitLines cs) (hc : c ∈ line) :
    c ∈ cs := by
  induction cs generalizing line with
  | nil => cases hline
  | cons d cs ih =>
    rw [splitLines] at hline
    split at hline
    · rcases List.mem_cons.mp hline with rfl | hrest
      · cases hc
      · exact List.mem_cons_of_mem _ (ih hrest hc)
    · cases hsplit : splitLines cs with
      | nil =>
        rw [hsplit] at hline
        rw [List.mem_singleton.mp hline] at hc
        rw [List.mem_singleton.mp hc]
        exact List.mem_cons_self
      | cons first rest =>
        rw [hsplit] at hline ih
        rcases List.mem_cons.mp hline with rfl | hrest
        · rcases List.mem_cons.mp hc with rfl | hfirst
          · exact List.mem_cons_self
          · exact List.mem_cons_of_mem _ (ih List.mem_cons_self hfirst)
        · exact List.mem_cons_of_mem _ (ih (List.mem_cons_of_mem _ hrest) hc)

lemma trim_eq_empty_iff {s : String} : trim s = "" ↔ ∀ c ∈ s.toList, isWhiteSpace c = true := by
  constructor
  · intro h c hc
    by_contra hdark
    exact trim_ne_empty hc (Bool.eq_false_of_not_eq_true hdark) h
  · intro h
    have hdropped : s.toList.dropWhile isWhiteSpace = [] := List.dropWhile_eq_nil_iff.mpr h
    rw [trim, hdropped]
    rfl

/-- A blank text has only blank lines. -/
lemma blank_lines {content line : String} (h : trim content = "") (hline : line ∈ lines content) :
    trim line = "" := by
  rw [trim_eq_empty_iff] at h ⊢
  obtain ⟨chars, hchars, rfl⟩ := List.mem_map.mp hline
  intro c hc
  rw [String.toList_ofList] at hc
  have hmem := mem_splitLines hchars hc
  rw [replaceAll, String.toList_ofList] at hmem
  rcases mem_replaceAllFrom hmem with hnew | hold
  · have hnewline : c = '\n' := List.mem_singleton.mp hnew
    rw [hnewline]
    rfl
  · exact h c hold

end Lines

section Groups

variable {fromStr : String → Except String Value} {content : String} {calls : List BackendCall}

def entryOf (call : BackendCall) : (String × String) × (ℕ × ℕ) := (call.pair, call.tokens)

/-- The scan of well-formed lines collects their calls. -/
lemma scanLines_ok (idx : ℕ) {lines : List String} (groups : Usage)
    (hwell : ∀ line ∈ lines, trim line = "" ∨ ∃ value, fromStr (trim line) = .ok value) :
    scanLines fromStr idx lines groups =
      .ok ((lines.filterMap (lineCall fromStr)).foldl addCall groups) := by
  induction lines generalizing idx groups with
  | nil => rfl
  | cons line lines ih =>
    have hrest : ∀ line ∈ lines, trim line = "" ∨ ∃ value, fromStr (trim line) = .ok value :=
      fun line hline => hwell line (List.mem_cons_of_mem _ hline)
    rw [scanLines, List.filterMap_cons, lineCall]
    by_cases hblank : trim line = ""
    · rw [if_pos hblank, if_pos hblank, ih (idx + 1) groups hrest]
    · obtain ⟨value, hvalue⟩ := (hwell line List.mem_cons_self).resolve_left hblank
      rw [if_neg hblank, if_neg hblank, hvalue]
      cases hcall : callOf value with
      | none => simp only [hcall, ih (idx + 1) groups hrest]
      | some call => simp only [hcall, ih (idx + 1) (addCall groups call) hrest, List.foldl_cons]

lemma foldl_addCall (calls : List BackendCall) :
    calls.foldl addCall [] = groupsOf saturatingAdd (0, 0) (calls.map entryOf) := by
  rw [groupsOf, List.foldl_map]
  rfl

/-- The listing of the calls' groups. -/
def listing (iteration : Usage → Usage) (calls : List BackendCall) : List BackendUsage :=
  ((iteration (groupsOf saturatingAdd (0, 0) (calls.map entryOf))).map usageOf).insertionSort
    usageOrder

lemma aggregate_eq {iteration : Usage → Usage}
    (hiteration : ∀ groups, (iteration groups).Perm groups) (hwell : WellFormed fromStr content) :
    aggregate fromStr iteration content = .ok (listing iteration (callsOf fromStr content)) := by
  unfold aggregate
  by_cases hblank : trim content = ""
  · have hnone : callsOf fromStr content = [] := by
      rw [callsOf, List.filterMap_eq_nil_iff]
      intro line hline
      exact if_pos (blank_lines hblank hline)
    have hempty : iteration [] = [] := (hiteration []).eq_nil
    rw [if_pos hblank, hnone, listing, List.map_nil, groupsOf, List.foldl_nil, hempty]
    rfl
  · rw [if_neg hblank, scanLines_ok 0 [] hwell, foldl_addCall]
    rfl

/-- Both counts add up to their capped sums. -/
lemma foldl_saturatingAdd (values : List (ℕ × ℕ)) :
    values.foldl saturatingAdd (0, 0) =
      (min (values.map Prod.fst).sum u64Max, min (values.map Prod.snd).sum u64Max) := by
  have hparts : ∀ sums : ℕ × ℕ, values.foldl saturatingAdd sums =
      ((values.map Prod.fst).foldl (capped u64Max) sums.1,
        (values.map Prod.snd).foldl (capped u64Max) sums.2) := by
    induction values with
    | nil => exact fun _ => rfl
    | cons x values ih => exact fun sums => ih (saturatingAdd sums x)
  rw [hparts, foldl_capped u64Max _ 0 (Nat.zero_le _), foldl_capped u64Max _ 0 (Nat.zero_le _),
    Nat.zero_add, Nat.zero_add]

lemma valuesOf_calls (calls : List BackendCall) (pair : String × String) :
    valuesOf (calls.map entryOf) pair =
      (calls.filter (·.pair = pair)).map BackendCall.tokens := by
  rw [valuesOf, List.filter_map, List.map_map]
  rfl

lemma foldl_values (calls : List BackendCall) (pair : String × String) :
    (valuesOf (calls.map entryOf) pair).foldl saturatingAdd (0, 0) =
      (cappedSum Prod.fst calls pair, cappedSum Prod.snd calls pair) := by
  rw [valuesOf_calls, foldl_saturatingAdd, List.map_map, List.map_map]
  rfl

lemma groups_calls (calls : List BackendCall) : Groups saturatingAdd (0, 0) (calls.map entryOf)
    (groupsOf saturatingAdd (0, 0) (calls.map entryOf)) := groups_groupsOf _

lemma keys_calls (calls : List BackendCall) :
    (calls.map entryOf).map Prod.fst = calls.map BackendCall.pair := by
  rw [List.map_map]
  rfl

/-- The groups are the distinct pairs, each with its capped sums. -/
lemma groups_perm (calls : List BackendCall) :
    (groupsOf saturatingAdd (0, 0) (calls.map entryOf)).Perm
      ((calls.map BackendCall.pair).dedup.map fun pair =>
        (pair, (cappedSum Prod.fst calls pair, cappedSum Prod.snd calls pair))) := by
  have hgroups := groups_calls calls
  have hnodup : ((calls.map BackendCall.pair).dedup.map fun pair =>
      (pair, (cappedSum Prod.fst calls pair, cappedSum Prod.snd calls pair))).Nodup :=
    (List.nodup_dedup _).map fun _ _ h => congrArg Prod.fst h
  apply (List.perm_ext_iff_of_nodup (List.Nodup.of_map _ hgroups.unique) hnodup).mpr
  rintro ⟨pair, sums⟩
  rw [hgroups.mem_iff, keys_calls, foldl_values]
  constructor
  · rintro ⟨hmem, rfl⟩
    exact List.mem_map.mpr ⟨pair, List.mem_dedup.mpr hmem, rfl⟩
  · intro h
    obtain ⟨key, hmem, heq⟩ := List.mem_map.mp h
    obtain ⟨rfl, hsums⟩ := Prod.mk.inj heq
    exact ⟨List.mem_dedup.mp hmem, hsums.symm⟩

lemma listing_perm {iteration : Usage → Usage}
    (hiteration : ∀ groups, (iteration groups).Perm groups) (calls : List BackendCall) :
    (listing iteration calls).Perm ((calls.map BackendCall.pair).dedup.map fun pair =>
      ⟨pair.1, pair.2, cappedSum Prod.fst calls pair, cappedSum Prod.snd calls pair⟩) := by
  have hgroups := ((hiteration _).trans (groups_perm calls)).map usageOf
  rw [List.map_map] at hgroups
  exact (List.perm_insertionSort _ _).trans hgroups

end Groups

section Order

lemma usageOrder_total (a b : BackendUsage) : usageOrder a b ∨ usageOrder b a := by
  unfold usageOrder
  rcases lt_trichotomy a.name b.name with hlt | heq | hgt
  · exact Or.inl (Or.inl hlt)
  · rcases le_total a.model b.model with hle | hge
    · exact Or.inl (Or.inr ⟨heq, hle⟩)
    · exact Or.inr (Or.inr ⟨heq.symm, hge⟩)
  · exact Or.inr (Or.inl hgt)

lemma usageOrder_trans {a b c : BackendUsage} (hab : usageOrder a b) (hbc : usageOrder b c) :
    usageOrder a c := by
  unfold usageOrder at hab hbc ⊢
  rcases hab with hab | ⟨hab, hmodel⟩
  · rcases hbc with hbc | ⟨hbc, _⟩
    · exact Or.inl (hab.trans hbc)
    · exact Or.inl (hbc ▸ hab)
  · rcases hbc with hbc | ⟨hbc, hmodel'⟩
    · exact Or.inl (hab ▸ hbc)
    · exact Or.inr ⟨hab.trans hbc, hmodel.trans hmodel'⟩

lemma pair_eq_of_usageOrder {a b : BackendUsage} (hab : usageOrder a b) (hba : usageOrder b a) :
    a.pair = b.pair := by
  unfold usageOrder at hab hba
  rcases hab with hab | ⟨hname, hmodel⟩
  · rcases hba with hba | ⟨hba, _⟩
    · exact absurd hab hba.asymm
    · exact absurd hba hab.ne'
  · rcases hba with hba | ⟨_, hmodel'⟩
    · exact absurd hname hba.ne'
    · exact Prod.ext hname (le_antisymm hmodel hmodel')

instance : Std.Total usageOrder := ⟨usageOrder_total⟩

instance : IsTrans BackendUsage usageOrder := ⟨fun _ _ _ => usageOrder_trans⟩

end Order

section Aggregation

variable {fromStr : String → Except String Value} {content : String} {calls : List BackendCall}

lemma lists_listing {iteration : Usage → Usage}
    (hiteration : ∀ groups, (iteration groups).Perm groups) (calls : List BackendCall) :
    Lists calls (listing iteration calls) := by
  have hperm := listing_perm hiteration calls
  have hpairs : ((listing iteration calls).map BackendUsage.pair).Perm
      (calls.map BackendCall.pair).dedup := by
    have hmapped := hperm.map BackendUsage.pair
    rwa [List.map_map, show BackendUsage.pair ∘ (fun pair : String × String =>
      (⟨pair.1, pair.2, cappedSum Prod.fst calls pair, cappedSum Prod.snd calls pair⟩ :
        BackendUsage)) = id from rfl, List.map_id] at hmapped
  constructor
  · exact hpairs.nodup_iff.mpr (List.nodup_dedup _)
  · intro pair
    rw [hpairs.mem_iff, List.mem_dedup, List.mem_map]
  · intro b hb
    obtain ⟨pair, _, rfl⟩ := List.mem_map.mp (hperm.mem_iff.mp hb)
    exact ⟨rfl, rfl⟩

lemma sorted_listing (iteration : Usage → Usage) (calls : List BackendCall) :
    (listing iteration calls).Pairwise usageOrder := by
  unfold listing
  exact List.pairwise_insertionSort usageOrder _

lemma saturatingAdd_comm (sums x y : ℕ × ℕ) :
    saturatingAdd (saturatingAdd sums x) y = saturatingAdd (saturatingAdd sums y) x := by
  unfold saturatingAdd
  rw [capped_comm u64Max sums.1, capped_comm u64Max sums.2]

/-- Neither order changes the listing. -/
lemma listing_eq {calls' : List BackendCall} {iteration iteration' : Usage → Usage}
    (hiteration : ∀ groups, (iteration groups).Perm groups)
    (hiteration' : ∀ groups, (iteration' groups).Perm groups) (hcalls : calls'.Perm calls) :
    listing iteration' calls' = listing iteration calls := by
  have hgroups : (groupsOf saturatingAdd (0, 0) (calls'.map entryOf)).Perm
      (groupsOf saturatingAdd (0, 0) (calls.map entryOf)) :=
    Groups.perm saturatingAdd_comm (hcalls.map entryOf) (groups_calls calls') (groups_calls calls)
  have hlisted : (listing iteration' calls').Perm (listing iteration calls) := by
    apply (List.perm_insertionSort _ _).trans
    apply (((hiteration' _).trans hgroups).map usageOf).trans
    exact (((hiteration _).map usageOf).symm).trans (List.perm_insertionSort _ _).symm
  have hanti : ∀ a b, usageOrder a b → usageOrder b a → a.pair = b.pair :=
    fun a b => pair_eq_of_usageOrder
  exact eq_of_sorted hanti (lists_listing hiteration' calls').unique
    hlisted (sorted_listing iteration' calls') (sorted_listing iteration calls)

lemma sum_listing {iteration : Usage → Usage}
    (hiteration : ∀ groups, (iteration groups).Perm groups) (calls : List BackendCall) :
    ((listing iteration calls).map BackendUsage.inputTokens).sum =
        ((calls.map BackendCall.pair).dedup.map (cappedSum Prod.fst calls)).sum ∧
      ((listing iteration calls).map BackendUsage.outputTokens).sum =
        ((calls.map BackendCall.pair).dedup.map (cappedSum Prod.snd calls)).sum := by
  have hperm := listing_perm hiteration calls
  constructor
  · rw [(hperm.map BackendUsage.inputTokens).sum_eq, List.map_map]
    rfl
  · rw [(hperm.map BackendUsage.outputTokens).sum_eq, List.map_map]
    rfl

/-- The listing is always right; its totals are exactly as long as the sums of both counts over
all pairs fit. -/
theorem aggregated_iff_fits (fromStr : String → Except String Value) (checks : Bool)
    (content : String) (hwell : WellFormed fromStr content) :
    Aggregated fromStr checks content ↔
      Fits Prod.fst (callsOf fromStr content) ∧ Fits Prod.snd (callsOf fromStr content) := by
  constructor
  · intro h
    obtain ⟨backends, hok, _, htotals⟩ := h.listed id fun groups => List.Perm.refl groups
    have hid : ∀ groups : Usage, (id groups).Perm groups := fun groups => List.Perm.refl groups
    rw [aggregate_eq hid hwell] at hok
    obtain rfl := Except.ok.inj hok
    have hfits := totals_eq_iff.mp htotals
    obtain ⟨hinput, houtput⟩ := sum_listing hid (callsOf fromStr content)
    rw [hinput, houtput] at hfits
    exact hfits
  · intro hfits
    constructor
    · intro iteration hiteration
      refine ⟨_, aggregate_eq hiteration hwell, lists_listing hiteration _, ?_⟩
      apply totals_eq_iff.mpr
      obtain ⟨hinput, houtput⟩ := sum_listing hiteration (callsOf fromStr content)
      rw [hinput, houtput]
      exact hfits
    · intro content' iteration iteration' hiteration hiteration' hlines
      have hwell' : WellFormed fromStr content' :=
        fun line hline => hwell line (hlines.mem_iff.mp hline)
      rw [aggregate_eq hiteration' hwell', aggregate_eq hiteration hwell]
      exact congrArg Except.ok (listing_eq hiteration hiteration' (hlines.filterMap _))

/-- A call with the highest count, as a line of the trace and as a value. -/
def longLine : String :=
  "\x7b\"gen_ai.system\":\"claude\",\"gen_ai.usage.input_tokens\":18446744073709551615," ++
    "\"gen_ai.usage.output_tokens\":7\x7d"

def shortLine : String :=
  "\x7b\"gen_ai.system\":\"codex\",\"gen_ai.request.model\":\"mini\"," ++
    "\"gen_ai.usage.input_tokens\":1,\"gen_ai.usage.output_tokens\":2\x7d"

def readSample (text : String) : Except String Value :=
  if text = longLine then
    .ok (.object [("gen_ai.system", .string "claude"),
      ("gen_ai.usage.input_tokens", .number (.posInt 18446744073709551615)),
      ("gen_ai.usage.output_tokens", .number (.posInt 7))])
  else if text = shortLine then
    .ok (.object [("gen_ai.system", .string "codex"), ("gen_ai.request.model", .string "mini"),
      ("gen_ai.usage.input_tokens", .number (.posInt 1)),
      ("gen_ai.usage.output_tokens", .number (.posInt 2))])
  else .error "expected value at line 1 column 1"

def OneLine (line : String) : Prop := (line.toList.all fun c => c ≠ '\n' ∧ c ≠ '\r') = true

lemma OneLine.no_end {line : String} (h : OneLine line) : '\n' ∉ line.toList := by
  intro hmem
  have hchar := of_decide_eq_true (List.all_eq_true.mp h _ hmem)
  exact hchar.1 rfl

lemma OneLine.no_return {line : String} (h : OneLine line) : '\r' ∉ line.toList := by
  intro hmem
  have hchar := of_decide_eq_true (List.all_eq_true.mp h _ hmem)
  exact hchar.2 rfl

/-- A text without `\r` is cut at its line ends only. -/
lemma lines_of_no_return {content : String} (h : '\r' ∉ content.toList) :
    lines content = (splitLines content.toList).map String.ofList := by
  have hfree : ¬ "\r\n".toList <:+: content.toList :=
    fun hin => h (hin.subset (by decide))
  rw [lines, replaceAll, TextSearch.replaceAllFrom_free hfree, String.toList_ofList]

lemma lines_joined {first last : String} (hfirst : OneLine first) (hlast : OneLine last)
    (hne : last ≠ "") : lines (first ++ "\n" ++ last) = [first, last] := by
  have htext : (first ++ "\n" ++ last).toList = first.toList ++ '\n' :: last.toList := by
    rw [String.toList_append, String.toList_append, List.append_assoc]
    rfl
  have hnil : last.toList ≠ [] := fun h => hne (String.toList_eq_nil_iff.mp h)
  have hreturn : '\r' ∉ (first ++ "\n" ++ last).toList := by
    rw [htext, List.mem_append, List.mem_cons]
    rintro (h | h | h)
    · exact hfirst.no_return h
    · cases h
    · exact hlast.no_return h
  rw [lines_of_no_return hreturn, htext, TextLines.splitLines_line hfirst.no_end,
    TextLines.splitLines_last hlast.no_end hnil, List.map_cons, List.map_cons, List.map_nil,
    String.ofList_toList, String.ofList_toList]

lemma lines_apart {first last : String} (hfirst : OneLine first) (hlast : OneLine last)
    (hne : last ≠ "") : lines (first ++ "\n\n" ++ last) = [first, "", last] := by
  have htext : (first ++ "\n\n" ++ last).toList =
      first.toList ++ '\n' :: ([] ++ '\n' :: last.toList) := by
    rw [String.toList_append, String.toList_append, List.append_assoc]
    rfl
  have hnil : last.toList ≠ [] := fun h => hne (String.toList_eq_nil_iff.mp h)
  have hreturn : '\r' ∉ (first ++ "\n\n" ++ last).toList := by
    rw [htext, List.nil_append, List.mem_append, List.mem_cons, List.mem_cons]
    rintro (h | h | h | h)
    · exact hfirst.no_return h
    · cases h
    · cases h
    · exact hlast.no_return h
  rw [lines_of_no_return hreturn, htext, TextLines.splitLines_line hfirst.no_end,
    TextLines.splitLines_line List.not_mem_nil, TextLines.splitLines_last hlast.no_end hnil,
    List.map_cons, List.map_cons, List.map_cons, List.map_nil, String.ofList_toList,
    String.ofList_toList]

def longCall : BackendCall := ⟨("claude", "default"), (18446744073709551615, 7)⟩

def shortCall : BackendCall := ⟨("codex", "mini"), (1, 2)⟩

lemma OneLine.append {first last : String} (hfirst : OneLine first) (hlast : OneLine last) :
    OneLine (first ++ last) := by
  rw [OneLine, String.toList_append, List.all_append, hfirst, hlast]
  rfl

lemma longLine_oneLine : OneLine longLine := by
  refine OneLine.append ?_ ?_
  · rw [OneLine, String.toList_ofList]
    decide
  · rw [OneLine, String.toList_ofList]
    decide

lemma shortLine_oneLine : OneLine shortLine := by
  refine OneLine.append ?_ ?_
  · rw [OneLine, String.toList_ofList]
    decide
  · rw [OneLine, String.toList_ofList]
    decide

/-- Braces are no blanks. -/
lemma trim_braces {s : String} (hfirst : s.toList.head? = some '\x7b')
    (hlast : s.toList.getLast? = some '\x7d') : trim s = s := by
  obtain ⟨rest, hrest⟩ := List.head?_eq_some_iff.mp hfirst
  obtain ⟨begun, hbegun⟩ := List.getLast?_eq_some_iff.mp hlast
  have hreverse : s.toList.reverse = '\x7d' :: begun.reverse := by simp [hbegun]
  rw [trim, hrest, List.dropWhile_cons_of_neg (by decide), ← hrest, hreverse,
    List.dropWhile_cons_of_neg (by decide), ← hreverse, List.reverse_reverse, String.ofList_toList]

lemma trim_longLine : trim longLine = longLine := by
  unfold longLine
  refine trim_braces ?_ ?_
  · rw [String.toList_append, String.toList_ofList, String.toList_ofList]
    rfl
  · rw [String.toList_append, String.toList_ofList, String.toList_ofList]
    rfl

lemma trim_shortLine : trim shortLine = shortLine := by
  unfold shortLine
  refine trim_braces ?_ ?_
  · rw [String.toList_append, String.toList_ofList, String.toList_ofList]
    rfl
  · rw [String.toList_append, String.toList_ofList, String.toList_ofList]
    rfl

lemma shortLine_ne : shortLine ≠ "" := by decide

/-- The line is a document and its call is this one. -/
def Reads (line : String) (call : BackendCall) : Prop :=
  ∃ value, readSample (trim line) = .ok value ∧ lineCall readSample line = some call

lemma longLine_reads : Reads longLine longCall := by
  unfold Reads lineCall
  rw [trim_longLine, if_neg (by decide), readSample, if_pos rfl]
  exact ⟨_, rfl, by decide⟩

lemma shortLine_reads : Reads shortLine shortCall := by
  unfold Reads lineCall
  rw [trim_shortLine, if_neg shortLine_ne, readSample, if_neg (by decide), if_pos rfl]
  exact ⟨_, rfl, by decide⟩

lemma short_wellFormed : WellFormed readSample (shortLine ++ "\n\n" ++ shortLine) := by
  obtain ⟨value, hvalue, _⟩ := shortLine_reads
  intro line hline
  rw [lines_apart shortLine_oneLine shortLine_oneLine shortLine_ne, List.mem_cons,
    List.mem_cons, List.mem_singleton] at hline
  rcases hline with rfl | rfl | rfl
  · exact Or.inr ⟨value, hvalue⟩
  · exact Or.inl rfl
  · exact Or.inr ⟨value, hvalue⟩

lemma callsOf_short :
    callsOf readSample (shortLine ++ "\n\n" ++ shortLine) = [shortCall, shortCall] := by
  obtain ⟨_, _, hcall⟩ := shortLine_reads
  have hblank : lineCall readSample "" = none := if_pos rfl
  rw [callsOf, lines_apart shortLine_oneLine shortLine_oneLine shortLine_ne,
    List.filterMap_cons_some hcall, List.filterMap_cons_none hblank,
    List.filterMap_cons_some hcall, List.filterMap_nil]

lemma overflow_wellFormed : WellFormed readSample (longLine ++ "\n" ++ shortLine) := by
  obtain ⟨value, hvalue, _⟩ := longLine_reads
  obtain ⟨value', hvalue', _⟩ := shortLine_reads
  intro line hline
  rw [lines_joined longLine_oneLine shortLine_oneLine shortLine_ne, List.mem_cons,
    List.mem_singleton] at hline
  rcases hline with rfl | rfl
  · exact Or.inr ⟨value, hvalue⟩
  · exact Or.inr ⟨value', hvalue'⟩

lemma callsOf_overflow :
    callsOf readSample (longLine ++ "\n" ++ shortLine) = [longCall, shortCall] := by
  obtain ⟨_, _, hlong⟩ := longLine_reads
  obtain ⟨_, _, hshort⟩ := shortLine_reads
  rw [callsOf, lines_joined longLine_oneLine shortLine_oneLine shortLine_ne,
    List.filterMap_cons_some hlong, List.filterMap_cons_some hshort, List.filterMap_nil]

theorem aggregated_short : Aggregated readSample true (shortLine ++ "\n\n" ++ shortLine) := by
  have hfits : Fits Prod.fst [shortCall, shortCall] ∧ Fits Prod.snd [shortCall, shortCall] :=
    ⟨by decide, by decide⟩
  rw [← callsOf_short] at hfits
  exact (aggregated_iff_fits readSample true _ short_wellFormed).mpr hfits

/-- The listing of two pairs is right, and their total is out of range. -/
theorem totals_overflow :
    aggregate readSample id (longLine ++ "\n" ++ shortLine) =
      .ok [⟨"claude", "default", 18446744073709551615, 7⟩, ⟨"codex", "mini", 1, 2⟩] ∧
    totals true [⟨"claude", "default", 18446744073709551615, 7⟩, ⟨"codex", "mini", 1, 2⟩] = none ∧
    totals false [⟨"claude", "default", 18446744073709551615, 7⟩, ⟨"codex", "mini", 1, 2⟩] =
      some ⟨0, 9⟩ ∧
    ∀ checks, ¬ Aggregated readSample checks (longLine ++ "\n" ++ shortLine) := by
  have hlisted : aggregate readSample id (longLine ++ "\n" ++ shortLine) =
      .ok [⟨"claude", "default", 18446744073709551615, 7⟩, ⟨"codex", "mini", 1, 2⟩] := by
    have hid : ∀ groups : Usage, (id groups).Perm groups := fun groups => List.Perm.refl groups
    rw [aggregate_eq hid overflow_wellFormed, callsOf_overflow]
    decide
  refine ⟨hlisted, by decide, by decide, fun checks h => ?_⟩
  obtain ⟨backends, hok, _, htotals⟩ := h.listed id fun groups => List.Perm.refl groups
  rw [hlisted] at hok
  obtain rfl := Except.ok.inj hok
  have hfits := (totals_eq_iff.mp htotals).1
  exact absurd hfits (by decide)

end Aggregation

end Loker.TraceTotals
