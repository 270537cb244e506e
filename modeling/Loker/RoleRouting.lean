import Loker.RetryExecutor

/-! Roles and the backends that they name: how a role is resolved and checked, and what the smart
command asks of the backends that it has resolved. -/

namespace Loker.RoleRouting

open RetryExecutor (BackendError)

section Roles

inductive RoutingStrategy where
  | first
  | parallel (minSuccess : ℕ) (timeoutSecs : Option ℕ)
  | fallback (timeoutSecs : Option ℕ)
  deriving DecidableEq, Repr

inductive RoleResolutionError where
  | roleNotFound (role : String)
  | noBackendsAvailable (role : String)
  | validationError (role message : String)
  deriving DecidableEq, Repr

structure Resolution where
  role : String
  team : Option String
  backends : List String
  strategy : RoutingStrategy
  fromTeamOverride : Bool
  deriving DecidableEq, Repr

structure RoleConfig where
  backends : List String
  strategy : RoutingStrategy
  deriving DecidableEq, Repr

/-- A map, as the list of its entries in the order in which it is iterated. -/
abbrev Table (α : Type) := List (String × α)

structure TeamConfig where
  roles : Table RoleConfig
  deriving DecidableEq, Repr

structure ValidationWarning where
  role : String
  message : String
  deriving DecidableEq, Repr

structure RoleResolver where
  roles : Table RoleConfig
  teams : Table TeamConfig
  defaultTeam : Option String
  deriving DecidableEq, Repr

namespace RoleResolver

variable (r : RoleResolver)

def activeTeam (teamOverride : Option String) : Option String := teamOverride.or r.defaultTeam

def teamRole (role : String) (teamOverride : Option String) : Option RoleConfig := do
  let team ← r.activeTeam teamOverride
  let config ← r.teams.lookup team
  config.roles.lookup role

/-- The team's entry for the role comes before the global one. -/
def configured (role : String) (teamOverride : Option String) : Option RoleConfig :=
  (r.teamRole role teamOverride).or (r.roles.lookup role)

def resolve (role : String) (teamOverride : Option String) (available : List String) :
    Except RoleResolutionError Resolution :=
  match r.configured role teamOverride with
  | none => .error (.roleNotFound role)
  | some config =>
    let backends := config.backends.filter (· ∈ available)
    if backends = [] then .error (.noBackendsAvailable role)
    else .ok ⟨role, r.activeTeam teamOverride, backends, config.strategy,
      (r.teamRole role teamOverride).isSome⟩

end RoleResolver

def minSuccessErrors (role : String) (backends : List String) (minSuccess : ℕ) :
    List RoleResolutionError :=
  (if minSuccess < 1 then
    [.validationError role ("Parallel strategy min_success must be >= 1, got " ++ minSuccess.repr)]
  else []) ++
  (if backends.length < minSuccess then
    [.validationError role ("Parallel strategy min_success (" ++ minSuccess.repr ++
      ") exceeds number of backends (" ++ backends.length.repr ++ ")")]
  else [])

def strategyErrors (entry : String × RoleConfig) : List RoleResolutionError :=
  match entry.2.strategy with
  | .first => []
  | .parallel minSuccess _ => minSuccessErrors entry.1 entry.2.backends minSuccess
  | .fallback _ => []

def unknownBackends (known : List String) (entry : String × RoleConfig) :
    List ValidationWarning :=
  (entry.2.backends.filter (· ∉ known)).map fun backend =>
    ⟨entry.1, "Unknown backend reference: '" ++ backend ++ "'"⟩

/-- The roles with the names that the messages give them. -/
def RoleResolver.entries (r : RoleResolver) : Table RoleConfig :=
  r.roles ++ r.teams.flatMap fun team =>
    team.2.roles.map fun role => (team.1 ++ "/" ++ role.1, role.2)

def RoleResolver.validate (r : RoleResolver) (known : List String) :
    List ValidationWarning × List RoleResolutionError :=
  (r.entries.flatMap (unknownBackends known), r.entries.flatMap strategyErrors)

end Roles

section Backends

structure BackendConfig where
  enabled : Bool := true
  timeout : Option ℕ := none
  deriving DecidableEq, Repr

/-- The map of the backends has every key once. -/
structure Config where
  backends : Table BackendConfig
  unique : (backends.map Prod.fst).Nodup
  parallel : Bool
  timeout : ℕ

/-- The backends that can be created; each has the name under which it is configured. -/
def knownBackends : List String :=
  ["codex", "gemini", "claude", "ollama", "tensorzero", "bedrock"]

/-- `str::split(',')`. -/
def splitCommas (s : String) : List String := (s.toList.splitOn ',').map String.ofList

def named (filter : Option String) (name : String) : Bool :=
  match filter with
  | none => true
  | some names => name ∈ splitCommas names

/-- `usable` tells whether a backend is created without an error and is there. -/
def getBackends (config : Config) (usable : String → Bool) (filter : Option String) :
    Except String (List String) :=
  let backends := (config.backends.filter fun entry =>
    entry.2.enabled && named filter entry.1 && entry.1 ∈ knownBackends && usable entry.1).map
      Prod.fst
  if backends = [] then .error "No backends available" else .ok backends

def errorText : BackendError → String
  | .timeout message _ => "timeout: " ++ message
  | .rateLimit message _ => "rate limited: " ++ message
  | .auth message => "auth: " ++ message
  | .network message => "network: " ++ message
  | .parse message => "parse: " ++ message
  | .executionFailed message _ => "execution failed: " ++ message
  | .unavailable message => "unavailable: " ++ message
  | .config message => "config: " ++ message

structure QueryResult where
  backend : String
  output : String
  success : Bool
  elapsedMs : ℕ
  error : Option BackendError
  deriving DecidableEq, Repr

/-- What becomes of a query; nothing stands for one that is still open at its timeout. -/
structure Answer where
  result : Option (Except BackendError String)
  elapsedMs : ℕ

def failedQuery (backend : String) (e : BackendError) (elapsedMs : ℕ) : QueryResult :=
  ⟨backend, "Error: " ++ errorText e, false, elapsedMs, some e⟩

def queryOne (answer : String → ℕ → Answer) (timeout : ℕ) (backend : String) : QueryResult :=
  let a := answer backend timeout
  match a.result with
  | some (.ok stdout) => ⟨backend, stdout, true, a.elapsedMs, none⟩
  | some (.error e) => failedQuery backend e a.elapsedMs
  | none =>
    failedQuery backend (.timeout ("Timeout (" ++ timeout.repr ++ "s)") a.elapsedMs) a.elapsedMs

/-- No timeout is a year. -/
def getTimeout (config : Config) (backend : String) : ℕ :=
  let timeout := ((config.backends.lookup backend).bind BackendConfig.timeout).getD config.timeout
  if timeout = 0 then 365 * 24 * 60 * 60 else timeout

def query (config : Config) (answer : String → ℕ → Answer) (backend : String) : QueryResult :=
  queryOne answer (getTimeout config backend) backend

inductive Event where
  | asked (backend : String)
  | answered (result : QueryResult)
  deriving DecidableEq, Repr

def Event.question : Event → Option String
  | .asked backend => some backend
  | .answered _ => none

def Event.answer : Event → Option QueryResult
  | .asked _ => none
  | .answered result => some result

/-- One query after the other. -/
def inTurn (query : String → QueryResult) (backends : List String) : List Event :=
  backends.flatMap fun backend => [.asked backend, .answered (query backend)]

/-- All queries are asked in order and each is answered some time after that. -/
structure Joined (query : String → QueryResult) (backends : List String) (trace : List Event) :
    Prop where
  questions : trace.filterMap Event.question = backends
  answers : (trace.filterMap Event.answer).Perm (backends.map query)
  after : ∀ before result rest, trace = before ++ .answered result :: rest →
    .asked result.backend ∈ before

/-- The events until the results are returned. -/
inductive RunsQuery (config : Config) (answer : String → ℕ → Answer) (backends : List String)
    (trace : List Event) : Prop
  | parallel (hparallel : config.parallel = true)
      (hjoined : Joined (query config answer) backends trace)
  | sequential (hparallel : config.parallel = false)
      (htrace : trace = inTurn (query config answer) backends)

end Backends

section Smart

/-- The delegator knows three backends. -/
inductive Profile where
  | codex
  | gemini
  | claude
  deriving DecidableEq, Repr

def Profile.name : Profile → String
  | .codex => "codex"
  | .gemini => "gemini"
  | .claude => "claude"

/-- The moments at which the command looks for backends. -/
inductive Call where
  | listing
  | trial (profile : Profile)
  | final

variable (resolver : RoleResolver) (config : Config) (usable : Call → String → Bool)

def availableBackends : List String :=
  match getBackends config (usable .listing) none with
  | .ok backends => backends
  | .error _ => []

/-- The first recommended backend that there is. -/
def delegated (recommendations : List Profile) : List String :=
  (recommendations.find? fun profile =>
    (getBackends config (usable (.trial profile)) (some profile.name)).isOk).toList.map Profile.name

def smartResolution (role : String) (team : Option String) (recommendations : List Profile) :
    Except RoleResolutionError Resolution :=
  match resolver.resolve role team (availableBackends config usable) with
  | .error (.roleNotFound _) =>
    .ok ⟨role, none, delegated config usable recommendations, .first, false⟩
  | result => result

def smartBackends (resolution : Resolution) : Except String (List String) :=
  if resolution.backends = [] then getBackends config (usable .final) none
  else getBackends config (usable .final) (some (",".intercalate resolution.backends))

/-- The configuration with what the strategy says. -/
def strategyConfig (strategy : RoutingStrategy) : Config :=
  match strategy with
  | .parallel _ timeoutSecs =>
    { config with parallel := true, timeout := timeoutSecs.getD config.timeout }
  | .first => { config with parallel := false }
  | .fallback timeoutSecs =>
    { config with parallel := false, timeout := timeoutSecs.getD config.timeout }

/-- A run of the command that comes to its queries. -/
structure SmartRun (answer : String → ℕ → Answer) (role : String) (team : Option String)
    (recommendations : List Profile) where
  resolution : Resolution
  backends : List String
  trace : List Event
  resolved : smartResolution resolver config usable role team recommendations = .ok resolution
  found : smartBackends config usable resolution = .ok backends
  runs : RunsQuery (strategyConfig config resolution.strategy) answer backends trace

end Smart

section Spec

variable {resolver : RoleResolver} {config : Config} {usable : Call → String → Bool}
  {answer : String → ℕ → Answer} {role : String} {team : Option String}
  {recommendations : List Profile}

/-- The backends up to the first one at which a run stops. -/
def untilFirst (stops : String → Bool) : List String → List String
  | [] => []
  | backend :: backends =>
      if stops backend then [backend] else backend :: untilFirst stops backends

/-- A success stops a run in turn; so does an error that counts as terminal. -/
def stops (terminal : BackendError → Bool) (query : String → QueryResult) (backend : String) :
    Bool :=
  (query backend).success || (query backend).error.any terminal

def Event.succeeded : Event → Bool
  | .asked _ => false
  | .answered result => result.success

def successes (trace : List Event) : ℕ := trace.countP Event.succeeded

namespace SmartRun

variable (run : SmartRun resolver config usable answer role team recommendations)
  (terminal : BackendError → Bool)

/-- How the run's backends are queried, with the strategy's timeout. -/
def ask : String → QueryResult := query (strategyConfig config run.resolution.strategy) answer

/-- The backends that the documentation lets a run in turn query, in its order. -/
def documented : List String := untilFirst (stops terminal run.ask) run.resolution.backends

/-- The run is what the documentation of the strategy says: in turn up to the first success, or
with nothing after as many successes as are asked for. -/
def Honoured : Prop :=
  match run.resolution.strategy with
  | .parallel minSuccess _ =>
    ∀ before event rest, run.trace = before ++ event :: rest → successes before < minSuccess
  | .first => run.trace = inTurn run.ask (run.documented terminal)
  | .fallback _ => run.trace = inTurn run.ask (run.documented terminal)

/-- The backend is one that the command can query for the resolution. -/
def Askable (backend : String) : Prop :=
  (∃ entry ∈ config.backends, entry.1 = backend ∧ entry.2.enabled = true) ∧
    backend ∈ knownBackends ∧ usable .final backend = true ∧
    (run.resolution.backends = [] ∨ backend ∈ run.resolution.backends)

/-- No backend that can be queried is left behind a success, none is listed twice before it, and
the map is iterated in the configured order. -/
structure InOrder : Prop where
  once : (run.documented terminal).Nodup
  all : ∀ backend, backend ∈ run.documented terminal ↔ run.Askable backend
  order : (run.documented terminal).Sublist (config.backends.map Prod.fst)

/-- The last answer completes the successes that are asked for, or there are never as many. -/
def EndsAtQuorum (minSuccess : ℕ) : Prop :=
  run.backends.countP (fun backend => (run.ask backend).success) < minSuccess ∨
    run.backends.countP (fun backend => (run.ask backend).success) = minSuccess ∧
      run.trace.getLast?.any Event.succeeded = true

def Exact : Prop :=
  match run.resolution.strategy with
  | .parallel minSuccess _ => run.EndsAtQuorum minSuccess
  | .first => run.InOrder terminal
  | .fallback _ => run.InOrder terminal

end SmartRun

end Spec

section Resolution

variable {r : RoleResolver} {role : String} {team : Option String} {available known : List String}
  {res : Resolution}

lemma lookup_mem {α : Type} {table : Table α} {key : String} {value : α}
    (h : table.lookup key = some value) : (key, value) ∈ table := by
  induction table with
  | nil => cases h
  | cons entry table ih =>
    rw [List.lookup_cons] at h
    split at h
    · next heq =>
      cases h
      rw [beq_iff_eq.mp heq]
      exact List.mem_cons_self
    · exact List.mem_cons_of_mem _ (ih h)

/-- A role that is found is one of those that are checked. -/
lemma configured_mem {entry : RoleConfig} (h : r.configured role team = some entry) :
    ∃ name, (name, entry) ∈ r.entries := by
  unfold RoleResolver.configured at h
  rcases Option.or_eq_some_iff.mp h with hteam | ⟨_, hglobal⟩
  · obtain ⟨name, _, hrest⟩ := Option.bind_eq_some_iff.mp hteam
    obtain ⟨config, hconfig, hrole⟩ := Option.bind_eq_some_iff.mp hrest
    refine ⟨name ++ "/" ++ role, List.mem_append_right _ (List.mem_flatMap.mpr ?_)⟩
    exact ⟨(name, config), lookup_mem hconfig, List.mem_map.mpr ⟨_, lookup_mem hrole, rfl⟩⟩
  · exact ⟨role, List.mem_append_left _ (lookup_mem hglobal)⟩

lemma minSuccess_of_valid {entry : RoleConfig} {name : String} {minSuccess : ℕ}
    {timeout : Option ℕ} (hvalid : (r.validate known).2 = []) (hmem : (name, entry) ∈ r.entries)
    (hstrategy : entry.strategy = .parallel minSuccess timeout) :
    1 ≤ minSuccess ∧ minSuccess ≤ entry.backends.length := by
  have hnone := List.flatMap_eq_nil_iff.mp hvalid _ hmem
  simp only [strategyErrors, hstrategy, minSuccessErrors] at hnone
  obtain ⟨hlow, hhigh⟩ := List.append_eq_nil_iff.mp hnone
  constructor
  · by_contra hlt
    rw [if_pos (by omega)] at hlow
    cases hlow
  · by_contra hlt
    rw [if_pos (by omega)] at hhigh
    cases hhigh

lemma resolve_ok (h : r.resolve role team available = .ok res) :
    ∃ entry, r.configured role team = some entry ∧ res.strategy = entry.strategy ∧
      res.backends = entry.backends.filter (· ∈ available) ∧ res.backends ≠ [] := by
  unfold RoleResolver.resolve at h
  cases hentry : r.configured role team with
  | none =>
    rw [hentry] at h
    cases h
  | some entry =>
    rw [hentry] at h
    dsimp only at h
    split at h
    · cases h
    · next hne =>
      cases h
      exact ⟨entry, rfl, rfl, rfl, hne⟩

/-- What a parallel strategy asks for can be reached exactly if as many backends of the role are
available. -/
lemma satisfiable_iff {minSuccess : ℕ} {timeout : Option ℕ} (hvalid : (r.validate known).2 = [])
    (h : r.resolve role team available = .ok res)
    (hstrategy : res.strategy = .parallel minSuccess timeout) :
    (1 ≤ minSuccess ∧ minSuccess ≤ res.backends.length) ↔
      ∃ entry, r.configured role team = some entry ∧
        minSuccess ≤ entry.backends.countP (· ∈ available) := by
  obtain ⟨entry, hentry, hsame, hbackends, _⟩ := resolve_ok h
  obtain ⟨name, hmem⟩ := configured_mem hentry
  rw [hsame] at hstrategy
  have hlow := (minSuccess_of_valid hvalid hmem hstrategy).1
  rw [hbackends, ← List.countP_eq_length_filter]
  constructor
  · rintro ⟨_, hle⟩
    exact ⟨entry, hentry, hle⟩
  · rintro ⟨entry', hentry', hle⟩
    obtain rfl : entry = entry' := Option.some.inj (hentry.symm.trans hentry')
    exact ⟨hlow, hle⟩

end Resolution

section Listing

variable {config : Config} {present : String → Bool} {filter : Option String}
  {names backends : List String}

lemma getBackends_ok (h : getBackends config present filter = .ok backends) :
    backends ≠ [] ∧ backends.Sublist (config.backends.map Prod.fst) ∧
      ∀ backend, backend ∈ backends ↔
        (∃ entry ∈ config.backends, entry.1 = backend ∧ entry.2.enabled = true) ∧
          named filter backend = true ∧ backend ∈ knownBackends ∧ present backend = true := by
  simp only [getBackends] at h
  split at h
  · cases h
  · next hne =>
    obtain rfl := Except.ok.inj h
    refine ⟨hne, List.filter_sublist.map Prod.fst, fun backend => ?_⟩
    simp only [List.mem_map, List.mem_filter, Bool.and_eq_true, decide_eq_true_eq]
    constructor
    · rintro ⟨entry, ⟨hmem, ⟨⟨henabled, hnamed⟩, hknown⟩, hpresent⟩, rfl⟩
      exact ⟨⟨entry, hmem, rfl, henabled⟩, hnamed, hknown, hpresent⟩
    · rintro ⟨⟨entry, hmem, rfl, henabled⟩, hnamed, hknown, hpresent⟩
      exact ⟨entry, ⟨hmem, ⟨⟨henabled, hnamed⟩, hknown⟩, hpresent⟩, rfl⟩

/-- Names without commas are found again in the list that they make up. -/
lemma named_intercalate (hne : names ≠ []) (hplain : ∀ name ∈ names, ',' ∉ name.toList)
    (backend : String) : named (some (",".intercalate names)) backend = true ↔ backend ∈ names := by
  have hsplit : splitCommas (",".intercalate names) = names := by
    have hchars : ∀ cs ∈ names.map String.toList, ',' ∉ cs := by
      intro cs hcs
      obtain ⟨name, hname, rfl⟩ := List.mem_map.mp hcs
      exact hplain name hname
    have hcomma : ",".toList = [','] := rfl
    rw [splitCommas, String.toList_intercalate, hcomma,
      List.splitOn_intercalate ',' hchars (fun h => hne (List.map_eq_nil_iff.mp h)), List.map_map]
    exact (List.map_congr_left fun name _ => String.ofList_toList).trans (List.map_id names)
  rw [named, hsplit, decide_eq_true_eq]

lemma plain_of_known {name : String} (h : name ∈ knownBackends) : ',' ∉ name.toList := by
  have hall : knownBackends.all (fun name => ',' ∉ name.toList) = true := by decide
  exact of_decide_eq_true (List.all_eq_true.mp hall name h)

lemma profile_known (profile : Profile) : profile.name ∈ knownBackends := by
  cases profile <;> decide

end Listing

section Queries

variable {q : String → QueryResult} {backends : List String} {trace : List Event} {m : ℕ}

lemma questions_inTurn (q : String → QueryResult) (backends : List String) :
    (inTurn q backends).filterMap Event.question = backends := by
  induction backends with
  | nil => rfl
  | cons backend backends ih =>
    have hcons : inTurn q (backend :: backends) =
        .asked backend :: .answered (q backend) :: inTurn q backends := rfl
    simp only [hcons, List.filterMap_cons, Event.question, ih]

lemma inTurn_inj {others : List String} :
    inTurn q backends = inTurn q others ↔ backends = others := by
  constructor
  · intro h
    rw [← questions_inTurn q backends, h, questions_inTurn]
  · intro h
    rw [h]

/-- A part of a list without repetitions is known from its members and their order. -/
lemma filter_like_iff {selected others all : List String} (hall : all.Nodup)
    (hselected : selected.Sublist all) :
    selected = others ↔
      others.Nodup ∧ (∀ x, x ∈ others ↔ x ∈ selected) ∧ others.Sublist all := by
  constructor
  · rintro rfl
    exact ⟨hselected.nodup hall, fun _ => Iff.rfl, hselected⟩
  · rintro ⟨hnodup, hmem, hothers⟩
    have hperm : selected.Perm others :=
      (List.perm_ext_iff_of_nodup (hselected.nodup hall) hnodup).mpr fun x => (hmem x).symm
    have hfilter : ∀ {xs : List String}, xs.Sublist all → (∀ x, x ∈ xs ↔ x ∈ selected) →
        xs = all.filter (· ∈ selected) := by
      intro xs hxs hsame
      have hkept : xs.filter (· ∈ selected) = xs := by
        rw [List.filter_eq_self]
        exact fun x hx => decide_eq_true ((hsame x).mp hx)
      have hsub : xs.Sublist (all.filter (· ∈ selected)) := by
        rw [← hkept]
        exact hxs.filter _
      apply hsub.eq_of_length
      apply List.Perm.length_eq
      apply (List.perm_ext_iff_of_nodup (hxs.nodup hall) (hall.filter _)).mpr
      intro x
      rw [hsame x, List.mem_filter, decide_eq_true_eq]
      exact ⟨fun h => ⟨hselected.mem h, h⟩, fun h => h.2⟩
    rw [hfilter hselected fun _ => Iff.rfl, ← hfilter hothers hmem]

lemma successes_joined (h : Joined q backends trace) :
    successes trace = backends.countP fun backend => (q backend).success := by
  have hcount : ∀ events : List Event, successes events =
      (events.filterMap Event.answer).countP QueryResult.success := by
    intro events
    induction events with
    | nil => rfl
    | cons event events ih =>
      unfold successes at ih ⊢
      cases event with
      | asked backend =>
        simp only [List.countP_cons, List.filterMap_cons, Event.answer, Event.succeeded, ih]
        simp
      | answered result =>
        simp only [List.countP_cons, List.filterMap_cons, Event.answer, Event.succeeded, ih]
        rfl
  rw [hcount, h.answers.countP_eq, List.countP_map]
  rfl

/-- The answers may come in any order after the questions. -/
lemma joined_of_perm {answers : List QueryResult} (hperm : answers.Perm (backends.map q))
    (hname : ∀ backend, (q backend).backend = backend) :
    Joined q backends (backends.map Event.asked ++ answers.map Event.answered) := by
  constructor
  · rw [List.filterMap_append, List.filterMap_map, List.filterMap_map]
    simp [Function.comp_def, Event.question]
  · rw [List.filterMap_append, List.filterMap_map, List.filterMap_map]
    simpa [Function.comp_def, Event.answer] using hperm
  · intro before result rest hsplit
    rcases List.append_eq_append_iff.mp hsplit with
      ⟨more, hbefore, hanswers⟩ | ⟨more, hasked, hrest⟩
    · have hmem : Event.answered result ∈ answers.map Event.answered := by
        rw [hanswers]
        exact List.mem_append_right _ List.mem_cons_self
      obtain ⟨r, hr, heq⟩ := List.mem_map.mp hmem
      obtain rfl := Event.answered.inj heq
      obtain ⟨backend, hbackend, rfl⟩ := List.mem_map.mp (hperm.mem_iff.mp hr)
      rw [hbefore, hname]
      exact List.mem_append_left _ (List.mem_map_of_mem hbackend)
    · cases more with
      | nil =>
        rw [List.nil_append] at hrest
        have hmem : Event.answered result ∈ answers.map Event.answered := by
          rw [← hrest]
          exact List.mem_cons_self
        obtain ⟨r, hr, heq⟩ := List.mem_map.mp hmem
        obtain rfl := Event.answered.inj heq
        obtain ⟨backend, hbackend, rfl⟩ := List.mem_map.mp (hperm.mem_iff.mp hr)
        rw [List.append_nil] at hasked
        rw [← hasked, hname]
        exact List.mem_map_of_mem hbackend
      | cons event more =>
        obtain ⟨rfl, _⟩ := List.cons.inj hrest
        have hmem : Event.answered result ∈ backends.map Event.asked := by
          rw [hasked]
          exact List.mem_append_right _ List.mem_cons_self
        obtain ⟨_, _, heq⟩ := List.mem_map.mp hmem
        cases heq

lemma backend_queryOne (answer : String → ℕ → Answer) (timeout : ℕ) (backend : String) :
    (queryOne answer timeout backend).backend = backend := by
  simp only [queryOne, failedQuery]
  split <;> rfl

lemma successes_before {before rest : List Event} {event : Event}
    (h : trace = before ++ event :: rest) : successes before ≤ successes trace.dropLast := by
  have hpre : before <+: trace.dropLast := by
    rw [h, List.dropLast_append_of_ne_nil (List.cons_ne_nil event rest)]
    exact List.prefix_append _ _
  exact hpre.sublist.countP_le

lemma quorum_iff (hne : trace ≠ []) :
    (∀ before event rest, trace = before ++ event :: rest → successes before < m) ↔
      successes trace < m ∨ successes trace = m ∧ trace.getLast?.any Event.succeeded = true := by
  obtain ⟨init, last, rfl⟩ : ∃ init last, trace = init ++ [last] :=
    ⟨_, _, (List.dropLast_concat_getLast hne).symm⟩
  have hstep : (∀ before event rest, init ++ [last] = before ++ event :: rest →
      successes before < m) ↔ successes init < m := by
    constructor
    · intro h
      exact h init last [] rfl
    · intro h before event rest hsplit
      have hle := successes_before hsplit
      rw [List.dropLast_concat] at hle
      omega
  have hsum : successes (init ++ [last]) = successes init + if last.succeeded then 1 else 0 := by
    unfold successes
    rw [List.countP_append, List.countP_singleton]
  rw [hstep, hsum, List.getLast?_concat, Option.any_some]
  cases last.succeeded with
  | true =>
    simp only [if_true, and_true]
    omega
  | false =>
    simp only [Bool.false_eq_true, if_false, and_false, or_false, Nat.add_zero]

end Queries

namespace SmartRun

variable {resolver : RoleResolver} {config : Config} {usable : Call → String → Bool}
  {answer : String → ℕ → Answer} {role : String} {team : Option String}
  {recommendations : List Profile}
  (run : SmartRun resolver config usable answer role team recommendations)

lemma known_of_available {backend : String} (h : backend ∈ availableBackends config usable) :
    backend ∈ knownBackends := by
  unfold availableBackends at h
  split at h
  · next backends hbackends => exact (((getBackends_ok hbackends).2.2 backend).mp h).2.2.1
  · cases h

lemma resolution_known {backend : String} (h : backend ∈ run.resolution.backends) :
    backend ∈ knownBackends := by
  have hresolved := run.resolved
  unfold smartResolution at hresolved
  split at hresolved
  · rw [← Except.ok.inj hresolved] at h
    obtain ⟨profile, _, rfl⟩ := List.mem_map.mp h
    exact profile_known profile
  · obtain ⟨entry, _, _, hbackends, _⟩ := resolve_ok hresolved
    rw [hbackends] at h
    exact known_of_available (of_decide_eq_true (List.mem_filter.mp h).2)

/-- The command finds the backends that it can ask, in the order of the map. -/
lemma backends_spec :
    run.backends ≠ [] ∧ run.backends.Sublist (config.backends.map Prod.fst) ∧
      ∀ backend, backend ∈ run.backends ↔ run.Askable backend := by
  have hfound := run.found
  unfold smartBackends at hfound
  unfold Askable
  by_cases hnone : run.resolution.backends = []
  · rw [if_pos hnone] at hfound
    obtain ⟨hne, hsub, hmem⟩ := getBackends_ok hfound
    refine ⟨hne, hsub, fun backend => ?_⟩
    rw [hmem]
    simp only [named, hnone, true_and, true_or, and_true]
  · rw [if_neg hnone] at hfound
    obtain ⟨hne, hsub, hmem⟩ := getBackends_ok hfound
    refine ⟨hne, hsub, fun backend => ?_⟩
    rw [hmem, named_intercalate hnone fun name hname =>
      plain_of_known (run.resolution_known hname)]
    simp only [hnone, false_or]
    tauto

lemma inOrder_iff (terminal : BackendError → Bool) :
    run.backends = run.documented terminal ↔ run.InOrder terminal := by
  obtain ⟨_, hsub, hmem⟩ := run.backends_spec
  rw [filter_like_iff config.unique hsub]
  constructor
  · rintro ⟨hnodup, hall, horder⟩
    exact ⟨hnodup, fun backend => (hall backend).trans (hmem backend), horder⟩
  · rintro ⟨hnodup, hall, horder⟩
    exact ⟨hnodup, fun backend => (hall backend).trans (hmem backend).symm, horder⟩

lemma sequential_trace (h : (strategyConfig config run.resolution.strategy).parallel = false) :
    run.trace = inTurn run.ask run.backends := by
  cases run.runs with
  | parallel hparallel _ =>
    rw [h] at hparallel
    cases hparallel
  | sequential _ htrace => exact htrace

lemma joined_trace (h : (strategyConfig config run.resolution.strategy).parallel = true) :
    Joined run.ask run.backends run.trace := by
  cases run.runs with
  | parallel _ hjoined => exact hjoined
  | sequential hparallel _ =>
    rw [h] at hparallel
    cases hparallel

lemma inTurn_iff (terminal : BackendError → Bool)
    (h : (strategyConfig config run.resolution.strategy).parallel = false) :
    run.trace = inTurn run.ask (run.documented terminal) ↔ run.InOrder terminal := by
  rw [run.sequential_trace h, inTurn_inj, run.inOrder_iff]

lemma atQuorum_iff (minSuccess : ℕ)
    (h : (strategyConfig config run.resolution.strategy).parallel = true) :
    (∀ before event rest, run.trace = before ++ event :: rest → successes before < minSuccess) ↔
      run.EndsAtQuorum minSuccess := by
  have hjoined := run.joined_trace h
  have hne : run.trace ≠ [] := by
    intro hnone
    have hquestions := hjoined.questions
    rw [hnone] at hquestions
    exact run.backends_spec.1 hquestions.symm
  rw [quorum_iff hne, successes_joined hjoined, EndsAtQuorum]

end SmartRun

/-- With a configuration in which the validation finds no error: a parallel resolution can be
satisfied exactly if enough of the role's backends are available, and a run of the command does
what its strategy's documentation says exactly in the cases that `Exact` names. -/
theorem routing_iff (resolver : RoleResolver) (known : List String)
    (hvalid : (resolver.validate known).2 = []) :
    (∀ role team available res minSuccess timeout,
      resolver.resolve role team available = .ok res →
      res.strategy = .parallel minSuccess timeout →
      ((1 ≤ minSuccess ∧ minSuccess ≤ res.backends.length) ↔
        ∃ entry, resolver.configured role team = some entry ∧
          minSuccess ≤ entry.backends.countP (· ∈ available))) ∧
    ∀ (config : Config) (usable : Call → String → Bool) (answer : String → ℕ → Answer)
      (role : String) (team : Option String) (recommendations : List Profile)
      (run : SmartRun resolver config usable answer role team recommendations)
      (terminal : BackendError → Bool), run.Honoured terminal ↔ run.Exact terminal := by
  constructor
  · intro role team available res minSuccess timeout h hstrategy
    exact satisfiable_iff hvalid h hstrategy
  · intro config usable answer role team recommendations run terminal
    unfold SmartRun.Honoured SmartRun.Exact
    cases hstrategy : run.resolution.strategy with
    | first => exact run.inTurn_iff terminal (by rw [hstrategy]; rfl)
    | parallel minSuccess timeout => exact run.atQuorum_iff minSuccess (by rw [hstrategy]; rfl)
    | fallback timeout => exact run.inTurn_iff terminal (by rw [hstrategy]; rfl)

section Samples

def sampleRoles : RoleResolver where
  roles := [("review", ⟨["codex", "claude"], .parallel 2 none⟩),
    ("draft", ⟨["codex", "claude"], .first⟩), ("quick", ⟨["codex", "claude"], .parallel 1 none⟩)]
  teams := []
  defaultTeam := none

/-- The two backends in the order in which the map is iterated. -/
def sampleConfig (first second : String) (h : first ≠ second) : Config where
  backends := [(first, {}), (second, {})]
  unique := by simpa using h
  parallel := true
  timeout := 300

def answering (failing : String) (backend : String) (_ : ℕ) : Answer :=
  if backend = failing then ⟨some (.error (.network "refused")), 20⟩ else ⟨some (.ok "done"), 10⟩

/-- The first backend of the role cannot be reached, and the map has it first. -/
def draftRun : SmartRun sampleRoles (sampleConfig "codex" "claude" (by decide)) (fun _ _ => true)
    (answering "codex") "draft" none [] where
  resolution := ⟨"draft", none, ["codex", "claude"], .first, false⟩
  backends := ["codex", "claude"]
  trace := inTurn (query (strategyConfig (sampleConfig "codex" "claude" (by decide)) .first)
    (answering "codex")) ["codex", "claude"]
  resolved := by decide
  found := by decide
  runs := .sequential rfl rfl

theorem routing_iff_draft :
    (∃ res, sampleRoles.resolve "review" none ["claude", "gemini", "codex"] = .ok res ∧
      1 ≤ 2 ∧ 2 ≤ res.backends.length) ∧
    ∀ terminal, terminal (.network "refused") = false → draftRun.Honoured terminal := by
  have hvalid : (sampleRoles.validate ["codex", "claude"]).2 = [] := by decide
  obtain ⟨hsatisfiable, hhonoured⟩ := routing_iff sampleRoles _ hvalid
  constructor
  · refine ⟨⟨"review", none, ["codex", "claude"], .parallel 2 none, false⟩, by decide, ?_⟩
    have hresolved : sampleRoles.resolve "review" none ["claude", "gemini", "codex"] =
        .ok ⟨"review", none, ["codex", "claude"], .parallel 2 none, false⟩ := by decide
    apply (hsatisfiable _ _ _ _ 2 none hresolved rfl).mpr
    exact ⟨⟨["codex", "claude"], .parallel 2 none⟩, by decide, by decide⟩
  · intro terminal hterminal
    have hfailed : stops terminal draftRun.ask "codex" = terminal (.network "refused") := rfl
    have hdocumented : draftRun.documented terminal = draftRun.backends := by
      rw [SmartRun.documented, show draftRun.resolution.backends = ["codex", "claude"] from rfl,
        untilFirst, if_neg (by rw [hfailed, hterminal]; decide)]
      rfl
    apply (hhonoured _ _ _ _ _ _ draftRun terminal).mpr
    exact (draftRun.inOrder_iff terminal).mp hdocumented.symm

/-- Both backends answer; the map has the second one of the role first. -/
def swappedRun : SmartRun sampleRoles (sampleConfig "claude" "codex" (by decide)) (fun _ _ => true)
    (answering "") "draft" none [] where
  resolution := ⟨"draft", none, ["codex", "claude"], .first, false⟩
  backends := ["claude", "codex"]
  trace := inTurn (query (strategyConfig (sampleConfig "claude" "codex" (by decide)) .first)
    (answering "")) ["claude", "codex"]
  resolved := by decide
  found := by decide
  runs := .sequential rfl rfl

/-- Both backends answer, and one success would do. -/
def quickRun : SmartRun sampleRoles (sampleConfig "codex" "claude" (by decide)) (fun _ _ => true)
    (answering "") "quick" none [] where
  resolution := ⟨"quick", none, ["codex", "claude"], .parallel 1 none, false⟩
  backends := ["codex", "claude"]
  trace := ["codex", "claude"].map Event.asked ++ (["codex", "claude"].map (query
    (strategyConfig (sampleConfig "codex" "claude" (by decide)) (.parallel 1 none))
    (answering ""))).map Event.answered
  resolved := by decide
  found := by decide
  runs := .parallel rfl (joined_of_perm (List.Perm.refl _) fun backend => backend_queryOne _ _ _)

/-- The validated role asks for two successes when one backend is left; a role whose first success
should end the run asks both backends, the second one first; and a run that needs one success
waits for both. -/
theorem routing_not_honoured :
    (sampleRoles.validate ["codex", "claude"]).2 = [] ∧
    (∃ res, sampleRoles.resolve "review" none ["claude"] = .ok res ∧
      res.strategy = .parallel 2 none ∧ res.backends = ["claude"]) ∧
    swappedRun.resolution.strategy = .first ∧
    swappedRun.trace.filterMap Event.question = ["claude", "codex"] ∧
    ∀ terminal, ¬ swappedRun.Honoured terminal ∧ ¬ quickRun.Honoured terminal := by
  have hresolved : sampleRoles.resolve "review" none ["claude"] =
      .ok ⟨"review", none, ["claude"], .parallel 2 none, false⟩ := by decide
  refine ⟨by decide, ⟨_, hresolved, rfl, rfl⟩, rfl, questions_inTurn _ _, ?_⟩
  intro terminal
  constructor
  · intro h
    have hdocumented : swappedRun.documented terminal = ["codex"] := rfl
    have htrace : swappedRun.trace = inTurn swappedRun.ask (swappedRun.documented terminal) := h
    rw [hdocumented] at htrace
    have hlists : ["claude", "codex"] = ["codex"] := inTurn_inj.mp htrace
    exact absurd hlists (by decide)
  · intro h
    have hquorum : quickRun.EndsAtQuorum 1 := (quickRun.atQuorum_iff 1 rfl).mp h
    have hcount :
        quickRun.backends.countP (fun backend => (quickRun.ask backend).success) = 2 := rfl
    rw [SmartRun.EndsAtQuorum, hcount] at hquorum
    omega

end Samples

end Loker.RoleRouting
