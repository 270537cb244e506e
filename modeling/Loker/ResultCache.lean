import Loker.TextOps

/-! The cache of query results: keys, files with a time stamp, expiry, and runs of processes that set
and get, each with its own configuration and clock. -/

namespace Loker.ResultCache

section Entries

structure QueryResult where
  backend : String
  output : String
  success : Bool
  elapsedMs : UInt64
  error : Option String
  deriving DecidableEq, Repr

structure CachedResult where
  backend : String
  output : String
  success : Bool
  elapsedMs : UInt64
  deriving DecidableEq, Repr

structure CacheEntry where
  timestamp : UInt64
  results : List CachedResult
  deriving DecidableEq, Repr

structure CacheConfig where
  enabled : Bool
  ttlHours : UInt64
  deriving DecidableEq, Repr

/-- What is asked. -/
structure Question where
  prompt : String
  backends : List String
  cwd : String
  deriving DecidableEq, Repr

def toCached (r : QueryResult) : CachedResult := ⟨r.backend, r.output, r.success, r.elapsedMs⟩

def ofCached (r : CachedResult) : QueryResult := ⟨r.backend, r.output, r.success, r.elapsedMs, none⟩

def asBytes (s : String) : List UInt8 := s.toByteArray.data.toList

/-- What the hasher is given. -/
def keyBytes (q : Question) : List UInt8 :=
  (q.backends.foldl (fun bytes backend => bytes ++ asBytes backend) (asBytes q.prompt)) ++
    asBytes q.cwd

def cacheKey (sha256 : List UInt8 → String) (q : Question) : String := sha256 (keyBytes q)

end Entries

section Operations

/-- What a file of the cache holds: an entry, or text that is none. -/
inductive Content where
  | entry (e : CacheEntry)
  | other
  deriving DecidableEq, Repr

abbrev Files := String → Option Content

inductive Outcome where
  | done
  | panicked
  | answer (results : Option (List QueryResult))
  deriving DecidableEq, Repr

/-- With overflow checks an overflow is a panic, without them it wraps. -/
def mulU64 (checks : Bool) (a b : UInt64) : Option UInt64 :=
  if checks && 2 ^ 64 ≤ a.toNat * b.toNat then none else some (a * b)

def subU64 (checks : Bool) (a b : UInt64) : Option UInt64 :=
  if checks && a < b then none else some (a - b)

/-- The time to live that `Cache::new` computes, in seconds. -/
def ttlSecs (checks : Bool) (config : CacheConfig) : Option UInt64 :=
  mulU64 checks config.ttlHours 3600

def fileName (key : String) : String := key ++ ".json"

/-- Reading or removing the file may fail; the clock may be before the epoch. -/
structure GetInputs where
  clock : Option UInt64
  readFails : Bool
  removeFails : Bool
  deriving DecidableEq, Repr

def get (checks : Bool) (config : CacheConfig) (ttl : UInt64) (files : Files) (key : String)
    (inputs : GetInputs) : Files × Outcome :=
  if !config.enabled then (files, .answer none)
  else if inputs.readFails then (files, .answer none)
  else
    match files (fileName key) with
    | none => (files, .answer none)
    | some .other => (files, .answer none)
    | some (.entry e) =>
        match inputs.clock with
        | none => (files, .answer none)
        | some now =>
            match subU64 checks now e.timestamp with
            | none => (files, .panicked)
            | some age =>
                if ttl < age then
                  if inputs.removeFails then (files, .answer none)
                  else (fun name => if name = fileName key then none else files name, .answer none)
                else (files, .answer (some (e.results.map ofCached)))

/-- Where setting fails: at the directory, at opening the file, or with a part of it written. -/
inductive SetFault where
  | directory
  | opening
  | writing
  deriving DecidableEq, Repr

def set (config : CacheConfig) (files : Files) (key : String) (results : List QueryResult)
    (clock : Option UInt64) (fault : Option SetFault) : Files :=
  if !config.enabled then files
  else
    match clock with
    | none => files
    | some timestamp =>
        match fault with
        | some .directory => files
        | some .opening => files
        | some .writing => fun name => if name = fileName key then some .other else files name
        | none => fun name =>
            if name = fileName key then some (.entry ⟨timestamp, results.map toCached⟩)
            else files name

end Operations

section Runs

/-- Results that were set, with the time. -/
structure Stored where
  question : Question
  results : List QueryResult
  timestamp : UInt64
  deriving DecidableEq, Repr

/-- The files, and what has been set, the newest first. -/
structure State where
  files : Files
  history : List Stored

inductive Action where
  | set (config : CacheConfig) (question : Question) (results : List QueryResult)
      (clock : Option UInt64) (fault : Option SetFault)
  | get (config : CacheConfig) (question : Question) (inputs : GetInputs)

variable (sha256 : List UInt8 → String) (checks : Bool)

/-- One process with its own cache object. -/
def step (s : State) : Action → State × Outcome
  | .set config question results clock fault =>
      match ttlSecs checks config with
      | none => (s, .panicked)
      | some _ =>
          let files := set config s.files (cacheKey sha256 question) results clock fault
          match config.enabled, clock, fault with
          | true, some timestamp, none =>
              (⟨files, ⟨question, results, timestamp⟩ :: s.history⟩, .done)
          | _, _, _ => (⟨files, s.history⟩, .done)
  | .get config question inputs =>
      match ttlSecs checks config with
      | none => (s, .panicked)
      | some ttl =>
          let found := get checks config ttl s.files (cacheKey sha256 question) inputs
          (⟨found.1, s.history⟩, found.2)

def initial : State := ⟨fun _ => none, []⟩

/-- The states after actions that the condition admits in the state before them. -/
inductive Reached (admits : State → Action → Prop) : State → Prop
  | start : Reached admits initial
  | step {s : State} {a : Action} (before : Reached admits s) (admitted : admits s a) :
      Reached admits (step sha256 checks s a).1

/-- The step overflows nowhere, and results are returned only if they are the last ones that were
set for the question, at most as long ago as the configuration says. -/
structure Fresh (s : State) (a : Action) (outcome : Outcome) : Prop where
  computed : outcome ≠ .panicked
  own : ∀ config question inputs results, a = .get config question inputs →
    outcome = .answer (some results) → ∃ stored now,
      s.history.find? (·.question = question) = some stored ∧ inputs.clock = some now ∧
        results = stored.results.map (ofCached ∘ toCached) ∧ stored.timestamp ≤ now ∧
          now.toNat - stored.timestamp.toNat ≤ config.ttlHours.toNat * 3600

def Action.config : Action → CacheConfig
  | .set config .. => config
  | .get config .. => config

/-- A get that finds an entry and reads the clock. -/
structure Looks (s : State) (config : CacheConfig) (question : Question) (inputs : GetInputs)
    (e : CacheEntry) (now : UInt64) : Prop where
  enabled : config.enabled = true
  reads : inputs.readFails = false
  found : s.files (fileName (cacheKey sha256 question)) = some (.entry e)
  clock : inputs.clock = some now

/-- The hours are fewer than `2 ^ 64` seconds, what a get finds was not set later than now, and, if
it is not too old, the last one to set something under the same bytes asked the same. -/
structure Admitted (s : State) (a : Action) : Prop where
  hours : a.config.ttlHours.toNat * 3600 < 2 ^ 64
  clock : ∀ config question inputs e now, a = .get config question inputs →
    Looks sha256 s config question inputs e now → e.timestamp ≤ now
  apart : ∀ config question inputs e now, a = .get config question inputs →
    Looks sha256 s config question inputs e now →
      now.toNat - e.timestamp.toNat ≤ config.ttlHours.toNat * 3600 →
        ∀ stored, s.history.find? (keyBytes ·.question = keyBytes question) = some stored →
          stored.question = question

end Runs

section Freshness

variable {sha256 : List UInt8 → String} {checks : Bool} {admits : State → Action → Prop}
  {s : State}

lemma fileName_injective {key key' : String} (h : fileName key = fileName key') : key = key' := by
  have hlist := congrArg String.toList h
  rw [fileName, fileName, String.toList_append, String.toList_append] at hlist
  exact String.toList_inj.mp (List.append_cancel_right hlist)

/-- Two questions have one file if and only if the hasher is given the same bytes. -/
lemma fileName_iff (hinj : Function.Injective sha256) {q q' : Question} :
    fileName (cacheKey sha256 q) = fileName (cacheKey sha256 q') ↔ keyBytes q = keyBytes q' := by
  constructor
  · exact fun h => hinj (fileName_injective h)
  · intro h
    rw [cacheKey, cacheKey, h]

/-- Every entry in a file is what was set last under the same bytes. -/
def Backed (sha256 : List UInt8 → String) (s : State) : Prop :=
  ∀ q e, s.files (fileName (cacheKey sha256 q)) = some (.entry e) →
    ∃ stored, s.history.find? (keyBytes ·.question = keyBytes q) = some stored ∧
      e = ⟨stored.timestamp, stored.results.map toCached⟩

/-- A get changes nothing or removes the file. -/
lemma get_files (checks : Bool) (config : CacheConfig) (ttl : UInt64) (files : Files)
    (key : String) (inputs : GetInputs) (name : String) :
    (get checks config ttl files key inputs).1 name = files name ∨
      (get checks config ttl files key inputs).1 name = none := by
  unfold get
  repeat' split
  all_goals try exact Or.inl rfl
  next h =>
    by_cases hname : name = fileName key
    · exact Or.inr (if_pos hname)
    · exact Or.inl (if_neg hname)

/-- A set that does not write the file whole leaves no other entry than before. -/
lemma set_entry {config : CacheConfig} {files : Files} {key name : String}
    {results : List QueryResult} {clock : Option UInt64} {fault : Option SetFault} {e : CacheEntry}
    (h : set config files key results clock fault name = some (.entry e))
    (hfails : config.enabled = false ∨ clock = none ∨ fault ≠ none) :
    files name = some (.entry e) := by
  cases henabled : config.enabled with
  | false => simpa [set, henabled] using h
  | true =>
      cases clock with
      | none => simpa [set, henabled] using h
      | some timestamp =>
          cases fault with
          | none =>
              rcases hfails with hdisabled | hclock | hfault
              · rw [henabled] at hdisabled
                cases hdisabled
              · cases hclock
              · exact absurd rfl hfault
          | some fault =>
              cases fault with
              | directory => simpa [set, henabled] using h
              | opening => simpa [set, henabled] using h
              | writing =>
                  simp only [set, henabled, Bool.not_true, Bool.false_eq_true, if_false] at h
                  split at h
                  · cases h
                  · exact h

lemma set_whole {config : CacheConfig} (henabled : config.enabled = true) (files : Files)
    (key name : String) (results : List QueryResult) (timestamp : UInt64) :
    set config files key results (some timestamp) none name =
      if name = fileName key then some (.entry ⟨timestamp, results.map toCached⟩)
      else files name := by
  simp only [set, henabled, Bool.not_true, Bool.false_eq_true, if_false]

lemma backed_step (hinj : Function.Injective sha256) (h : Backed sha256 s) (a : Action) :
    Backed sha256 (step sha256 checks s a).1 := by
  cases a with
  | get config question inputs =>
      rw [step]
      cases ttlSecs checks config with
      | none => exact h
      | some ttl =>
          intro q e he
          have hfiles := get_files checks config ttl s.files (cacheKey sha256 question) inputs
            (fileName (cacheKey sha256 q))
          rcases hfiles with hsame | hnone
          · exact h q e (hsame.symm.trans he)
          · exact absurd (hnone.symm.trans he) nofun
  | set config question results clock fault =>
      rw [step]
      cases ttlSecs checks config with
      | none => exact h
      | some ttl =>
          have hpartly : (config.enabled = false ∨ clock = none ∨ fault ≠ none) →
              Backed sha256 ⟨set config s.files (cacheKey sha256 question) results clock fault,
                s.history⟩ := fun hfails q e he => h q e (set_entry he hfails)
          cases henabled : config.enabled with
          | false => exact hpartly (Or.inl henabled)
          | true =>
              cases clock with
              | none => exact hpartly (Or.inr (Or.inl rfl))
              | some timestamp =>
                  cases fault with
                  | some fault => exact hpartly (Or.inr (Or.inr nofun))
                  | none =>
                      intro q e he
                      replace he := (set_whole henabled _ _ _ _ _).symm.trans he
                      by_cases hname : fileName (cacheKey sha256 q) =
                          fileName (cacheKey sha256 question)
                      · rw [if_pos hname] at he
                        cases he
                        have hbytes := (fileName_iff hinj).mp hname
                        exact ⟨⟨question, results, timestamp⟩,
                          List.find?_cons_of_pos (by simp [hbytes]), rfl⟩
                      · rw [if_neg hname] at he
                        obtain ⟨stored, hfound, heq⟩ := h q e he
                        have hbytes : ¬ keyBytes question = keyBytes q := fun heq =>
                          hname ((fileName_iff hinj).mpr heq.symm)
                        refine ⟨stored, ?_, heq⟩
                        rw [List.find?_cons_of_neg (by simpa using hbytes)]
                        exact hfound

/-- In every run, whatever it asks, every entry is backed. -/
lemma Reached.backed (hinj : Function.Injective sha256) (h : Reached sha256 checks admits s) :
    Backed sha256 s := by
  induction h with
  | start => exact fun q e he => nomatch he
  | step before admitted ih => exact backed_step hinj ih _

lemma find?_of_find? {α : Type} {p q : α → Bool} {xs : List α} {x : α}
    (h : xs.find? p = some x) (hx : q x = true) (hsub : ∀ y, q y = true → p y = true) :
    xs.find? q = some x := by
  induction xs with
  | nil => cases h
  | cons y xs ih =>
      by_cases hp : p y = true
      · rw [List.find?_cons_of_pos hp] at h
        cases h
        exact List.find?_cons_of_pos hx
      · rw [List.find?_cons_of_neg hp] at h
        rw [List.find?_cons_of_neg fun hq => hp (hsub y hq)]
        exact ih h

lemma ttlSecs_eq (checks : Bool) {config : CacheConfig} (h : config.ttlHours.toNat * 3600 < 2 ^ 64) :
    ∃ ttl, ttlSecs checks config = some ttl ∧ ttl.toNat = config.ttlHours.toNat * 3600 := by
  have hhour : (3600 : UInt64).toNat = 3600 := rfl
  refine ⟨config.ttlHours * 3600, ?_, ?_⟩
  · rw [ttlSecs, mulU64, hhour, if_neg]
    simp only [Bool.and_eq_true, decide_eq_true_eq, not_and]
    intro _
    omega
  · rw [UInt64.toNat_mul, hhour, Nat.mod_eq_of_lt h]

lemma subU64_eq (checks : Bool) {now timestamp : UInt64} (h : timestamp ≤ now) :
    ∃ age, subU64 checks now timestamp = some age ∧
      age.toNat = now.toNat - timestamp.toNat := by
  refine ⟨now - timestamp, ?_, UInt64.toNat_sub_of_le _ _ h⟩
  rw [subU64, if_neg]
  simp only [Bool.and_eq_true, decide_eq_true_eq, not_and]
  exact fun _ hlt => absurd h (UInt64.not_le.mpr hlt)

/-- A get answers nothing, or it looks at an entry and the clock. -/
lemma get_outcome (sha256 : List UInt8 → String) (checks : Bool) (s : State) (config : CacheConfig)
    (ttl : UInt64) (question : Question) (inputs : GetInputs) :
    (get checks config ttl s.files (cacheKey sha256 question) inputs).2 = .answer none ∨
      ∃ e now, Looks sha256 s config question inputs e now ∧
        (get checks config ttl s.files (cacheKey sha256 question) inputs).2 =
          match subU64 checks now e.timestamp with
          | none => .panicked
          | some age =>
              if ttl < age then .answer none else .answer (some (e.results.map ofCached)) := by
  cases henabled : config.enabled with
  | false => exact Or.inl (by simp [get, henabled])
  | true =>
      cases hreads : inputs.readFails with
      | true => exact Or.inl (by simp [get, hreads])
      | false =>
          cases hfile : s.files (fileName (cacheKey sha256 question)) with
          | none => exact Or.inl (by simp [get, hfile])
          | some content =>
              cases content with
              | other => exact Or.inl (by simp [get, hfile])
              | entry e =>
                  cases hclock : inputs.clock with
                  | none => exact Or.inl (by simp [get, hfile, hclock])
                  | some now =>
                      refine Or.inr ⟨e, now, ⟨henabled, hreads, hfile, hclock⟩, ?_⟩
                      simp only [get, henabled, hreads, hfile, hclock, Bool.not_true,
                        Bool.false_eq_true, if_false]
                      cases subU64 checks now e.timestamp with
                      | none => rfl
                      | some age =>
                          dsimp only
                          split
                          · split <;> rfl
                          · rfl

/-- In every run whose steps have fewer than `2 ^ 64` seconds to live, no clock behind what is found
and no other question with the same bytes, each step is computed without overflow and returns
only the last results of its question. -/
theorem reached_fresh (hinj : Function.Injective sha256)
    (h : Reached sha256 checks (Admitted sha256) s) {a : Action} (ha : Admitted sha256 s a) :
    Fresh s a (step sha256 checks s a).2 := by
  have hbacked := h.backed hinj
  obtain ⟨ttl, httl, httlNat⟩ := ttlSecs_eq checks ha.hours
  cases a with
  | set config question results clock fault =>
      have hdone : (step sha256 checks s (.set config question results clock fault)).2 = .done := by
        rw [step, show ttlSecs checks config = some ttl from httl]
        dsimp only
        split <;> rfl
      rw [hdone]
      exact ⟨nofun, nofun⟩
  | get config question inputs =>
      have hget : (step sha256 checks s (.get config question inputs)).2 =
          (get checks config ttl s.files (cacheKey sha256 question) inputs).2 := by
        rw [step, show ttlSecs checks config = some ttl from httl]
      rw [hget]
      rcases get_outcome sha256 checks s config ttl question inputs with hnone | ⟨e, now, hlooks, heq⟩
      · rw [hnone]
        exact ⟨nofun, nofun⟩
      · have hle := ha.clock config question inputs e now rfl hlooks
        obtain ⟨age, hage, hageNat⟩ := subU64_eq checks hle
        rw [heq, hage]
        dsimp only
        split
        · exact ⟨nofun, nofun⟩
        · next hyoung =>
          have hwithin : now.toNat - e.timestamp.toNat ≤ config.ttlHours.toNat * 3600 := by
            have hle := UInt64.le_iff_toNat_le.mp (UInt64.not_lt.mp hyoung)
            rwa [hageNat, httlNat] at hle
          obtain ⟨stored, hfound, rfl⟩ := hbacked question e hlooks.found
          have hsame := ha.apart config question inputs _ now rfl hlooks hwithin stored hfound
          refine ⟨nofun, ?_⟩
          rintro config' question' inputs' results heq' hanswer
          cases heq'
          cases hanswer
          refine ⟨stored, now, ?_, hlooks.clock, ?_, hle, hwithin⟩
          · refine find?_of_find? hfound (decide_eq_true hsame) fun other hother => ?_
            exact decide_eq_true (congrArg keyBytes (of_decide_eq_true hother))
          · rw [List.map_map]

end Freshness

section Samples

/-- A digest without collisions: a character for each byte. -/
def sampleDigest (bytes : List UInt8) : String :=
  String.ofList (bytes.map fun b => Char.ofNat b.toNat)

lemma sampleDigest_injective : Function.Injective sampleDigest := by
  intro bytes bytes' h
  have hlists := String.ofList_inj.mp h
  refine List.map_injective_iff.mpr (fun b b' hb => ?_) hlists
  have hnat : ∀ b : UInt8, (Char.ofNat b.toNat).toNat = b.toNat := by
    intro b
    have hvalid : b.toNat.isValidChar := Or.inl (by have := b.toNat_lt; omega)
    rw [Char.ofNat, dif_pos hvalid]
    rfl
  have hsame := congrArg Char.toNat hb
  rw [hnat, hnat] at hsame
  exact UInt8.toNat_inj.mp hsame

def sampleResult : QueryResult := ⟨"codex", "none found", true, 10, none⟩

def daily : CacheConfig := ⟨true, 24⟩

def asked : Question := ⟨"list bugs in c", ["codex"], "/work"⟩

/-- The same bytes, split between the prompt and the backend in another way. -/
def otherAsked : Question := ⟨"list bugs in ", ["ccodex"], "/work"⟩

def setAsked : Action := .set daily asked [sampleResult] (some 100) none

def getAt (question : Question) (now : UInt64) : Action := .get daily question ⟨some now, false, false⟩

def afterSet : State := (step sampleDigest true initial setAsked).1

lemma afterSet_file (question : Question) (h : keyBytes question = keyBytes asked) :
    afterSet.files (fileName (cacheKey sampleDigest question)) =
      some (.entry ⟨100, [toCached sampleResult]⟩) := by
  have hfiles : afterSet.files = set daily initial.files (cacheKey sampleDigest asked)
      [sampleResult] (some 100) none := rfl
  rw [hfiles, set_whole rfl, cacheKey, cacheKey, h, if_pos rfl]
  rfl

theorem reached_fresh_daily :
    (step sampleDigest true afterSet (getAt asked 200)).2 = .answer (some [sampleResult]) ∧
      Fresh afterSet (getAt asked 200) (step sampleDigest true afterSet (getAt asked 200)).2 := by
  have hset : Admitted sampleDigest initial setAsked := ⟨by decide, nofun, nofun⟩
  have hget : Admitted sampleDigest afterSet (getAt asked 200) := by
    refine ⟨by decide, ?_, ?_⟩
    · rintro config question inputs e now ⟨⟩ hlooks
      have hfile := (afterSet_file asked rfl).symm.trans hlooks.found
      cases hfile
      have hclock := hlooks.clock
      cases hclock
      decide
    · rintro config question inputs e now ⟨⟩ - - stored hstored
      obtain rfl : (⟨asked, [sampleResult], 100⟩ : Stored) = stored := by
        simpa [afterSet, setAsked, step, ttlSecs, mulU64, daily, initial] using hstored
      rfl
  exact ⟨by decide, reached_fresh sampleDigest_injective (.step .start hset) hget⟩

/-- Another question with the same bytes gets the results, a clock that was set back underflows,
and a long time to live overflows. -/
theorem other_question_answered :
    keyBytes otherAsked = keyBytes asked ∧
    Reached sampleDigest true (fun _ _ => True) afterSet ∧
    (step sampleDigest true afterSet (getAt otherAsked 200)).2 = .answer (some [sampleResult]) ∧
    ¬ Fresh afterSet (getAt otherAsked 200)
      (step sampleDigest true afterSet (getAt otherAsked 200)).2 ∧
    (step sampleDigest true afterSet (getAt asked 50)).2 = .panicked ∧
    (step sampleDigest true initial (.get ⟨true, 5124095576030432⟩ asked
      ⟨some 50, false, false⟩)).2 = .panicked := by
  have hanswer : (step sampleDigest true afterSet (getAt otherAsked 200)).2 =
      .answer (some [sampleResult]) := by decide
  refine ⟨by decide, .step .start trivial, hanswer, fun h => ?_, by decide,
    by decide⟩
  obtain ⟨stored, now, hfound, -⟩ := h.own daily otherAsked _ [sampleResult] rfl hanswer
  have hnone : afterSet.history.find? (·.question = otherAsked) = none := by decide
  rw [hnone] at hfound
  cases hfound

end Samples

end Loker.ResultCache
