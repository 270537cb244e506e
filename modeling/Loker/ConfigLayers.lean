import Loker.FileTree
import Loker.LayeredTrees

/-! The layers of the configuration: the defaults, the user's file and the project's file, merged as
untyped trees and decoded once. -/

namespace Loker.ConfigLayers

open FileTree LayeredTrees

section Merge

mutual

/-- Tables recurse; scalars and arrays replace. -/
def deepMerge (base : Value) : Value → Value
  | .table overlay =>
      match base with
      | .table entries => .table (mergeEntries entries overlay)
      | _ => .table overlay
  | overlay => overlay
termination_by structural overlay => overlay

def mergeEntries (base : List (String × Value)) :
    List (String × Value) → List (String × Value)
  | [] => base
  | entry :: overlay => mergeEntries (mergeEntry base entry) overlay
termination_by structural overlay => overlay

/-- An existing value is merged in its place, and a new one is inserted. -/
def mergeEntry (base : List (String × Value)) : String × Value → List (String × Value)
  | (key, value) =>
      match base.lookup key with
      | some existing =>
          let replaced := deepMerge existing value
          base.map fun entry => if entry.1 = key then (key, replaced) else entry
      | none => base ++ [(key, value)]
termination_by structural entry => entry

end

lemma lookup_mergeEntry (base : List (String × Value)) (key : String) (value : Value)
    (k : String) : (mergeEntry base (key, value)).lookup k =
      if k = key then mergeOptions deepMerge (base.lookup key) (some value)
      else base.lookup k := by
  have hreplaced : ∀ (entries : List (String × Value)) (w : Value),
      (entries.map fun entry => if entry.1 = key then (key, w) else entry).lookup k =
        if k = key then (entries.lookup key).map fun _ => w else entries.lookup k := by
    intro entries w
    induction entries with
    | nil => simp
    | cons entry entries ih =>
        obtain ⟨name, v⟩ := entry
        rw [List.map_cons]
        by_cases hname : name = key
        · subst hname
          rw [if_pos rfl, lookup_cons_self]
          by_cases hk : k = name
          · subst hk
            rw [lookup_cons_self, if_pos rfl]
            rfl
          · rw [lookup_cons_of_ne hk, lookup_cons_of_ne hk, ih, if_neg hk, if_neg hk]
        · rw [if_neg hname, lookup_cons_of_ne (Ne.symm hname)]
          by_cases hkn : k = name
          · subst hkn
            rw [lookup_cons_self, lookup_cons_self, if_neg hname]
          · rw [lookup_cons_of_ne hkn, lookup_cons_of_ne hkn, ih]
  have hinserted : base.lookup key = none → (base ++ [(key, value)]).lookup k =
      if k = key then some value else base.lookup k := by
    intro hnone
    rw [List.lookup_append]
    by_cases hk : k = key
    · subst hk
      rw [hnone, lookup_cons_self, if_pos rfl]
      rfl
    · rw [lookup_cons_of_ne hk, if_neg hk]
      exact Option.or_none
  rw [mergeEntry]
  cases hbase : base.lookup key with
  | none => exact hinserted hbase
  | some existing =>
      dsimp only
      rw [hreplaced, hbase]
      rfl

lemma mergeEntry_nodup {base : List (String × Value)} (hbase : (base.map Prod.fst).Nodup)
    (key : String) (value : Value) : ((mergeEntry base (key, value)).map Prod.fst).Nodup := by
  rw [mergeEntry]
  cases hlookup : base.lookup key with
  | none =>
      have hfresh : key ∉ base.map Prod.fst := by
        intro hmem
        rw [← lookup_isSome, hlookup] at hmem
        cases hmem
      dsimp only
      rw [List.map_append, List.nodup_append]
      refine ⟨hbase, List.nodup_singleton _, ?_⟩
      intro a ha b hb heq
      rw [List.map_singleton, List.mem_singleton] at hb
      rw [heq, hb] at ha
      exact hfresh ha
  | some existing =>
      have hkeys : (base.map fun entry => if entry.1 = key then
          (key, deepMerge existing value) else entry).map Prod.fst = base.map Prod.fst := by
        rw [List.map_map]
        refine List.map_congr_left fun entry _ => ?_
        by_cases hentry : entry.1 = key
        · simp [hentry]
        · simp [hentry]
      dsimp only
      rw [hkeys]
      exact hbase

/-- Under each key of the merged tables is what they have there, merged. -/
lemma mergeEntries_spec {base overlay : List (String × Value)}
    (hbase : (base.map Prod.fst).Nodup) (hoverlay : (overlay.map Prod.fst).Nodup) :
    ((mergeEntries base overlay).map Prod.fst).Nodup ∧ ∀ key,
      (mergeEntries base overlay).lookup key =
        mergeOptions deepMerge (base.lookup key) (overlay.lookup key) := by
  induction overlay generalizing base with
  | nil =>
      rw [mergeEntries]
      refine ⟨hbase, fun key => ?_⟩
      cases base.lookup key <;> rfl
  | cons entry overlay ih =>
      obtain ⟨name, value⟩ := entry
      obtain ⟨hfresh, hrest⟩ := List.nodup_cons.mp hoverlay
      obtain ⟨hnodup, hlookup⟩ := ih (mergeEntry_nodup hbase name value) hrest
      rw [mergeEntries]
      refine ⟨hnodup, fun key => ?_⟩
      rw [hlookup, lookup_mergeEntry]
      by_cases hkey : key = name
      · subst hkey
        have hnone : overlay.lookup key = none := by
          rw [← Option.not_isSome_iff_eq_none, lookup_isSome]
          exact hfresh
        rw [if_pos rfl, hnone, lookup_cons_self]
        rfl
      · rw [if_neg hkey, lookup_cons_of_ne hkey]

theorem deepMerge_rightBiased : RightBiased deepMerge where
  tables hbase hoverlay := by
    obtain ⟨hnodup, hlookup⟩ := mergeEntries_spec hbase hoverlay
    exact ⟨_, by rw [deepMerge], hnodup, hlookup⟩
  other := by
    intro base overlay h
    cases overlay with
    | table entries =>
        cases base with
        | table base => simp [Value.isTable] at h
        | _ => rw [deepMerge]; simp
    | _ => rw [deepMerge]; simp

end Merge

section Settings

inductive AttemptRetention where
  | unbounded
  | keep (count : ℕ)
  deriving DecidableEq, Repr

inductive RoutingStrategy where
  | first
  | parallel (minSuccess : ℕ) (timeoutSecs : Option ℕ)
  | fallback (timeoutSecs : Option ℕ)
  deriving DecidableEq, Repr

structure TaskPrompt where
  name : String
  prompt : String
  deriving DecidableEq, Repr

/-- What the fields of the configuration hold. -/
inductive Setting where
  | flag (b : Bool)
  | number (n : ℕ)
  | text (s : String)
  | texts (xs : List String)
  | prompts (xs : List TaskPrompt)
  | retention (r : AttemptRetention)
  | strategy (s : RoutingStrategy)
  deriving DecidableEq, Repr

def bool : Value → Option Bool
  | .boolean b => some b
  | _ => none

/-- A TOML integer is signed and has 64 bits. -/
def unsigned : Value → Option ℕ
  | .integer i => if 0 ≤ i then some i.toNat else none
  | _ => none

/-- A datetime is decoded as its text. -/
def text : Value → Option String
  | .string s => some s
  | .datetime s => some s
  | _ => none

def texts : Value → Option (List String)
  | .array items => items.mapM text
  | _ => none

/-- A field of a struct variant that may be left out of a table. -/
def optionalUnsigned : Option Value → Option (Option ℕ)
  | none => some none
  | some v => (unsigned v).map some

def textLeaf {α : Type} (f : String → α) : Leaf α :=
  .plain (fun v => (text v).map f) fun _ => rfl

def taskPromptSchema : Schema String :=
  .struct ["name", "prompt"] (fun _ => .setting (textLeaf id)) fun _ => .error

def taskPrompt (v : Value) : Option TaskPrompt := do
  let tree ← decode taskPromptSchema v
  let name ← tree.setting ["name"]
  let prompt ← tree.setting ["prompt"]
  some ⟨name, prompt⟩

def prompts : Value → Option (List TaskPrompt)
  | .array items => items.mapM taskPrompt
  | _ => none

def keepAttempts : List (String × Variant Setting) :=
  [("unbounded", .unit (.retention .unbounded)),
    ("keep", .newtype (fun v => (unsigned v).map fun n => .retention (.keep n)) fun _ => rfl)]

def parallelFields : List (Option Value) → Option Setting
  | [some minSuccess, timeoutSecs] => do
      let m ← unsigned minSuccess
      let t ← optionalUnsigned timeoutSecs
      some (.strategy (.parallel m t))
  | _ => none

def fallbackFields : List (Option Value) → Option Setting
  | [timeoutSecs] => (optionalUnsigned timeoutSecs).map fun t => .strategy (.fallback t)
  | _ => none

lemma isTable_of_unsigned {v : Value} {n : ℕ} (h : unsigned v = some n) : v.isTable = false := by
  cases v with
  | table entries => cases h
  | _ => rfl

lemma isTable_of_optional {v : Value} {n : Option ℕ} (h : optionalUnsigned (some v) = some n) :
    v.isTable = false := by
  obtain ⟨m, hm, -⟩ := Option.map_eq_some_iff.mp h
  exact isTable_of_unsigned hm

lemma isSome_of_optional {field : Option Value} {n : Option ℕ}
    (h : optionalUnsigned field = some n) : field.isSome = n.isSome := by
  cases field with
  | none =>
      cases h
      rfl
  | some v =>
      obtain ⟨m, -, rfl⟩ := Option.map_eq_some_iff.mp h
      rfl

lemma parallelFields_eq {fields : List (Option Value)} {a : Setting}
    (h : parallelFields fields = some a) : ∃ v field m t, fields = [some v, field] ∧
      unsigned v = some m ∧ optionalUnsigned field = some t ∧ a = .strategy (.parallel m t) := by
  unfold parallelFields at h
  split at h
  · next v field =>
    obtain ⟨m, hm, h⟩ := Option.bind_eq_some_iff.mp h
    obtain ⟨t, ht, h⟩ := Option.bind_eq_some_iff.mp h
    cases h
    exact ⟨v, field, m, t, rfl, hm, ht, rfl⟩
  · cases h

lemma fallbackFields_eq {fields : List (Option Value)} {a : Setting}
    (h : fallbackFields fields = some a) : ∃ field t, fields = [field] ∧
      optionalUnsigned field = some t ∧ a = .strategy (.fallback t) := by
  unfold fallbackFields at h
  split at h
  · next field =>
    obtain ⟨t, ht, rfl⟩ := Option.map_eq_some_iff.mp h
    exact ⟨field, t, rfl, ht, rfl⟩
  · cases h

def parallelVariant : Variant Setting :=
  .struct ["min_success", "timeout_secs"] parallelFields
    (by
      intro fields a h v hv
      obtain ⟨w, field, m, t, rfl, hm, ht, -⟩ := parallelFields_eq h
      rcases List.mem_cons.mp hv with heq | hmem
      · cases heq
        exact isTable_of_unsigned hm
      · obtain rfl := List.mem_singleton.mp hmem
        exact isTable_of_optional ht)
    (by
      intro fields others a h h'
      obtain ⟨v, field, m, t, rfl, -, ht, rfl⟩ := parallelFields_eq h
      obtain ⟨v', field', m', t', rfl, -, ht', heq⟩ := parallelFields_eq h'
      cases heq
      simp [isSome_of_optional ht, isSome_of_optional ht'])

def fallbackVariant : Variant Setting :=
  .struct ["timeout_secs"] fallbackFields
    (by
      intro fields a h v hv
      obtain ⟨field, t, rfl, ht, -⟩ := fallbackFields_eq h
      obtain rfl := List.mem_singleton.mp hv
      exact isTable_of_optional ht)
    (by
      intro fields others a h h'
      obtain ⟨field, t, rfl, ht, rfl⟩ := fallbackFields_eq h
      obtain ⟨field', t', rfl, ht', heq⟩ := fallbackFields_eq h'
      cases heq
      simp [isSome_of_optional ht, isSome_of_optional ht'])

def routingStrategy : List (String × Variant Setting) :=
  [("First", .unit (.strategy .first)), ("Parallel", parallelVariant),
    ("Fallback", fallbackVariant)]

end Settings

section Schemas

def boolField : Schema Setting := .setting (.plain (fun v => (bool v).map .flag) fun _ => rfl)

def unsignedField : Schema Setting :=
  .setting (.plain (fun v => (unsigned v).map .number) fun _ => rfl)

def textField : Schema Setting := .setting (textLeaf .text)

def textsField : Schema Setting := .setting (.plain (fun v => (texts v).map .texts) fun _ => rfl)

def promptsField : Schema Setting :=
  .setting (.plain (fun v => (prompts v).map .prompts) fun _ => rfl)

/-- A struct with its fields in their order; unknown fields are denied. -/
def record (fields : List (String × Missing Setting × Schema Setting)) : Schema Setting :=
  .struct (fields.map Prod.fst) (fun key => ((fields.lookup key).map Prod.snd).getD (.map boolField))
    fun key => ((fields.lookup key).map Prod.fst).getD .error

def defaultTo (value : Setting) : Missing Setting := .default (some (.leaf value))

def defaultsDefault : Decoded Setting :=
  .node [("parallel", .leaf (.flag true)), ("timeout", .leaf (.number 300)),
    ("max_retries", .leaf (.number 0)), ("retry_delay_ms", .leaf (.number 1000))]

def defaultsSchema : Schema Setting := record
  [("parallel", defaultTo (.flag true), boolField),
    ("timeout", defaultTo (.number 300), unsignedField),
    ("max_retries", defaultTo (.number 0), unsignedField),
    ("retry_delay_ms", defaultTo (.number 1000), unsignedField),
    ("command_wrapper", .default none, textField),
    ("team", .default none, textField)]

def conductorDefault : Decoded Setting :=
  .node [("max_rounds", .leaf (.number 5)), ("max_tokens", .leaf (.number 4096))]

def conductorConfig : Schema Setting := record
  [("max_rounds", defaultTo (.number 5), unsignedField),
    ("max_tokens", defaultTo (.number 4096), unsignedField)]

def cacheDefault : Decoded Setting :=
  .node [("enabled", .leaf (.flag true)), ("ttl_hours", .leaf (.number 24))]

def cacheConfig : Schema Setting := record
  [("enabled", defaultTo (.flag true), boolField),
    ("ttl_hours", defaultTo (.number 24), unsignedField)]

def retryPolicyDefault : Decoded Setting :=
  .node [("max_retries", .leaf (.number 0)), ("delay_ms", .leaf (.number 1000))]

def retryPolicyConfig : Schema Setting := record
  [("max_retries", defaultTo (.number 0), unsignedField),
    ("delay_ms", defaultTo (.number 1000), unsignedField)]

def tensorzeroConfig : Schema Setting := record
  [("endpoint", .error, textField), ("default_model", .error, textField),
    ("api_key_env", .default none, textField),
    ("timeout_secs", defaultTo (.number 60), unsignedField),
    ("retry_policy", .default (some retryPolicyDefault), retryPolicyConfig)]

def backendConfig : Schema Setting := record
  [("enabled", defaultTo (.flag true), boolField), ("command", .absent, textField),
    ("args", defaultTo (.texts []), textsField), ("skip_lines", defaultTo (.number 0), unsignedField),
    ("api_key_env", .absent, textField), ("model", .absent, textField),
    ("timeout", .absent, unsignedField), ("max_retries", .absent, unsignedField),
    ("retry_delay_ms", .absent, unsignedField)]

def taskConfig : Schema Setting := record
  [("description", .absent, textField), ("backends", defaultTo (.texts []), textsField),
    ("prompts", defaultTo (.prompts []), promptsField)]

def roleConfig : Schema Setting := record
  [("backends", .error, textsField),
    ("strategy", defaultTo (.strategy (.fallback none)), .setting (.tagged routingStrategy))]

def teamConfig : Schema Setting := record [("roles", .default (some (.node [])), .map roleConfig)]

def runStateDefault : Decoded Setting := .node [("keep_attempts", .leaf (.retention .unbounded))]

def runStateConfig : Schema Setting := record
  [("keep_attempts", defaultTo (.retention .unbounded), .setting (.tagged keepAttempts))]

def configSchema : Schema Setting := record
  [("defaults", .default (some defaultsDefault), defaultsSchema),
    ("conductor", .default (some conductorDefault), conductorConfig),
    ("cache", .default (some cacheDefault), cacheConfig),
    ("tensorzero", .default none, tensorzeroConfig),
    ("backends", .default (some (.node [])), .map backendConfig),
    ("tasks", .default (some (.node [])), .map taskConfig),
    ("roles", .default (some (.node [])), .map roleConfig),
    ("teams", .default (some (.node [])), .map teamConfig),
    ("run_state", .default (some runStateDefault), runStateConfig)]

end Schemas

section Defaults

def backendEntry (command : String) (args : List String) (skipLines : ℕ) (model : Option String)
    (timeout : Option ℕ) : Decoded Setting :=
  .node ([("enabled", .leaf (.flag true)), ("command", .leaf (.text command)),
    ("args", .leaf (.texts args)), ("skip_lines", .leaf (.number skipLines))] ++
      (model.map fun m => ("model", .leaf (.text m))).toList ++
      (timeout.map fun t => ("timeout", .leaf (.number t))).toList)

def taskEntry (description : String) (backends : List String) (prompts : List TaskPrompt) :
    Decoded Setting :=
  .node [("description", .leaf (.text description)), ("backends", .leaf (.texts backends)),
    ("prompts", .leaf (.prompts prompts))]

def huntPrompts : List TaskPrompt :=
  [⟨"errors", "Find error handling problems in this codebase. Look for: unchecked errors, " ++
      "panics/crashes waiting to happen, missing input validation, swallowed exceptions. " ++
      "List up to 5 specific issues with file:line. Be concise."⟩,
    ⟨"perf", "Find performance issues in this codebase. Look for: inefficient loops, unnecessary " ++
      "allocations, blocking calls in async code, O(n^2) patterns, missing caching " ++
      "opportunities. List up to 5 specific issues with file:line. Be concise."⟩,
    ⟨"dead-code", "Find unused or dead code in this codebase. Look for: unreachable code, unused " ++
      "functions/methods, redundant conditions, commented-out code that should be " ++
      "removed. List up to 5 specific issues with file:line. Be concise."⟩]

def auditPrompts : List TaskPrompt :=
  [⟨"injection", "Search for injection vulnerabilities (SQL, command, code injection). Look for: " ++
      "unsanitized user input in queries/commands, string interpolation in SQL, shell " ++
      "command construction. List up to 5 specific issues with file:line. Be concise."⟩,
    ⟨"auth", "Search for authentication/authorization issues. Look for: missing auth checks, " ++
      "privilege escalation, insecure token handling, hardcoded credentials. List up to 5 " ++
      "specific issues with file:line. Be concise."⟩,
    ⟨"secrets", "Search for exposed secrets and sensitive data. Look for: hardcoded API keys, " ++
      "passwords in code, secrets in logs, sensitive data in error messages. List up to 5 " ++
      "specific issues with file:line. Be concise."⟩]

/-- `Config::default()`; what is none is left out. -/
def defaultConfig : Decoded Setting :=
  .node [("defaults", defaultsDefault), ("conductor", conductorDefault), ("cache", cacheDefault),
    ("backends", .node
      [("codex", backendEntry "codex" ["exec", "--json", "-s", "read-only"] 0 none none),
        ("gemini", backendEntry "npx" ["@google/gemini-cli"] 1 none (some 600)),
        ("claude", backendEntry "claude" [] 0 none none),
        ("ollama", backendEntry "http://localhost:11434" [] 0 (some "llama3.2") none)]),
    ("tasks", .node
      [("hunt", taskEntry "Find bugs and code issues" ["codex"] huntPrompts),
        ("audit", taskEntry "Security audit" ["gemini"] auditPrompts)]),
    ("roles", .node []), ("teams", .node []), ("run_state", runStateDefault)]

def promptValue (p : TaskPrompt) : Value :=
  .table [("name", .string p.name), ("prompt", .string p.prompt)]

def timeoutValue (timeoutSecs : Option ℕ) : List (String × Value) :=
  (timeoutSecs.map fun t => ("timeout_secs", Value.integer t)).toList

def settingValue : Setting → Value
  | .flag b => .boolean b
  | .number n => .integer n
  | .text s => .string s
  | .texts xs => .array (xs.map .string)
  | .prompts xs => .array (xs.map promptValue)
  | .retention .unbounded => .string "unbounded"
  | .retention (.keep count) => .table [("keep", .integer count)]
  | .strategy .first => .string "First"
  | .strategy (.parallel minSuccess timeoutSecs) =>
      .table [("Parallel", .table (("min_success", .integer minSuccess) ::
        timeoutValue timeoutSecs))]
  | .strategy (.fallback timeoutSecs) => .table [("Fallback", .table (timeoutValue timeoutSecs))]

mutual

/-- `toml::Value::try_from`. -/
def tryFrom : Decoded Setting → Value
  | .leaf setting => settingValue setting
  | .node entries => .table (tryFromEntries entries)
termination_by structural tree => tree

def tryFromEntries : List (String × Decoded Setting) → List (String × Value)
  | [] => []
  | entry :: entries => tryFromEntry entry :: tryFromEntries entries
termination_by structural entries => entries

def tryFromEntry : String × Decoded Setting → String × Value
  | (key, tree) => (key, tryFrom tree)
termination_by structural entry => entry

end

def baseValue : Value := tryFrom defaultConfig

end Defaults

section Loading

/-- A parsed file. -/
structure Document where
  entries : List (String × Value)
  distinct : Distinct (.table entries)

/-- The `toml` and `reqwest` crates: decoding a text as a configuration, parsing it, and the scheme
of a valid URL. -/
structure Crates where
  checkConfig : String → Except String Unit
  fromStr : String → Except String Document
  urlScheme : String → Option String

inductive ReadOutcome where
  | content (text : String)
  | notFound
  | failed (message : String)

structure Files where
  there : Path → Bool
  readToString : Path → ReadOutcome

structure TensorZeroConfig where
  endpoint : String
  defaultModel : String
  timeoutSecs : ℕ

def tensorzero (config : Decoded Setting) : Option TensorZeroConfig :=
  match config.setting ["tensorzero", "endpoint"], config.setting ["tensorzero", "default_model"],
    config.setting ["tensorzero", "timeout_secs"] with
  | some (.text endpoint), some (.text model), some (.number timeout) =>
      some ⟨endpoint, model, timeout⟩
  | _, _, _ => none

def TensorZeroConfig.validate (crates : Crates) (tz : TensorZeroConfig) : Except String Unit :=
  if tz.endpoint = "" then .error "tensorzero.endpoint: must not be empty"
  else
    match crates.urlScheme tz.endpoint with
    | none => .error ("tensorzero.endpoint: not a valid URL: '" ++ tz.endpoint ++ "'")
    | some scheme =>
        if scheme ≠ "http" ∧ scheme ≠ "https" then
          .error ("tensorzero.endpoint: scheme must be http or https, got '" ++ scheme ++
            "' in '" ++ tz.endpoint ++ "'")
        else if tz.defaultModel = "" then .error "tensorzero.default_model: must not be empty"
        else if tz.timeoutSecs = 0 then
          .error "tensorzero.timeout_secs: must be greater than zero"
        else .ok ()

def display (path : Path) : String := String.join (path.map ("/" ++ ·))

def mergeTomlFile (crates : Crates) (files : Files) (base : Value) (path : Path) :
    Except String Value :=
  match files.readToString path with
  | .notFound => .ok base
  | .failed message => .error ("Error reading " ++ display path ++ ": " ++ message)
  | .content text =>
      match crates.checkConfig text, crates.fromStr text with
      | .ok _, .ok overlay => .ok (deepMerge base (.table overlay.entries))
      | _, _ => .error ("Error parsing " ++ display path)

/-- The merged tree, decoded and validated. -/
def tryInto (crates : Crates) (context : String) (base : Value) :
    Except String (Decoded Setting) :=
  match decode configSchema base with
  | none => .error context
  | some config =>
      match tensorzero config with
      | some tz => (tz.validate crates).map fun _ => config
      | none => .ok config

def userPath (files : Files) (home : Path) : Path :=
  if files.there (home ++ [".config", "loker", "loker.toml"]) then
    home ++ [".config", "loker", "loker.toml"]
  else home ++ [".config", "lok", "lok.toml"]

def projectPath (files : Files) (cwd : Path) : Path :=
  if files.there (cwd ++ ["loker.toml"]) then cwd ++ ["loker.toml"] else cwd ++ ["lok.toml"]

def loadConfigFromPaths (crates : Crates) (files : Files) (cwd : Path) (homeDir : Option Path)
    (explicitPath : Option Path) : Except String (Decoded Setting) :=
  match explicitPath with
  | some p => do
      let base ← mergeTomlFile crates files baseValue p
      tryInto crates ("Error parsing " ++ display p) base
  | none => do
      let base ←
        match homeDir with
        | some home => mergeTomlFile crates files baseValue (userPath files home)
        | none => .ok baseValue
      let base ← mergeTomlFile crates files base (projectPath files cwd)
      tryInto crates "Failed to deserialize merged config" base

end Loading

section Base

lemma tryFromEntries_eq (entries : List (String × Decoded Setting)) :
    tryFromEntries entries = entries.map fun e => (e.1, tryFrom e.2) := by
  induction entries with
  | nil => rfl
  | cons entry entries ih => rw [tryFromEntries, ih, List.map_cons, tryFromEntry]

lemma distinct_single {key : String} {v : Value} (h : Distinct v) :
    Distinct (.table [(key, v)]) := by
  refine .table (List.nodup_singleton _) fun entry hentry => ?_
  obtain rfl := List.mem_singleton.mp hentry
  exact h

lemma distinct_pair {key key' : String} {v v' : Value} (hkeys : key ≠ key') (h : Distinct v)
    (h' : Distinct v') : Distinct (.table [(key, v), (key', v')]) := by
  refine .table (by simp [hkeys]) fun entry hentry => ?_
  rcases List.mem_cons.mp hentry with rfl | hentry
  · exact h
  · obtain rfl := List.mem_singleton.mp hentry
    exact h'

lemma distinct_promptValue (p : TaskPrompt) : Distinct (promptValue p) :=
  distinct_pair (by decide) (.scalar rfl rfl) (.scalar rfl rfl)

lemma distinct_settingValue (setting : Setting) : Distinct (settingValue setting) := by
  cases setting with
  | texts xs =>
      refine .array fun item hitem => ?_
      obtain ⟨s, -, rfl⟩ := List.mem_map.mp hitem
      exact .scalar rfl rfl
  | prompts xs =>
      refine .array fun item hitem => ?_
      obtain ⟨p, -, rfl⟩ := List.mem_map.mp hitem
      exact distinct_promptValue p
  | retention r =>
      cases r with
      | unbounded => exact .scalar rfl rfl
      | keep count => exact distinct_single (.scalar rfl rfl)
  | strategy r =>
      cases r with
      | first => exact .scalar rfl rfl
      | parallel minSuccess timeoutSecs =>
          cases timeoutSecs with
          | none => exact distinct_single (distinct_single (.scalar rfl rfl))
          | some t =>
              exact distinct_single (distinct_pair (by decide) (.scalar rfl rfl) (.scalar rfl rfl))
      | fallback timeoutSecs =>
          cases timeoutSecs with
          | none => exact distinct_single (.table List.nodup_nil nofun)
          | some t => exact distinct_single (distinct_single (.scalar rfl rfl))
  | _ => exact .scalar rfl rfl

mutual

def nodupKeys : Decoded Setting → Bool
  | .leaf _ => true
  | .node entries => decide (entries.map Prod.fst).Nodup && nodupEntries entries
termination_by structural tree => tree

def nodupEntries : List (String × Decoded Setting) → Bool
  | [] => true
  | entry :: entries => nodupEntry entry && nodupEntries entries
termination_by structural entries => entries

def nodupEntry : String × Decoded Setting → Bool
  | (_, tree) => nodupKeys tree
termination_by structural entry => entry

end

mutual

lemma distinct_tryFrom : ∀ tree : Decoded Setting, nodupKeys tree = true → Distinct (tryFrom tree)
  | .leaf setting, _ => by
      rw [tryFrom]
      exact distinct_settingValue setting
  | .node entries, h => by
      rw [nodupKeys, Bool.and_eq_true, decide_eq_true_eq] at h
      rw [tryFrom, tryFromEntries_eq]
      refine .table (by rw [List.map_map]; exact h.1) fun entry hentry => ?_
      obtain ⟨e, he, rfl⟩ := List.mem_map.mp hentry
      exact distinct_entries entries h.2 e he

lemma distinct_entries : ∀ entries : List (String × Decoded Setting), nodupEntries entries = true →
    ∀ e ∈ entries, Distinct (tryFrom e.2)
  | [], _ => nofun
  | (_, tree) :: entries, h => by
      rw [nodupEntries, nodupEntry, Bool.and_eq_true] at h
      exact List.forall_mem_cons.mpr ⟨distinct_tryFrom tree h.1, distinct_entries entries h.2⟩

end

/-- The defaults, looked through once: no key is there twice, and no gateway is set. -/
lemma base_checked : (nodupKeys defaultConfig = true ∧ Plain configSchema baseValue = true) ∧
    (decode configSchema baseValue).isSome = true ∧ member "tensorzero" baseValue = none := by
  decide

lemma distinct_base : Distinct baseValue := distinct_tryFrom defaultConfig base_checked.1.1

lemma plain_base : Plain configSchema baseValue = true := base_checked.1.2

lemma fits_base : Fits configSchema baseValue := ⟨distinct_base, base_checked.2.1⟩

end Base

section Layers

/-- Loading succeeds, and every setting has its value in the highest layer that sets it. -/
def LoadsLayered (crates : Crates) (files : Files) (cwd home : Path) (layers : List Value) :
    Prop :=
  ∃ config, loadConfigFromPaths crates files cwd (some home) none = .ok config ∧
    ∀ path, config.setting path = settingOf configSchema layers path

lemma TensorZeroConfig.validate_iff {crates : Crates} {tz : TensorZeroConfig} :
    tz.validate crates = .ok () ↔ tz.endpoint ≠ "" ∧
      (∃ scheme, crates.urlScheme tz.endpoint = some scheme ∧
        (scheme = "http" ∨ scheme = "https")) ∧ tz.defaultModel ≠ "" ∧ tz.timeoutSecs ≠ 0 := by
  unfold validate
  by_cases hendpoint : tz.endpoint = ""
  · simp [hendpoint]
  · cases hurl : crates.urlScheme tz.endpoint with
    | none => simp [hendpoint]
    | some scheme =>
        by_cases hscheme : scheme = "http" ∨ scheme = "https"
        · have hnot : ¬ (scheme ≠ "http" ∧ scheme ≠ "https") := by
            rintro ⟨h₁, h₂⟩
            rcases hscheme with h | h
            · exact h₁ h
            · exact h₂ h
          by_cases hmodel : tz.defaultModel = "" <;> by_cases htimeout : tz.timeoutSecs = 0 <;>
            simp [hendpoint, hscheme, hnot, hmodel, htimeout]
        · have hbad : scheme ≠ "http" ∧ scheme ≠ "https" :=
            ⟨fun h => hscheme (Or.inl h), fun h => hscheme (Or.inr h)⟩
          simp [hendpoint, hbad]

lemma tryInto_iff {crates : Crates} {context : String} {base : Value} {config : Decoded Setting} :
    tryInto crates context base = .ok config ↔ decode configSchema base = some config ∧
      ∀ tz, tensorzero config = some tz → tz.validate crates = .ok () := by
  unfold tryInto
  cases hdecode : decode configSchema base with
  | none => simp
  | some found =>
      dsimp only
      cases htz : tensorzero found with
      | none =>
          simp only [Except.ok.injEq, Option.some.injEq]
          constructor
          · rintro rfl
            exact ⟨rfl, fun tz h => by rw [htz] at h; cases h⟩
          · exact fun h => h.1
      | some tz =>
          dsimp only
          cases hvalid : tz.validate crates with
          | ok =>
              simp only [Except.map, Except.ok.injEq, Option.some.injEq]
              constructor
              · rintro rfl
                refine ⟨rfl, fun tz' h => ?_⟩
                rw [htz] at h
                cases h
                exact hvalid
              · exact fun h => h.1
          | error message =>
              simp only [Except.map, Option.some.injEq]
              constructor
              · exact nofun
              · rintro ⟨rfl, h⟩
                rw [h tz htz] at hvalid
                cases hvalid

/-- The settings of the gateway in these layers. -/
def gateway (layers : List Value) : Option TensorZeroConfig :=
  match settingOf tensorzeroConfig layers ["endpoint"],
    settingOf tensorzeroConfig layers ["default_model"],
    settingOf tensorzeroConfig layers ["timeout_secs"] with
  | some (.text endpoint), some (.text model), some (.number timeout) =>
      some ⟨endpoint, model, timeout⟩
  | _, _, _ => none

def tensorzeroNames : List String :=
  ["endpoint", "default_model", "api_key_env", "timeout_secs", "retry_policy"]

lemma written_gateway {w : Value} (h : Fits tensorzeroConfig w) : ∃ endpoint model,
    ∃ e m, fieldOf tensorzeroNames "endpoint" w = some endpoint ∧ text endpoint = some e ∧
      fieldOf tensorzeroNames "default_model" w = some model ∧ text model = some m ∧
      (fieldOf tensorzeroNames "timeout_secs" w = none ∨ ∃ timeout t,
        fieldOf tensorzeroNames "timeout_secs" w = some timeout ∧ unsigned timeout = some t) := by
  obtain ⟨fields, hfields, heach⟩ := written_of_fits h
  have hfield : ∀ key, fieldOf tensorzeroNames key w = fields.lookup key := by
    intro key
    rw [fieldOf, show written tensorzeroNames w = some fields from hfields]
    rfl
  have hrequired : ∀ key, key ∈ ["endpoint", "default_model"] → ∃ x s,
      fields.lookup key = some x ∧ text x = some s := by
    intro key hkey
    have hsome : (decodeField (decode textField) (.error : Missing Setting) w.isArray
        (fields.lookup key)).isSome = true := by
      rcases List.mem_cons.mp hkey with rfl | hkey
      · exact heach "endpoint" (by decide)
      · obtain rfl := List.mem_singleton.mp hkey
        exact heach "default_model" (by decide)
    cases hlookup : fields.lookup key with
    | none =>
        rw [hlookup] at hsome
        cases hsome
    | some x =>
        rw [hlookup, decodeField, Option.isSome_map] at hsome
        cases hx : text x with
        | none =>
            have hnone : decode textField x = none := by
              show ((text x).map Setting.text).map Decoded.leaf = none
              rw [hx]
              rfl
            rw [hnone] at hsome
            cases hsome
        | some s => exact ⟨x, s, rfl, hx⟩
  obtain ⟨endpoint, e, hendpoint, he⟩ := hrequired "endpoint" (by decide)
  obtain ⟨model, m, hmodel, hm⟩ := hrequired "default_model" (by decide)
  refine ⟨endpoint, model, e, m, (hfield _).trans hendpoint, he, (hfield _).trans hmodel, hm, ?_⟩
  cases hlookup : fields.lookup "timeout_secs" with
  | none => exact Or.inl ((hfield _).trans hlookup)
  | some x =>
      have hsome : (decodeField (decode unsignedField) (defaultTo (.number 60)) w.isArray
          (fields.lookup "timeout_secs")).isSome = true := heach "timeout_secs" (by decide)
      rw [hlookup, decodeField, Option.isSome_map] at hsome
      cases hx : unsigned x with
      | none =>
          have hnone : decode unsignedField x = none := by
            show ((unsigned x).map Setting.number).map Decoded.leaf = none
            rw [hx]
            rfl
          rw [hnone] at hsome
          cases hsome
      | some t => exact Or.inr ⟨x, t, (hfield _).trans hlookup, hx⟩

/-- A layer with a gateway gives its endpoint and its model, and its timeout if it has one. -/
lemma gateway_layer {w : Value} (h : Fits tensorzeroConfig w) : ∃ e m,
    (∀ rest, settingOf tensorzeroConfig (w :: rest) ["endpoint"] = some (.text e)) ∧
    (∀ rest, settingOf tensorzeroConfig (w :: rest) ["default_model"] = some (.text m)) ∧
    ((∃ t, ∀ rest, settingOf tensorzeroConfig (w :: rest) ["timeout_secs"] = some (.number t)) ∨
      ∀ rest, settingOf tensorzeroConfig (w :: rest) ["timeout_secs"] =
        settingOf tensorzeroConfig rest ["timeout_secs"]) := by
  obtain ⟨endpoint, model, e, m, hendpoint, he, hmodel, hm, htimeout⟩ := written_gateway h
  refine ⟨e, m, fun rest => ?_, fun rest => ?_, ?_⟩
  · refine (settingOf_first (by decide) rfl hendpoint rest).trans ?_
    show (text endpoint).map Setting.text = _
    rw [he]
    rfl
  · refine (settingOf_first (by decide) rfl hmodel rest).trans ?_
    show (text model).map Setting.text = _
    rw [hm]
    rfl
  · rcases htimeout with hnone | ⟨timeout, t, hsome, ht⟩
    · exact Or.inr fun rest => settingOf_skip hnone rest []
    · refine Or.inl ⟨t, fun rest => ?_⟩
      refine (settingOf_first (by decide) rfl hsome rest).trans ?_
      show (unsigned timeout).map Setting.number = _
      rw [ht]
      rfl

lemma gateway_one {w : Value} (h : Fits tensorzeroConfig w) : ∃ tz, gateway [w] = some tz := by
  obtain ⟨e, m, he, hm, htimeout⟩ := gateway_layer h
  rcases htimeout with ⟨t, ht⟩ | hskip
  · exact ⟨⟨e, m, t⟩, by simp only [gateway, he, hm, ht]⟩
  · refine ⟨⟨e, m, 60⟩, ?_⟩
    have hdefault : settingOf tensorzeroConfig [] ["timeout_secs"] = some (.number 60) := rfl
    simp only [gateway, he, hm, hskip, hdefault]

/-- The gateway of two layers has the upper one's endpoint and model, and the timeout of one of
them. -/
lemma gateway_two {w u : Value} {upper lower : TensorZeroConfig} (hw : Fits tensorzeroConfig w)
    (hu : Fits tensorzeroConfig u) (hupper : gateway [w] = some upper)
    (hlower : gateway [u] = some lower) : ∃ t, gateway [w, u] =
      some ⟨upper.endpoint, upper.defaultModel, t⟩ ∧
        (t = upper.timeoutSecs ∨ t = lower.timeoutSecs) := by
  obtain ⟨e, m, he, hm, htimeout⟩ := gateway_layer hw
  rcases htimeout with ⟨t, ht⟩ | hskip
  · simp only [gateway, he, hm, ht, Option.some.injEq] at hupper ⊢
    subst hupper
    exact ⟨t, rfl, Or.inl rfl⟩
  · obtain ⟨e', m', he', hm', htimeout'⟩ := gateway_layer hu
    have hdefault : settingOf tensorzeroConfig [] ["timeout_secs"] = some (.number 60) := rfl
    simp only [gateway, he, hm, hskip, hdefault, Option.some.injEq] at hupper ⊢
    subst hupper
    rcases htimeout' with ⟨t, ht⟩ | hskip'
    · simp only [gateway, he', hm', ht, Option.some.injEq] at hlower ⊢
      subst hlower
      exact ⟨t, rfl, Or.inr rfl⟩
    · simp only [hskip', hdefault]
      exact ⟨60, rfl, Or.inl rfl⟩

def configNames : List String :=
  ["defaults", "conductor", "cache", "tensorzero", "backends", "tasks", "roles", "teams",
    "run_state"]

/-- The configuration of one file over the defaults: the file alone fits, and its gateway is the
configuration's. -/
lemma loaded_alone {document : Document} {config : Decoded Setting}
    (h : decode configSchema (deepMerge baseValue (.table document.entries)) = some config) :
    Fits configSchema (.table document.entries) ∧ ∀ w,
      document.entries.lookup "tensorzero" = some w →
        Fits tensorzeroConfig w ∧ tensorzero config = gateway [w] := by
  have hfit : Fits configSchema (.table document.entries) :=
    fits_of_merge deepMerge_rightBiased plain_base distinct_base document.distinct
      (by rw [h]; rfl)
  refine ⟨hfit, fun w hw => ?_⟩
  obtain ⟨base, hbase⟩ := exists_table (rfl : baseValue.isTable = true)
  have hnone : base.lookup "tensorzero" = none := by
    have hmember := base_checked.2.2
    rwa [hbase] at hmember
  have hkeys := distinct_base
  rw [hbase] at h hkeys
  obtain ⟨found, hfound, -, hlookup⟩ :=
    deepMerge_rightBiased.tables hkeys.keys document.distinct.keys
  rw [hfound] at h
  have hgateway : found.lookup "tensorzero" = some w := by
    rw [hlookup, hnone, hw]
    rfl
  have hsome : (decode configSchema (.table found)).isSome = true := by
    rw [h]
    rfl
  have hwritten : written configNames (.table found) = some found := (written_of_decode hsome).2
  have hfits : Fits tensorzeroConfig w :=
    fits_field (w := w) hfit (by decide : "tensorzero" ∈ configNames) ((fieldOf_table _ hfit).1.trans hw)
  obtain ⟨t, ht⟩ := Option.isSome_iff_exists.mp hfits.2
  have hsettings : ∀ path, config.setting ("tensorzero" :: path) =
      settingOf tensorzeroConfig [w] path := by
    intro path
    obtain ⟨-, -, hpaths⟩ := decode_struct hwritten h
    rw [hpaths, if_pos (by decide), hgateway, ← setting_of_decode deepMerge_rightBiased hfits.1 ht]
    show (((decode tensorzeroConfig w).map some).bind id).bind (·.setting path) = _
    rw [ht]
    rfl
  refine ⟨hfits, ?_⟩
  rw [tensorzero, gateway, hsettings, hsettings, hsettings]

/-- The gateway of a configuration with the settings of these layers. -/
lemma tensorzero_layers {upper lower : Document} {config : Decoded Setting}
    (hupper : Fits configSchema (.table upper.entries))
    (hlower : Fits configSchema (.table lower.entries))
    (h : ∀ path, config.setting path =
      settingOf configSchema [.table upper.entries, .table lower.entries, baseValue] path) :
    tensorzero config =
      match [upper.entries, lower.entries].filterMap (·.lookup "tensorzero") with
      | [] => none
      | v :: rest => gateway (v :: rest) := by
  have hnone : fieldOf configNames "tensorzero" baseValue = none := by decide
  have hlayers : [.table upper.entries, .table lower.entries, baseValue].filterMap
      (fieldOf configNames "tensorzero") =
        [upper.entries, lower.entries].filterMap (·.lookup "tensorzero") := by
    have hfirst : fieldOf configNames "tensorzero" (.table upper.entries) =
        upper.entries.lookup "tensorzero" := (fieldOf_table "tensorzero" hupper).1
    have hsecond : fieldOf configNames "tensorzero" (.table lower.entries) =
        lower.entries.lookup "tensorzero" := (fieldOf_table "tensorzero" hlower).1
    simp only [List.filterMap_cons, hfirst, hsecond, hnone, List.filterMap_nil]
  have hsettings : ∀ path, config.setting ("tensorzero" :: path) =
      match [upper.entries, lower.entries].filterMap (·.lookup "tensorzero") with
      | [] => none
      | v :: rest => settingOf tensorzeroConfig (v :: rest) path := by
    intro path
    rw [h, ← hlayers]
    rfl
  rw [tensorzero, hsettings, hsettings, hsettings]
  cases [upper.entries, lower.entries].filterMap (·.lookup "tensorzero") with
  | nil => rfl
  | cons v rest => rfl

/-- With the settings of two files that load alone the gateway is valid. -/
lemma gateway_valid {crates : Crates} {upper lower : Document} {config cu cl : Decoded Setting}
    (hupper : decode configSchema (deepMerge baseValue (.table upper.entries)) = some cu)
    (hlower : decode configSchema (deepMerge baseValue (.table lower.entries)) = some cl)
    (hvalidUpper : ∀ tz, tensorzero cu = some tz → tz.validate crates = .ok ())
    (hvalidLower : ∀ tz, tensorzero cl = some tz → tz.validate crates = .ok ())
    (h : ∀ path, config.setting path =
      settingOf configSchema [.table upper.entries, .table lower.entries, baseValue] path) :
    ∀ tz, tensorzero config = some tz → tz.validate crates = .ok () := by
  obtain ⟨hfitUpper, hgatewayUpper⟩ := loaded_alone hupper
  obtain ⟨hfitLower, hgatewayLower⟩ := loaded_alone hlower
  intro tz htz
  rw [tensorzero_layers hfitUpper hfitLower h] at htz
  cases hw : upper.entries.lookup "tensorzero" with
  | none =>
      cases hu : lower.entries.lookup "tensorzero" with
      | none =>
          rw [List.filterMap_cons_none hw, List.filterMap_cons_none hu] at htz
          cases htz
      | some u =>
          rw [List.filterMap_cons_none hw, List.filterMap_cons_some hu] at htz
          obtain ⟨-, hsame⟩ := hgatewayLower u hu
          exact hvalidLower tz (hsame.trans htz)
  | some w =>
      obtain ⟨hfitw, hsamew⟩ := hgatewayUpper w hw
      cases hu : lower.entries.lookup "tensorzero" with
      | none =>
          rw [List.filterMap_cons_some hw, List.filterMap_cons_none hu] at htz
          exact hvalidUpper tz (hsamew.trans htz)
      | some u =>
          obtain ⟨hfitu, hsameu⟩ := hgatewayLower u hu
          rw [List.filterMap_cons_some hw, List.filterMap_cons_some hu] at htz
          obtain ⟨up, hup⟩ := gateway_one hfitw
          obtain ⟨low, hlow⟩ := gateway_one hfitu
          obtain ⟨t, htwo, htimeout⟩ := gateway_two hfitw hfitu hup hlow
          have hupValid :=
            TensorZeroConfig.validate_iff.mp (hvalidUpper up (hsamew.trans hup))
          have hlowValid :=
            TensorZeroConfig.validate_iff.mp (hvalidLower low (hsameu.trans hlow))
          have heq : tz = ⟨up.endpoint, up.defaultModel, t⟩ :=
            Option.some.inj (htz.symm.trans htwo)
          subst heq
          rw [TensorZeroConfig.validate_iff]
          obtain ⟨hendpoint, hscheme, hmodel, hup0⟩ := hupValid
          refine ⟨hendpoint, hscheme, hmodel, ?_⟩
          rcases htimeout with rfl | rfl
          · exact hup0
          · exact hlowValid.2.2.2

lemma mergeTomlFile_content {crates : Crates} {files : Files} {base merged : Value} {path : Path}
    {text : String} {document : Document} (htext : files.readToString path = .content text)
    (hdocument : crates.fromStr text = .ok document)
    (h : mergeTomlFile crates files base path = .ok merged) :
    crates.checkConfig text = .ok () ∧ merged = deepMerge base (.table document.entries) := by
  rw [mergeTomlFile, htext] at h
  dsimp only at h
  rw [hdocument] at h
  cases hcheck : crates.checkConfig text with
  | ok u =>
      rw [hcheck] at h
      cases h
      exact ⟨rfl, rfl⟩
  | error message =>
      rw [hcheck] at h
      cases h

/-- A file that loads alone over the defaults: its text is checked, and the merged tree decodes to
a valid configuration. -/
lemma explicit_ok {crates : Crates} {files : Files} {cwd : Path} {homeDir : Option Path}
    {path : Path} {text : String} {document : Document} {config : Decoded Setting}
    (htext : files.readToString path = .content text)
    (hdocument : crates.fromStr text = .ok document)
    (h : loadConfigFromPaths crates files cwd homeDir (some path) = .ok config) :
    crates.checkConfig text = .ok () ∧
      decode configSchema (deepMerge baseValue (.table document.entries)) = some config ∧
        ∀ tz, tensorzero config = some tz → tz.validate crates = .ok () := by
  cases hmerge : mergeTomlFile crates files baseValue path with
  | error message =>
      rw [loadConfigFromPaths, hmerge] at h
      cases h
  | ok merged =>
      obtain ⟨hcheck, rfl⟩ := mergeTomlFile_content htext hdocument hmerge
      rw [loadConfigFromPaths, hmerge] at h
      exact ⟨hcheck, tryInto_iff.mp h⟩

/-- With a user file and a project file that each load alone, loading both keeps every setting of
the highest layer that sets it if and only if merging does: no table of one variant over a table of
another one or of more fields, and nothing hidden by a struct that is written as an array. -/
theorem loadsLayered_iff {crates : Crates} {files : Files} {cwd home : Path}
    {userText projectText : String} {user project : Document} {userConfig projectConfig : Decoded Setting}
    (huser : files.readToString (userPath files home) = .content userText)
    (hproject : files.readToString (projectPath files cwd) = .content projectText)
    (huserDocument : crates.fromStr userText = .ok user)
    (hprojectDocument : crates.fromStr projectText = .ok project)
    (huserAlone : loadConfigFromPaths crates files cwd (some home) (some (userPath files home)) =
      .ok userConfig)
    (hprojectAlone : loadConfigFromPaths crates files cwd (some home)
      (some (projectPath files cwd)) = .ok projectConfig) :
    LoadsLayered crates files cwd home
        [.table project.entries, .table user.entries, baseValue] ↔
      Kept configSchema [.table project.entries, .table user.entries, baseValue] [] := by
  obtain ⟨hcheckUser, hdecodeUser, hvalidUser⟩ := explicit_ok huser huserDocument huserAlone
  obtain ⟨hcheckProject, hdecodeProject, hvalidProject⟩ :=
    explicit_ok hproject hprojectDocument hprojectAlone
  obtain ⟨hfitUser, -⟩ := loaded_alone hdecodeUser
  obtain ⟨hfitProject, -⟩ := loaded_alone hdecodeProject
  have hfits : ∀ w ∈ [.table project.entries, .table user.entries, baseValue] ++ [],
      Fits configSchema w := by
    intro w hw
    rw [List.append_nil] at hw
    simp only [List.mem_cons, List.not_mem_nil, or_false] at hw
    rcases hw with rfl | rfl | rfl
    · exact hfitProject
    · exact hfitUser
    · exact fits_base
  have hmerged : merged deepMerge [.table project.entries, .table user.entries, baseValue] =
      some (deepMerge (deepMerge baseValue (.table user.entries)) (.table project.entries)) := rfl
  have hload : loadConfigFromPaths crates files cwd (some home) none =
      tryInto crates "Failed to deserialize merged config"
        (deepMerge (deepMerge baseValue (.table user.entries)) (.table project.entries)) := by
    simp only [loadConfigFromPaths, mergeTomlFile, huser, hproject, hcheckUser, hcheckProject,
      huserDocument, hprojectDocument]
    rfl
  rw [← agrees_iff deepMerge_rightBiased configSchema (List.cons_ne_nil _ _) hfits, Agrees, hmerged,
    Option.bind_some, LoadsLayered, hload]
  constructor
  · rintro ⟨config, hconfig, hsettings⟩
    exact ⟨config, (tryInto_iff.mp hconfig).1, hsettings⟩
  · rintro ⟨config, hconfig, hsettings⟩
    refine ⟨config, tryInto_iff.mpr ⟨hconfig, ?_⟩, hsettings⟩
    exact gateway_valid hdecodeProject hdecodeUser hvalidProject hvalidUser hsettings

end Layers

section Samples

def reviewEntries (strategy : Value) : List (String × Value) :=
  [("roles", .table [("review", .table [("backends", .array [.string "codex"]),
    ("strategy", strategy)])])]

/-- A file with one role. -/
def reviewDocument (strategy : Value) (h : Distinct strategy) : Document where
  entries := reviewEntries strategy
  distinct := by
    have hbackends : Distinct (.array [.string "codex"]) := by
      refine .array fun item hitem => ?_
      obtain rfl := List.mem_singleton.mp hitem
      exact .scalar rfl rfl
    exact distinct_single (distinct_single (distinct_pair (by decide) hbackends h))

def fallbackFive : Document :=
  reviewDocument (.table [("Fallback", .table [("timeout_secs", .integer 5)])])
    (distinct_single (distinct_single (.scalar rfl rfl)))

def parallelOne : Document :=
  reviewDocument (.table [("Parallel", .table [("min_success", .integer 1)])])
    (distinct_single (distinct_single (.scalar rfl rfl)))

def parallelTwo : Document :=
  reviewDocument (.table [("Parallel",
      .table [("min_success", .integer 2), ("timeout_secs", .integer 30)])])
    (distinct_single (distinct_pair (by decide) (.scalar rfl rfl) (.scalar rfl rfl)))

def firstOnly : Document := reviewDocument (.string "First") (.scalar rfl rfl)

def sevenRounds : Document where
  entries := [("conductor", .array [.integer 7])]
  distinct := by
    refine distinct_single (.array fun item hitem => ?_)
    obtain rfl := List.mem_singleton.mp hitem
    exact .scalar rfl rfl

def hundredTokens : Document where
  entries := [("conductor", .table [("max_tokens", .integer 100)])]
  distinct := distinct_single (distinct_single (.scalar rfl rfl))

/-- The documents with their texts. -/
def sampleTexts : List (String × Document) :=
  [("[roles.review]\nbackends = [\"codex\"]\n[roles.review.strategy.Fallback]\n" ++
      "timeout_secs = 5\n", fallbackFive),
    ("[roles.review]\nbackends = [\"codex\"]\n[roles.review.strategy.Parallel]\n" ++
      "min_success = 1\n", parallelOne),
    ("[roles.review]\nbackends = [\"codex\"]\n[roles.review.strategy.Parallel]\n" ++
      "min_success = 2\ntimeout_secs = 30\n", parallelTwo),
    ("[roles.review]\nbackends = [\"codex\"]\nstrategy = \"First\"\n", firstOnly),
    ("conductor = [7]\n", sevenRounds), ("[conductor]\nmax_tokens = 100\n", hundredTokens)]

def sampleCrates : Crates where
  checkConfig _ := .ok ()
  fromStr text :=
    match sampleTexts.lookup text with
    | some document => .ok document
    | none => .error "not a sample"
  urlScheme _ := none

/-- A user file and a project file with these samples. -/
def sampleFiles (user project : ℕ) : Files where
  there path := path = ["home", ".config", "loker", "loker.toml"] || path = ["work", "loker.toml"]
  readToString path :=
    if path = ["home", ".config", "loker", "loker.toml"] then
      .content ((sampleTexts[user]?.map Prod.fst).getD "")
    else if path = ["work", "loker.toml"] then
      .content ((sampleTexts[project]?.map Prod.fst).getD "")
    else .notFound

def loadSample (user project : ℕ) (explicitPath : Option Path) : Except String (Decoded Setting) :=
  loadConfigFromPaths sampleCrates (sampleFiles user project) ["work"] (some ["home"]) explicitPath

def aloneOk (user project : ℕ) : Bool :=
  (loadSample user project (some ["home", ".config", "loker", "loker.toml"])).isOk &&
    (loadSample user project (some ["work", "loker.toml"])).isOk

lemma exists_of_isOk {x : Except String (Decoded Setting)} (h : x.isOk = true) :
    ∃ config, x = .ok config := by
  cases x with
  | ok config => exact ⟨config, rfl⟩
  | error message => cases h

theorem loadsLayered_iff_first :
    LoadsLayered sampleCrates (sampleFiles 0 3) ["work"] ["home"]
        [.table firstOnly.entries, .table fallbackFive.entries, baseValue] ↔
      Kept configSchema [.table firstOnly.entries, .table fallbackFive.entries, baseValue] [] := by
  have huserOk : (loadSample 0 3 (some ["home", ".config", "loker", "loker.toml"])).isOk = true := by
    decide
  have hprojectOk : (loadSample 0 3 (some ["work", "loker.toml"])).isOk = true := by decide
  obtain ⟨userConfig, huser⟩ := exists_of_isOk huserOk
  obtain ⟨projectConfig, hproject⟩ := exists_of_isOk hprojectOk
  exact loadsLayered_iff rfl rfl rfl rfl huser hproject

/-- Two variants give a tree that cannot be decoded, a timeout that only the user sets stays in the
project's strategy, and a struct written as an array is lost under a table. -/
theorem layers_not_kept :
    (aloneOk 0 1 = true ∧ (loadSample 0 1 none).isOk = false) ∧
    (aloneOk 2 1 = true ∧
      (loadSample 2 1 none).toOption.bind (·.setting ["roles", "review", "strategy"]) =
        some (.strategy (.parallel 1 (some 30))) ∧
      ¬ LoadsLayered sampleCrates (sampleFiles 2 1) ["work"] ["home"]
        [.table parallelOne.entries, .table parallelTwo.entries, baseValue]) ∧
    aloneOk 4 5 = true ∧
      (loadSample 4 5 none).toOption.bind (·.setting ["conductor", "max_rounds"]) =
        some (.number 5) ∧
      ¬ LoadsLayered sampleCrates (sampleFiles 4 5) ["work"] ["home"]
        [.table hundredTokens.entries, .table sevenRounds.entries, baseValue] := by
  have hdiffers : ∀ (path : List String) {user project : ℕ} {layers : List Value}
      {found : Option Setting},
      (loadSample user project none).toOption.bind (·.setting path) = found →
        settingOf configSchema layers path ≠ found →
          ¬ LoadsLayered sampleCrates (sampleFiles user project) ["work"] ["home"] layers := by
    rintro path user project layers found hfound hne ⟨config, hload, hsettings⟩
    have hloaded : loadSample user project none = .ok config := hload
    rw [hloaded] at hfound
    exact hne ((hsettings path).symm.trans hfound)
  refine ⟨⟨by decide, by decide⟩, ⟨by decide, by decide, ?_⟩,
    by decide, by decide, ?_⟩
  · exact hdiffers ["roles", "review", "strategy"] rfl (by decide)
  · exact hdiffers ["conductor", "max_rounds"] rfl (by decide)

end Samples

end Loker.ConfigLayers
