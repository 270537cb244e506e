import Mathlib

/-! Configuration trees in layers: merging untyped trees, decoding the result under a schema, and
when every setting keeps the value that the highest layer gives it. -/

namespace Loker.LayeredTrees

section Values

inductive Value where
  | string (text : String)
  | integer (i : ℤ)
  | float (bits : UInt64)
  | boolean (b : Bool)
  | datetime (text : String)
  | array (items : List Value)
  | table (entries : List (String × Value))

def Value.isTable : Value → Bool
  | .table _ => true
  | _ => false

def Value.isArray : Value → Bool
  | .array _ => true
  | _ => false

/-- No table has a key twice. -/
inductive Distinct : Value → Prop
  | table {entries : List (String × Value)} (keys : (entries.map Prod.fst).Nodup)
      (values : ∀ entry ∈ entries, Distinct entry.2) : Distinct (.table entries)
  | array {items : List Value} (values : ∀ item ∈ items, Distinct item) : Distinct (.array items)
  | scalar {v : Value} (table : v.isTable = false) (array : v.isArray = false) : Distinct v

def member (key : String) : Value → Option Value
  | .table entries => entries.lookup key
  | _ => none

lemma exists_table {v : Value} (h : v.isTable = true) : ∃ entries, v = .table entries := by
  cases v with
  | table entries => exact ⟨entries, rfl⟩
  | _ => cases h

lemma Distinct.keys {entries : List (String × Value)} (h : Distinct (.table entries)) :
    (entries.map Prod.fst).Nodup := by
  cases h with
  | table keys => exact keys
  | scalar table => cases table

lemma Distinct.member {entry : String × Value} {entries : List (String × Value)}
    (h : Distinct (.table entries)) (hmem : entry ∈ entries) : Distinct entry.2 := by
  cases h with
  | table keys values => exact values entry hmem
  | scalar table => cases table

lemma Distinct.item {item : Value} {items : List Value} (h : Distinct (.array items))
    (hmem : item ∈ items) : Distinct item := by
  cases h with
  | array values => exact values item hmem
  | scalar table array => cases array

end Values

section Entries

variable {β γ : Type}

lemma lookup_cons_self (key : String) (value : β) (entries : List (String × β)) :
    ((key, value) :: entries).lookup key = some value := by
  rw [List.lookup_cons, beq_self_eq_true]

lemma lookup_cons_of_ne {key name : String} (h : key ≠ name) (value : β)
    (entries : List (String × β)) :
    ((name, value) :: entries).lookup key = entries.lookup key := by
  rw [List.lookup_cons, beq_eq_false_iff_ne.mpr h]

lemma mem_of_lookup {entries : List (String × β)} {key : String} {value : β}
    (h : entries.lookup key = some value) : (key, value) ∈ entries := by
  induction entries with
  | nil => cases h
  | cons entry entries ih =>
      obtain ⟨k, v⟩ := entry
      rw [List.lookup_cons] at h
      by_cases hkey : key = k
      · subst hkey
        rw [beq_self_eq_true] at h
        cases h
        exact List.mem_cons_self
      · rw [beq_eq_false_iff_ne.mpr hkey] at h
        exact List.mem_cons_of_mem _ (ih h)

lemma lookup_of_mem {entries : List (String × β)} (hkeys : (entries.map Prod.fst).Nodup)
    {key : String} {value : β} (h : (key, value) ∈ entries) : entries.lookup key = some value := by
  induction entries with
  | nil => cases h
  | cons entry entries ih =>
      obtain ⟨k, v⟩ := entry
      obtain ⟨hfresh, hrest⟩ := List.nodup_cons.mp hkeys
      rw [List.lookup_cons]
      rcases List.mem_cons.mp h with heq | hmem
      · cases heq
        rw [beq_self_eq_true]
      · have hne : key ≠ k := by
          rintro rfl
          exact hfresh (List.mem_map.mpr ⟨_, hmem, rfl⟩)
        rw [beq_eq_false_iff_ne.mpr hne]
        exact ih hrest hmem

lemma lookup_isSome {entries : List (String × β)} {key : String} :
    (entries.lookup key).isSome = true ↔ key ∈ entries.map Prod.fst := by
  induction entries with
  | nil => simp
  | cons entry entries ih =>
      obtain ⟨k, v⟩ := entry
      rw [List.lookup_cons]
      by_cases hkey : key = k
      · simp [hkey]
      · rw [beq_eq_false_iff_ne.mpr hkey, List.map_cons, List.mem_cons]
        simp [hkey, ih]

/-- Decoding the values of a map entry by entry. -/
lemma mapM_entries {f : β → Option γ} {entries : List (String × β)}
    (h : ∀ entry ∈ entries, (f entry.2).isSome = true) :
    ∃ found, (entries.mapM fun entry => (f entry.2).map (entry.1, ·)) = some found ∧
      ∀ key, found.lookup key = (entries.lookup key).bind f := by
  induction entries with
  | nil => exact ⟨[], rfl, fun key => rfl⟩
  | cons entry entries ih =>
      obtain ⟨hentry, hentries⟩ := List.forall_mem_cons.mp h
      obtain ⟨found, hfound, hlookup⟩ := ih hentries
      obtain ⟨value, hvalue⟩ := Option.isSome_iff_exists.mp hentry
      refine ⟨(entry.1, value) :: found, ?_, ?_⟩
      · rw [List.mapM_cons, hvalue, hfound]
        rfl
      · intro key
        rw [List.lookup_cons, List.lookup_cons]
        by_cases hkey : key = entry.1
        · subst hkey
          simp [hvalue]
        · rw [beq_eq_false_iff_ne.mpr hkey]
          exact hlookup key

lemma mapM_entries_isSome {f : β → Option γ} {entries : List (String × β)}
    {found : List (String × γ)}
    (h : (entries.mapM fun entry => (f entry.2).map (entry.1, ·)) = some found) :
    ∀ entry ∈ entries, (f entry.2).isSome = true := by
  induction entries generalizing found with
  | nil => exact nofun
  | cons entry entries ih =>
      rw [List.mapM_cons] at h
      obtain ⟨first, hfirst, hrest⟩ := Option.bind_eq_some_iff.mp h
      obtain ⟨others, hothers, -⟩ := Option.bind_eq_some_iff.mp hrest
      refine List.forall_mem_cons.mpr ⟨?_, ih hothers⟩
      obtain ⟨value, hvalue, -⟩ := Option.map_eq_some_iff.mp hfirst
      rw [hvalue]
      rfl

/-- The entries for the names that have a value. -/
def present (names : List String) (found : List (Option β)) : List (String × β) :=
  (names.zip found).filterMap fun x => x.2.map (x.1, ·)

/-- Decoding the fields of a struct name by name. -/
lemma mapM_names {f : String → Option (Option β)} {names : List String}
    (h : ∀ name ∈ names, (f name).isSome = true) :
    ∃ found, names.mapM f = some found ∧
      ∀ key, (present names found).lookup key = if key ∈ names then (f key).bind id else none := by
  induction names with
  | nil => exact ⟨[], rfl, fun key => rfl⟩
  | cons name names ih =>
      obtain ⟨hname, hnames⟩ := List.forall_mem_cons.mp h
      obtain ⟨found, hfound, hlookup⟩ := ih hnames
      obtain ⟨value, hvalue⟩ := Option.isSome_iff_exists.mp hname
      refine ⟨value :: found, ?_, fun key => ?_⟩
      · rw [List.mapM_cons, hvalue, hfound]
        rfl
      · cases value with
        | none =>
            have hskip : present (name :: names) (none :: found) = present names found := rfl
            rw [hskip, hlookup]
            by_cases hkey : key = name
            · subst hkey
              simp [hvalue]
            · simp [hkey]
        | some v =>
            have hhead : present (name :: names) (some v :: found) =
                (name, v) :: present names found := rfl
            rw [hhead, List.lookup_cons]
            by_cases hkey : key = name
            · subst hkey
              simp [hvalue]
            · rw [beq_eq_false_iff_ne.mpr hkey, hlookup]
              simp [hkey]

lemma mapM_names_isSome {f : String → Option (Option β)} {names : List String}
    {found : List (Option β)} (h : names.mapM f = some found) :
    ∀ name ∈ names, (f name).isSome = true := by
  induction names generalizing found with
  | nil => exact nofun
  | cons name names ih =>
      rw [List.mapM_cons] at h
      obtain ⟨first, hfirst, hrest⟩ := Option.bind_eq_some_iff.mp h
      obtain ⟨others, hothers, -⟩ := Option.bind_eq_some_iff.mp hrest
      refine List.forall_mem_cons.mpr ⟨?_, ih hothers⟩
      rw [hfirst]
      rfl

end Entries

section Merging

/-- What two layers say under one key. -/
def mergeOptions (merge : Value → Value → Value) : Option Value → Option Value → Option Value
  | base, none => base
  | none, some overlay => some overlay
  | some base, some overlay => some (merge base overlay)

/-- Two tables are merged key by key, and anything else is replaced. -/
structure RightBiased (merge : Value → Value → Value) : Prop where
  tables : ∀ {base overlay : List (String × Value)}, (base.map Prod.fst).Nodup →
    (overlay.map Prod.fst).Nodup → ∃ entries, merge (.table base) (.table overlay) =
      .table entries ∧ (entries.map Prod.fst).Nodup ∧
        ∀ key, entries.lookup key = mergeOptions merge (base.lookup key) (overlay.lookup key)
  other : ∀ {base overlay : Value}, base.isTable = false ∨ overlay.isTable = false →
    merge base overlay = overlay

variable {merge : Value → Value → Value}

/-- The layers, the highest first, merged from the lowest on. -/
def merged (merge : Value → Value → Value) : List Value → Option Value
  | [] => none
  | v :: rest => mergeOptions merge (merged merge rest) (some v)

/-- The layers that are left in the merged tree: a table hides nothing until the first layer that
is none, and everything else hides all layers below it. -/
def visible : List Value → List Value
  | [] => []
  | v :: rest => v :: if v.isTable then rest.takeWhile Value.isTable else []

lemma merged_cons (merge : Value → Value → Value) (v : Value) (rest : List Value) :
    ∃ w, merged merge (v :: rest) = some w := by
  rw [merged]
  cases merged merge rest with
  | none => exact ⟨v, rfl⟩
  | some base => exact ⟨merge base v, rfl⟩

lemma merged_eq_none {layers : List Value} (h : merged merge layers = none) : layers = [] := by
  cases layers with
  | nil => rfl
  | cons v rest =>
      obtain ⟨w, hw⟩ := merged_cons merge v rest
      rw [hw] at h
      cases h

lemma merged_scalar (hmerge : RightBiased merge) {v : Value} (h : v.isTable = false)
    (rest : List Value) : merged merge (v :: rest) = some v := by
  rw [merged]
  cases merged merge rest with
  | none => rfl
  | some base => exact congrArg some (hmerge.other (Or.inr h))

lemma merged_visible (hmerge : RightBiased merge) (layers : List Value) :
    merged merge (visible layers) = merged merge layers := by
  induction layers with
  | nil => rfl
  | cons v rest ih =>
      cases htable : v.isTable with
      | false =>
          rw [merged_scalar hmerge htable, visible, htable, merged_scalar hmerge htable]
      | true =>
          rw [visible, htable, if_pos rfl]
          cases rest with
          | nil => rfl
          | cons w rest =>
              cases hw : w.isTable with
              | true =>
                  rw [visible, hw, if_pos rfl] at ih
                  rw [List.takeWhile_cons_of_pos hw, merged, ih, ← merged]
              | false =>
                  have hnot : ¬ w.isTable = true := by rw [hw]; exact nofun
                  have hlower : merged merge (v :: w :: rest) = some (merge w v) := by
                    rw [merged, merged_scalar hmerge hw]
                    rfl
                  rw [List.takeWhile_cons_of_neg hnot, hlower, hmerge.other (Or.inl hw)]
                  rfl

/-- Merged tables have under a key what the layers have there, merged. -/
lemma merged_tables (hmerge : RightBiased merge) {layers : List Value} (hne : layers ≠ [])
    (htables : ∀ v ∈ layers, ∃ entries, v = .table entries ∧ (entries.map Prod.fst).Nodup) :
    ∃ entries, merged merge layers = some (.table entries) ∧ (entries.map Prod.fst).Nodup ∧
      ∀ key, entries.lookup key = merged merge (layers.filterMap (member key)) := by
  induction layers with
  | nil => exact absurd rfl hne
  | cons v rest ih =>
      obtain ⟨⟨overlay, rfl, hoverlay⟩, hrest⟩ := List.forall_mem_cons.mp htables
      have hlayers : ∀ key, merged merge ((Value.table overlay :: rest).filterMap (member key)) =
          mergeOptions merge (merged merge (rest.filterMap (member key))) (overlay.lookup key) := by
        intro key
        have hmember : member key (.table overlay) = overlay.lookup key := rfl
        cases hlookup : overlay.lookup key with
        | none => rw [List.filterMap_cons_none (hmember.trans hlookup)]; rfl
        | some value => rw [List.filterMap_cons_some (hmember.trans hlookup)]; rfl
      by_cases hnil : rest = []
      · subst hnil
        refine ⟨overlay, rfl, hoverlay, fun key => ?_⟩
        rw [hlayers]
        cases overlay.lookup key <;> rfl
      · obtain ⟨base, hbase, hkeys, hlookup⟩ := ih hnil hrest
        obtain ⟨entries, hentries, hnodup, heach⟩ := hmerge.tables hkeys hoverlay
        refine ⟨entries, ?_, hnodup, fun key => ?_⟩
        · rw [merged, hbase]
          exact congrArg some hentries
        · rw [heach, hlayers, hlookup]

end Merging

section Schemas

/-- Decoded settings. -/
inductive Decoded (α : Type) where
  | leaf (value : α)
  | node (entries : List (String × Decoded α))

/-- What a struct has for a field that is not written: it may be required, an option, which is
required in an array only, or have a default. -/
inductive Missing (α : Type) where
  | error
  | absent
  | default (value : Option (Decoded α))

/-- The type of a setting, with the layers of which the merged value decodes as the highest one. -/
structure Leaf (α : Type) where
  decode : Value → Option α
  Kept : List Value → Prop
  kept_iff : ∀ {merge : Value → Value → Value}, RightBiased merge → ∀ {v : Value}
    {rest : List Value}, (∀ w ∈ v :: rest, Distinct w ∧ (decode w).isSome = true) →
      ((merged merge (v :: rest)).bind decode = decode v ↔ Kept (v :: rest))

/-- A type of configurations: a setting, a map with any keys, or a struct with these fields. -/
inductive Schema (α : Type) where
  | setting (leaf : Leaf α)
  | map (entry : Schema α)
  | struct (names : List String) (child : String → Schema α) (missing : String → Missing α)

variable {α : Type}

def Decoded.setting : Decoded α → List String → Option α
  | .leaf value, [] => some value
  | .node entries, key :: path => (entries.lookup key).bind (·.setting path)
  | _, _ => none

def Missing.fallback (positional : Bool) : Missing α → Option (Option (Decoded α))
  | .error => none
  | .absent => if positional then none else some none
  | .default value => some value

def Missing.value : Missing α → Option (Decoded α)
  | .default value => value
  | _ => none

/-- The fields that a value writes: known keys of a table, or the first items of an array. -/
def written (names : List String) : Value → Option (List (String × Value))
  | .table entries => if entries.all (·.1 ∈ names) then some entries else none
  | .array items => if items.length ≤ names.length then some (names.zip items) else none
  | _ => none

def fieldOf (names : List String) (key : String) (v : Value) : Option Value :=
  (written names v).bind (·.lookup key)

def decodeField (decodeChild : Value → Option (Decoded α)) (missing : Missing α)
    (positional : Bool) : Option Value → Option (Option (Decoded α))
  | some v => (decodeChild v).map some
  | none => missing.fallback positional

def decode : Schema α → Value → Option (Decoded α)
  | .setting leaf, v => (leaf.decode v).map .leaf
  | .map entry, .table entries =>
      (entries.mapM fun e => (decode entry e.2).map (e.1, ·)).map .node
  | .map _, _ => none
  | .struct names child missing, v =>
      (written names v).bind fun fields =>
        (names.mapM fun name =>
          decodeField (decode (child name)) (missing name) v.isArray (fields.lookup name)).map
            fun found => .node (present names found)

/-- A setting has the value of the highest layer that sets it or, set by none, its default. -/
def settingOf : Schema α → List Value → List String → Option α
  | .setting leaf, layers, [] => layers.head?.bind leaf.decode
  | .map entry, layers, key :: path =>
      match layers.filterMap (member key) with
      | [] => none
      | v :: rest => settingOf entry (v :: rest) path
  | .struct names child missing, layers, key :: path =>
      if key ∈ names then
        match layers.filterMap (fieldOf names key) with
        | [] => (missing key).value.bind (·.setting path)
        | v :: rest => settingOf (child key) (v :: rest) path
      else none
  | _, _, _ => none

/-- The layers hidden behind others. -/
def hidden (front back : List Value) : List Value := front.drop (visible front).length ++ back

/-- Every setting keeps its value when the front layers are merged, with the back layers hidden
behind them: a setting that is left in the merged tree is kept by its type, and one that is only
in hidden layers is not missed. -/
def Kept : Schema α → List Value → List Value → Prop
  | .setting leaf, front, _ => leaf.Kept front
  | .map entry, front, back => ∀ key,
      match front.filterMap (member key) with
      | [] => ∀ v rest, back.filterMap (member key) = v :: rest →
          ∀ path, settingOf entry (v :: rest) path = none
      | v :: rest => Kept entry (v :: rest) (back.filterMap (member key))
  | .struct names child missing, front, back => ∀ key ∈ names,
      match (visible front).filterMap (fieldOf names key) with
      | [] => ∀ v rest, (hidden front back).filterMap (fieldOf names key) = v :: rest →
          ∀ path, settingOf (child key) (v :: rest) path = (missing key).value.bind (·.setting path)
      | v :: rest => Kept (child key) (v :: rest) ((hidden front back).filterMap (fieldOf names key))

variable {names : List String} {child : String → Schema α} {missing : String → Missing α}
  {entry : Schema α} {leaf : Leaf α}

lemma settingOf_map (layers : List Value) (key : String) (path : List String) :
    settingOf (.map entry) layers (key :: path) =
      match layers.filterMap (member key) with
      | [] => none
      | v :: rest => settingOf entry (v :: rest) path := rfl

lemma settingOf_struct (layers : List Value) (key : String) (path : List String) :
    settingOf (.struct names child missing) layers (key :: path) = if key ∈ names then
      match layers.filterMap (fieldOf names key) with
      | [] => (missing key).value.bind (·.setting path)
      | v :: rest => settingOf (child key) (v :: rest) path
    else none := rfl

lemma kept_setting (front back : List Value) : Kept (.setting leaf) front back = leaf.Kept front :=
  rfl

lemma kept_map (front back : List Value) : Kept (.map entry) front back = ∀ key,
    match front.filterMap (member key) with
    | [] => ∀ v rest, back.filterMap (member key) = v :: rest →
        ∀ path, settingOf entry (v :: rest) path = none
    | v :: rest => Kept entry (v :: rest) (back.filterMap (member key)) := rfl

lemma kept_struct (front back : List Value) : Kept (.struct names child missing) front back =
    ∀ key ∈ names,
      match (visible front).filterMap (fieldOf names key) with
      | [] => ∀ v rest, (hidden front back).filterMap (fieldOf names key) = v :: rest →
          ∀ path, settingOf (child key) (v :: rest) path = (missing key).value.bind (·.setting path)
      | v :: rest =>
          Kept (child key) (v :: rest) ((hidden front back).filterMap (fieldOf names key)) := rfl

end Schemas

section Decoding

variable {α : Type} {merge : Value → Value → Value} {names : List String}
  {child : String → Schema α} {missing : String → Missing α} {entry : Schema α}

/-- A layer that can be decoded alone. -/
def Fits (s : Schema α) (v : Value) : Prop := Distinct v ∧ (decode s v).isSome = true

/-- The front layers, merged and decoded, have the settings of all layers. -/
def Agrees (merge : Value → Value → Value) (s : Schema α) (front back : List Value) : Prop :=
  ∃ tree, (merged merge front).bind (decode s) = some tree ∧
    ∀ path, tree.setting path = settingOf s (front ++ back) path

lemma setting_node (entries : List (String × Decoded α)) (key : String) (path : List String) :
    (Decoded.node entries).setting (key :: path) = (entries.lookup key).bind (·.setting path) := rfl

lemma decode_setting (leaf : Leaf α) (v : Value) :
    decode (.setting leaf) v = (leaf.decode v).map .leaf := rfl

lemma decode_fields (v : Value) : decode (.struct names child missing) v =
    (written names v).bind fun fields =>
      (names.mapM fun name => decodeField (decode (child name)) (missing name) v.isArray
        (fields.lookup name)).map fun found => .node (present names found) := rfl

lemma fallback_eq {m : Missing α} {positional : Bool}
    (h : (m.fallback positional).isSome = true) : m.fallback positional = some m.value := by
  cases m with
  | error => cases h
  | absent =>
      cases positional with
      | false => rfl
      | true => cases h
  | default value => rfl

lemma exists_of_fits_map {v : Value} (h : Fits (.map entry) v) :
    ∃ entries, v = .table entries ∧ (entries.map Prod.fst).Nodup := by
  obtain ⟨hdistinct, hdecode⟩ := h
  cases v with
  | table entries => exact ⟨entries, rfl, hdistinct.keys⟩
  | _ => cases hdecode

lemma fits_member {v w : Value} {key : String} (h : Fits (.map entry) v)
    (hw : member key v = some w) : Fits entry w := by
  obtain ⟨entries, rfl, -⟩ := exists_of_fits_map h
  have hmem : (key, w) ∈ entries := mem_of_lookup hw
  obtain ⟨tree, htree⟩ := Option.isSome_iff_exists.mp h.2
  obtain ⟨found, hfound, -⟩ := Option.map_eq_some_iff.mp htree
  exact ⟨h.1.member hmem, mapM_entries_isSome hfound _ hmem⟩

/-- The settings of a decoded map. -/
lemma decode_map {entries : List (String × Value)} {tree : Decoded α}
    (h : decode (.map entry) (.table entries) = some tree) :
    tree.setting [] = none ∧ (∀ e ∈ entries, (decode entry e.2).isSome = true) ∧
      ∀ key path, tree.setting (key :: path) =
        ((entries.lookup key).bind (decode entry)).bind (·.setting path) := by
  obtain ⟨found, hfound, rfl⟩ := Option.map_eq_some_iff.mp h
  have hsome := mapM_entries_isSome hfound
  obtain ⟨found', hfound', hlookup⟩ := mapM_entries hsome
  obtain rfl : found = found' := Option.some.inj (hfound.symm.trans hfound')
  refine ⟨rfl, hsome, fun key path => ?_⟩
  rw [setting_node, hlookup]

lemma decode_map_exists {entries : List (String × Value)}
    (h : ∀ e ∈ entries, (decode entry e.2).isSome = true) :
    ∃ tree, decode (.map entry) (.table entries) = some tree := by
  obtain ⟨found, hfound, -⟩ := mapM_entries h
  exact ⟨.node found, Option.map_eq_some_iff.mpr ⟨found, hfound, rfl⟩⟩

/-- The settings of a decoded struct. -/
lemma decode_struct {v : Value} {fields : List (String × Value)} {tree : Decoded α}
    (hfields : written names v = some fields)
    (h : decode (.struct names child missing) v = some tree) :
    tree.setting [] = none ∧ (∀ key ∈ names, (decodeField (decode (child key)) (missing key)
      v.isArray (fields.lookup key)).isSome = true) ∧
      ∀ key path, tree.setting (key :: path) = if key ∈ names then
        ((decodeField (decode (child key)) (missing key) v.isArray (fields.lookup key)).bind
          id).bind (·.setting path) else none := by
  rw [decode_fields, hfields, Option.bind_some] at h
  obtain ⟨found, hfound, rfl⟩ := Option.map_eq_some_iff.mp h
  have hsome := mapM_names_isSome hfound
  obtain ⟨found', hfound', hlookup⟩ := mapM_names hsome
  obtain rfl : found = found' := Option.some.inj (hfound.symm.trans hfound')
  refine ⟨rfl, hsome, fun key path => ?_⟩
  rw [setting_node, hlookup]
  split <;> rfl

lemma decode_struct_exists {v : Value} {fields : List (String × Value)}
    (hfields : written names v = some fields)
    (h : ∀ key ∈ names, (decodeField (decode (child key)) (missing key) v.isArray
      (fields.lookup key)).isSome = true) :
    ∃ tree, decode (.struct names child missing) v = some tree := by
  obtain ⟨found, hfound, -⟩ := mapM_names h
  refine ⟨.node (present names found), ?_⟩
  rw [decode_fields, hfields, Option.bind_some, hfound]
  rfl

lemma written_of_fits {v : Value} (h : Fits (.struct names child missing) v) :
    ∃ fields, written names v = some fields ∧ ∀ key ∈ names, (decodeField (decode (child key))
      (missing key) v.isArray (fields.lookup key)).isSome = true := by
  obtain ⟨tree, htree⟩ := Option.isSome_iff_exists.mp h.2
  cases hfields : written names v with
  | none =>
      rw [decode_fields, hfields] at htree
      cases htree
  | some fields => exact ⟨fields, rfl, (decode_struct hfields htree).2.1⟩

lemma fits_field {v w : Value} {key : String} (h : Fits (.struct names child missing) v)
    (hkey : key ∈ names) (hw : fieldOf names key v = some w) : Fits (child key) w := by
  obtain ⟨fields, hfields, heach⟩ := written_of_fits h
  rw [fieldOf, hfields, Option.bind_some] at hw
  have hsome := heach key hkey
  rw [hw, decodeField, Option.isSome_map] at hsome
  refine ⟨?_, hsome⟩
  have hmem := mem_of_lookup hw
  cases v with
  | table entries =>
      rw [written] at hfields
      split at hfields
      · cases hfields
        exact h.1.member hmem
      · cases hfields
  | array items =>
      rw [written] at hfields
      split at hfields
      · cases hfields
        exact h.1.item (List.of_mem_zip hmem).2
      · cases hfields
  | _ => cases hfields

/-- A table that decodes as a struct writes its entries. -/
lemma written_of_decode {entries : List (String × Value)}
    (h : (decode (.struct names child missing) (.table entries)).isSome = true) :
    entries.all (·.1 ∈ names) = true ∧ written names (.table entries) = some entries := by
  have hwritten : written names (.table entries) =
      if entries.all (·.1 ∈ names) then some entries else none := rfl
  by_cases hall : entries.all (·.1 ∈ names) = true
  · exact ⟨hall, by rw [hwritten, if_pos hall]⟩
  · rw [decode_fields, hwritten, if_neg hall] at h
    cases h

lemma fieldOf_table {entries : List (String × Value)} (key : String)
    (h : Fits (.struct names child missing) (.table entries)) :
    fieldOf names key (.table entries) = entries.lookup key ∧ ∀ e ∈ entries, e.1 ∈ names := by
  obtain ⟨hall, hwritten⟩ := written_of_decode h.2
  rw [fieldOf, hwritten]
  exact ⟨rfl, fun e he => by simpa using List.all_eq_true.mp hall e he⟩

end Decoding

section Layering

variable {α : Type} {merge : Value → Value → Value} {names : List String}
  {child : String → Schema α} {missing : String → Missing α} {entry : Schema α}

lemma filterMap_eq_nil_of_merged {layers : List Value} {f : Value → Option Value}
    (h : merged merge (layers.filterMap f) = none) {v : Value} (hv : v ∈ layers) : f v = none :=
  List.filterMap_eq_nil_iff.mp (merged_eq_none h) v hv

/-- What the merged layers of a struct write: under each field, the visible layers merged. -/
lemma merged_struct (hmerge : RightBiased merge) {front : List Value} (hne : front ≠ [])
    (hfit : ∀ v ∈ front, Fits (.struct names child missing) v) :
    ∃ w fields, merged merge front = some w ∧ written names w = some fields ∧ ∀ key ∈ names,
      fields.lookup key = merged merge ((visible front).filterMap (fieldOf names key)) ∧
        (fields.lookup key = none → (missing key).fallback w.isArray = some (missing key).value) := by
  obtain ⟨v, rest, rfl⟩ := List.exists_cons_of_ne_nil hne
  obtain ⟨hv, hrest⟩ := List.forall_mem_cons.mp hfit
  obtain ⟨fields, hfields, heach⟩ := written_of_fits hv
  cases htable : v.isTable with
  | false =>
      refine ⟨v, fields, merged_scalar hmerge htable rest, hfields, fun key hkey => ⟨?_, ?_⟩⟩
      · have hfield : fieldOf names key v = fields.lookup key := by
          rw [fieldOf, hfields]
          rfl
        rw [visible, htable, if_neg Bool.false_ne_true]
        cases hlookup : fields.lookup key with
        | none => rw [List.filterMap_cons_none (hfield.trans hlookup)]; rfl
        | some w => rw [List.filterMap_cons_some (hfield.trans hlookup)]; rfl
      · intro hnone
        have hsome := heach key hkey
        rw [hnone] at hsome
        exact fallback_eq hsome
  | true =>
      obtain ⟨first, rfl⟩ := exists_table htable
      have hvisible : visible (.table first :: rest) =
          .table first :: rest.takeWhile Value.isTable := rfl
      have hfits : ∀ w ∈ visible (.table first :: rest), Fits (.struct names child missing) w := by
        rw [hvisible]
        refine List.forall_mem_cons.mpr ⟨hv, fun w hw => hrest w ?_⟩
        exact (List.takeWhile_prefix _).subset hw
      have htables : ∀ w ∈ visible (.table first :: rest), ∃ entries, w = .table entries ∧
          (entries.map Prod.fst).Nodup := by
        intro w hw
        have hw' : w.isTable = true := by
          rw [hvisible] at hw
          rcases List.mem_cons.mp hw with rfl | hmem
          · rfl
          · exact List.mem_takeWhile_imp hmem
        obtain ⟨entries, rfl⟩ := exists_table hw'
        exact ⟨entries, rfl, (hfits _ hw).1.keys⟩
      obtain ⟨entries, hentries, hnodup, hlookup⟩ :=
        merged_tables hmerge (by rw [hvisible]; exact List.cons_ne_nil _ _) htables
      have hsame : ∀ key, (visible (.table first :: rest)).filterMap (fieldOf names key) =
          (visible (.table first :: rest)).filterMap (member key) := by
        intro key
        refine List.filterMap_congr fun w hw => ?_
        obtain ⟨es, rfl, -⟩ := htables w hw
        exact (fieldOf_table key (hfits _ hw)).1
      have hknown : entries.all (·.1 ∈ names) = true := by
        refine List.all_eq_true.mpr fun e he => decide_eq_true ?_
        have hmerged := hlookup e.1
        rw [lookup_of_mem hnodup he] at hmerged
        by_contra hout
        have hnothing : (visible (.table first :: rest)).filterMap (member e.1) = [] := by
          refine List.filterMap_eq_nil_iff.mpr fun w hw => ?_
          obtain ⟨es, rfl, -⟩ := htables w hw
          refine Option.eq_none_iff_forall_ne_some.mpr fun x hx => hout ?_
          exact (fieldOf_table e.1 (hfits _ hw)).2 (e.1, x) (mem_of_lookup hx)
        rw [hnothing] at hmerged
        cases hmerged
      refine ⟨.table entries, entries, ?_, ?_, fun key hkey => ⟨?_, fun hnone => ?_⟩⟩
      · rw [← merged_visible hmerge, hentries]
      · rw [written, if_pos hknown]
      · rw [hsame, hlookup]
      · rw [hlookup] at hnone
        have hfirst : first.lookup key = none :=
          filterMap_eq_nil_of_merged hnone (v := .table first)
            (by rw [hvisible]; exact List.mem_cons_self)
        have hsome := heach key hkey
        rw [(written_of_decode hv.2).2] at hfields
        cases hfields
        rw [hfirst] at hsome
        exact fallback_eq hsome

lemma visible_isPrefix (layers : List Value) : visible layers <+: layers := by
  cases layers with
  | nil => exact List.prefix_refl _
  | cons v rest =>
      rw [visible]
      split
      · exact List.cons_prefix_cons.mpr ⟨rfl, List.takeWhile_prefix _⟩
      · exact List.cons_prefix_cons.mpr ⟨rfl, List.nil_prefix⟩

lemma visible_append_hidden (front back : List Value) :
    visible front ++ hidden front back = front ++ back := by
  have hfront := List.prefix_iff_eq_append.mp (visible_isPrefix front)
  rw [hidden, ← List.append_assoc, hfront]

lemma agrees_setting (hmerge : RightBiased merge) {leaf : Leaf α} {v : Value}
    {rest back : List Value} (hfit : ∀ w ∈ v :: rest, Fits (.setting leaf) w) :
    Agrees merge (.setting leaf) (v :: rest) back ↔ Kept (.setting leaf) (v :: rest) back := by
  have hdecodes : ∀ w ∈ v :: rest, Distinct w ∧ (leaf.decode w).isSome = true := by
    intro w hw
    obtain ⟨hdistinct, hsome⟩ := hfit w hw
    rw [decode_setting, Option.isSome_map] at hsome
    exact ⟨hdistinct, hsome⟩
  obtain ⟨w, hw⟩ := merged_cons merge v rest
  obtain ⟨a, ha⟩ := Option.isSome_iff_exists.mp (hdecodes v List.mem_cons_self).2
  rw [kept_setting, ← leaf.kept_iff hmerge hdecodes, Agrees, hw, Option.bind_some, Option.bind_some]
  constructor
  · rintro ⟨tree, htree, hsettings⟩
    obtain ⟨b, hb, rfl⟩ := Option.map_eq_some_iff.mp htree
    exact hb.trans (hsettings [])
  · intro heq
    refine ⟨.leaf a, ?_, fun path => ?_⟩
    · rw [decode_setting, heq, ha]
      rfl
    · cases path with
      | nil => exact ha.symm
      | cons key path => rfl

/-- What the layers of one field say; `missed` is said where there is none. -/
def fieldSetting (s : Schema α) (missed : List String → Option α) : List Value → List String → Option α
  | [], path => missed path
  | v :: rest, path => settingOf s (v :: rest) path

/-- What is decoded of one field. -/
def fieldValue (s : Schema α) (missed : List String → Option α) (field : Option Value)
    (path : List String) : Option α :=
  match field with
  | none => missed path
  | some w => (decode s w).bind (·.setting path)

/-- One field is kept: where nothing of it is visible, what is hidden is not missed. -/
def KeptField (s : Schema α) (missed : List String → Option α) : List Value → List Value → Prop
  | [], hidden => ∀ v rest, hidden = v :: rest → ∀ path, settingOf s (v :: rest) path = missed path
  | v :: rest, hidden => Kept s (v :: rest) hidden

lemma keptField_iff {s : Schema α} {missed : List String → Option α} {shown hidden : List Value}
    (ih : shown ≠ [] → (Agrees merge s shown hidden ↔ Kept s shown hidden)) :
    KeptField s missed shown hidden ↔
      (∀ w, merged merge shown = some w → (decode s w).isSome = true) ∧ ∀ path,
        fieldValue s missed (merged merge shown) path =
          fieldSetting s missed (shown ++ hidden) path := by
  cases shown with
  | nil =>
      constructor
      · intro h
        refine ⟨fun w hw => (by cases hw), fun path => ?_⟩
        cases hidden with
        | nil => rfl
        | cons v rest => exact (h v rest rfl path).symm
      · rintro ⟨-, h⟩ v rest rfl path
        exact (h path).symm
  | cons v rest =>
      obtain ⟨w, hw⟩ := merged_cons merge v rest
      have hvalue : ∀ path, fieldValue s missed (some w) path = (decode s w).bind (·.setting path) :=
        fun _ => rfl
      rw [KeptField, ← ih (List.cons_ne_nil _ _), Agrees, hw, Option.bind_some]
      constructor
      · rintro ⟨tree, htree, hsettings⟩
        refine ⟨fun w' hw' => ?_, fun path => ?_⟩
        · cases hw'
          rw [htree]
          rfl
        · rw [hvalue, htree]
          exact hsettings path
      · rintro ⟨hsome, hsettings⟩
        obtain ⟨tree, htree⟩ := Option.isSome_iff_exists.mp (hsome w rfl)
        refine ⟨tree, htree, fun path => ?_⟩
        have hpath := hsettings path
        rw [hvalue, htree] at hpath
        exact hpath

lemma kept_map_fields (front back : List Value) : Kept (.map entry) front back = ∀ key,
    KeptField entry (fun _ => none) (front.filterMap (member key)) (back.filterMap (member key)) := by
  rw [kept_map]
  refine forall_congr fun key => ?_
  cases front.filterMap (member key) <;> rfl

lemma kept_struct_fields (front back : List Value) :
    Kept (.struct names child missing) front back = ∀ key ∈ names,
      KeptField (child key) (fun path => (missing key).value.bind (·.setting path))
        ((visible front).filterMap (fieldOf names key))
        ((hidden front back).filterMap (fieldOf names key)) := by
  rw [kept_struct]
  refine forall_congr fun key => forall_congr fun _ => ?_
  cases (visible front).filterMap (fieldOf names key) <;> rfl

/-- Merged maps agree with their layers exactly when every entry decodes and says what they say. -/
lemma agrees_map_iff {front back : List Value} {entries : List (String × Value)}
    (hentries : merged merge front = some (.table entries)) (hnodup : (entries.map Prod.fst).Nodup) :
    Agrees merge (.map entry) front back ↔
      (∀ key w, entries.lookup key = some w → (decode entry w).isSome = true) ∧ ∀ key path,
        fieldValue entry (fun _ => none) (entries.lookup key) path =
          settingOf (.map entry) (front ++ back) (key :: path) := by
  have hvalue : ∀ key path, fieldValue entry (fun _ => none) (entries.lookup key) path =
      ((entries.lookup key).bind (decode entry)).bind (·.setting path) := by
    intro key path
    cases entries.lookup key <;> rfl
  rw [Agrees, hentries, Option.bind_some]
  constructor
  · rintro ⟨tree, htree, hsettings⟩
    obtain ⟨-, hsome, hpaths⟩ := decode_map htree
    refine ⟨fun key w hw => hsome _ (mem_of_lookup hw), fun key path => ?_⟩
    rw [hvalue, ← hpaths, hsettings]
  · rintro ⟨hsome, hsettings⟩
    obtain ⟨tree, htree⟩ :=
      decode_map_exists fun e he => hsome e.1 e.2 (lookup_of_mem hnodup he)
    obtain ⟨hroot, -, hpaths⟩ := decode_map htree
    refine ⟨tree, htree, fun path => ?_⟩
    cases path with
    | nil => exact hroot
    | cons key path => rw [hpaths, ← hvalue, hsettings]

lemma agrees_map (hmerge : RightBiased merge) {front back : List Value} (hne : front ≠ [])
    (hfit : ∀ w ∈ front ++ back, Fits (.map entry) w)
    (ih : ∀ {shown hidden : List Value}, shown ≠ [] → (∀ w ∈ shown ++ hidden, Fits entry w) →
      (Agrees merge entry shown hidden ↔ Kept entry shown hidden)) :
    Agrees merge (.map entry) front back ↔ Kept (.map entry) front back := by
  have hfront : ∀ w ∈ front, ∃ entries, w = .table entries ∧ (entries.map Prod.fst).Nodup :=
    fun w hw => exists_of_fits_map (hfit w (List.mem_append_left _ hw))
  obtain ⟨entries, hentries, hnodup, hlookup⟩ := merged_tables hmerge hne hfront
  have hfits : ∀ key, ∀ w ∈ front.filterMap (member key) ++ back.filterMap (member key),
      Fits entry w := by
    intro key w hw
    rw [← List.filterMap_append] at hw
    obtain ⟨v, hv, hmember⟩ := List.mem_filterMap.mp hw
    exact fits_member (hfit v hv) hmember
  have hsetting : ∀ key path, settingOf (.map entry) (front ++ back) (key :: path) =
      fieldSetting entry (fun _ => none)
        (front.filterMap (member key) ++ back.filterMap (member key)) path := by
    intro key path
    rw [settingOf_map, ← List.filterMap_append]
    cases (front ++ back).filterMap (member key) <;> rfl
  have hfield : ∀ key, KeptField entry (fun _ => none) (front.filterMap (member key))
      (back.filterMap (member key)) ↔ _ := fun key => keptField_iff fun hshown => ih hshown (hfits key)
  rw [agrees_map_iff hentries hnodup, kept_map_fields]
  simp only [hlookup, hsetting, hfield]
  exact forall_and.symm

/-- Merged structs agree with their layers exactly when every field decodes and says what they say. -/
lemma agrees_struct_iff {front back : List Value} {w : Value} {fields : List (String × Value)}
    (hw : merged merge front = some w) (hfields : written names w = some fields)
    (hmissing : ∀ key ∈ names, fields.lookup key = none →
      (missing key).fallback w.isArray = some (missing key).value) :
    Agrees merge (.struct names child missing) front back ↔
      (∀ key ∈ names, ∀ u, fields.lookup key = some u → (decode (child key) u).isSome = true) ∧
        ∀ key ∈ names, ∀ path,
          fieldValue (child key) (fun path => (missing key).value.bind (·.setting path))
              (fields.lookup key) path =
            settingOf (.struct names child missing) (front ++ back) (key :: path) := by
  have hvalue : ∀ key ∈ names, ∀ path,
      fieldValue (child key) (fun path => (missing key).value.bind (·.setting path))
          (fields.lookup key) path =
        ((decodeField (decode (child key)) (missing key) w.isArray (fields.lookup key)).bind id).bind
          (·.setting path) := by
    intro key hkey path
    cases hlookup : fields.lookup key with
    | none =>
        rw [decodeField, hmissing key hkey hlookup]
        rfl
    | some u =>
        rw [decodeField, fieldValue]
        cases decode (child key) u <;> rfl
  rw [Agrees, hw, Option.bind_some]
  constructor
  · rintro ⟨tree, htree, hsettings⟩
    obtain ⟨-, hsome, hpaths⟩ := decode_struct hfields htree
    refine ⟨fun key hkey u hu => ?_, fun key hkey path => ?_⟩
    · have hone := hsome key hkey
      rwa [hu, decodeField, Option.isSome_map] at hone
    · rw [hvalue key hkey, ← hsettings, hpaths, if_pos hkey]
  · rintro ⟨hsome, hsettings⟩
    have heach : ∀ key ∈ names, (decodeField (decode (child key)) (missing key) w.isArray
        (fields.lookup key)).isSome = true := by
      intro key hkey
      cases hlookup : fields.lookup key with
      | none =>
          rw [decodeField, hmissing key hkey hlookup]
          rfl
      | some u =>
          rw [decodeField, Option.isSome_map]
          exact hsome key hkey u hlookup
    obtain ⟨tree, htree⟩ := decode_struct_exists hfields heach
    obtain ⟨hroot, -, hpaths⟩ := decode_struct hfields htree
    refine ⟨tree, htree, fun path => ?_⟩
    cases path with
    | nil => exact hroot
    | cons key path =>
        by_cases hkey : key ∈ names
        · rw [hpaths, if_pos hkey, ← hvalue key hkey, hsettings key hkey]
        · rw [hpaths, if_neg hkey, settingOf_struct, if_neg hkey]

lemma agrees_struct (hmerge : RightBiased merge) {front back : List Value} (hne : front ≠ [])
    (hfit : ∀ w ∈ front ++ back, Fits (.struct names child missing) w)
    (ih : ∀ key {shown hidden : List Value}, shown ≠ [] →
      (∀ w ∈ shown ++ hidden, Fits (child key) w) →
        (Agrees merge (child key) shown hidden ↔ Kept (child key) shown hidden)) :
    Agrees merge (.struct names child missing) front back ↔
      Kept (.struct names child missing) front back := by
  obtain ⟨w, fields, hw, hfields, heach⟩ :=
    merged_struct hmerge hne fun v hv => hfit v (List.mem_append_left _ hv)
  have hsplit := (visible_append_hidden front back).symm
  have hfits : ∀ key ∈ names, ∀ u ∈ (visible front).filterMap (fieldOf names key) ++
      (hidden front back).filterMap (fieldOf names key), Fits (child key) u := by
    intro key hkey u hu
    rw [← List.filterMap_append, ← hsplit] at hu
    obtain ⟨v, hv, hfield⟩ := List.mem_filterMap.mp hu
    exact fits_field (hfit v hv) hkey hfield
  have hsetting : ∀ key ∈ names, ∀ path,
      settingOf (.struct names child missing) (front ++ back) (key :: path) =
        fieldSetting (child key) (fun path => (missing key).value.bind (·.setting path))
          ((visible front).filterMap (fieldOf names key) ++
            (hidden front back).filterMap (fieldOf names key)) path := by
    intro key hkey path
    rw [settingOf_struct, if_pos hkey, ← List.filterMap_append, ← hsplit]
    cases (front ++ back).filterMap (fieldOf names key) <;> rfl
  have hfield : ∀ key ∈ names,
      KeptField (child key) (fun path => (missing key).value.bind (·.setting path))
        ((visible front).filterMap (fieldOf names key))
        ((hidden front back).filterMap (fieldOf names key)) ↔ _ :=
    fun key hkey => keptField_iff fun hshown => ih key hshown (hfits key hkey)
  rw [agrees_struct_iff hw hfields fun key hkey => (heach key hkey).2, kept_struct_fields]
  constructor
  · rintro ⟨hsome, hvalues⟩ key hkey
    refine (hfield key hkey).mpr ⟨fun u hu => hsome key hkey u ?_, fun path => ?_⟩
    · rw [(heach key hkey).1, hu]
    · rw [← (heach key hkey).1, hvalues key hkey, hsetting key hkey]
  · intro hkept
    have hboth := fun key hkey => (hfield key hkey).mp (hkept key hkey)
    refine ⟨fun key hkey u hu => (hboth key hkey).1 u ?_, fun key hkey path => ?_⟩
    · rw [← (heach key hkey).1, hu]
    · rw [(heach key hkey).1, (hboth key hkey).2, hsetting key hkey]

/-- The first layer that writes a field gives its setting. -/
lemma settingOf_first {leaf : Leaf α} {key : String} {v w : Value} (hkey : key ∈ names)
    (hchild : child key = .setting leaf) (hfield : fieldOf names key v = some w)
    (rest : List Value) : settingOf (.struct names child missing) (v :: rest) [key] =
      leaf.decode w := by
  rw [settingOf_struct, if_pos hkey, List.filterMap_cons_some hfield, hchild]
  rfl

/-- A layer that does not write a field leaves its settings to the layers below. -/
lemma settingOf_skip {key : String} {v : Value} (hfield : fieldOf names key v = none)
    (rest : List Value) (path : List String) :
    settingOf (.struct names child missing) (v :: rest) (key :: path) =
      settingOf (.struct names child missing) rest (key :: path) := by
  rw [settingOf_struct, settingOf_struct, List.filterMap_cons_none hfield]

/-- The merged layers decode to the settings of all layers if and only if every setting is
kept. -/
theorem agrees_iff (hmerge : RightBiased merge) (s : Schema α) {front back : List Value}
    (hne : front ≠ []) (hfit : ∀ w ∈ front ++ back, Fits s w) :
    Agrees merge s front back ↔ Kept s front back := by
  induction s generalizing front back with
  | setting leaf =>
      obtain ⟨v, rest, rfl⟩ := List.exists_cons_of_ne_nil hne
      exact agrees_setting hmerge fun w hw => hfit w (List.mem_append_left _ hw)
  | map entry ih => exact agrees_map hmerge hne hfit fun hshown hfits => ih hshown hfits
  | struct names child missing ih =>
      exact agrees_struct hmerge hne hfit fun key _ _ hshown hfits => ih key hshown hfits

end Layering

section Leaves

variable {α : Type} {merge : Value → Value → Value}

/-- A type with no value written as a table. -/
def Leaf.plain (decode : Value → Option α) (scalar : ∀ entries, decode (.table entries) = none) :
    Leaf α where
  decode := decode
  Kept _ := True
  kept_iff := by
    intro merge hmerge v rest hfit
    have htable : v.isTable = false := by
      cases v with
      | table entries =>
          have hsome := (hfit _ List.mem_cons_self).2
          rw [scalar] at hsome
          cases hsome
      | _ => rfl
    rw [merged_scalar hmerge htable, Option.bind_some]
    exact iff_of_true rfl trivial

def isEmpty : Value → Bool
  | .table entries => entries.isEmpty
  | .array items => items.isEmpty
  | _ => false

/-- What a variant carries: nothing, one value, or fields, none of which is written as a table. The
decoded fields tell which of them were written. -/
inductive Variant (α : Type) where
  | unit (value : α)
  | newtype (decode : Value → Option α) (scalar : ∀ entries, decode (.table entries) = none)
  | struct (names : List String) (build : List (Option Value) → Option α)
      (scalars : ∀ {fields a}, build fields = some a → ∀ v, some v ∈ fields → v.isTable = false)
      (separates : ∀ {fields others a}, build fields = some a → build others = some a →
        fields.map Option.isSome = others.map Option.isSome)

def Variant.decode : Variant α → Value → Option α
  | .unit value, payload => if isEmpty payload then some value else none
  | .newtype decode _, payload => decode payload
  | .struct names build _ _, .table entries => build (names.map (entries.lookup ·))
  | .struct names build _ _, .array items =>
      if items.length = names.length then build (items.map some) else none
  | .struct .., _ => none

def Variant.names : Variant α → List String
  | .struct names .. => names
  | _ => []

/-- An enumeration: the name of a variant that carries nothing, or a table of one variant. -/
def decodeTagged (variants : List (String × Variant α)) : Value → Option α
  | .string name =>
      match variants.lookup name with
      | some (.unit value) => some value
      | _ => none
  | .table [(name, payload)] => (variants.lookup name).bind (·.decode payload)
  | _ => none

/-- A variant that is written as a table is over no table of another variant, and its fields are
over no table of fields with one that it leaves out. -/
def TaggedKept (variants : List (String × Variant α)) : List Value → Prop
  | .table [(name, payload)] :: rest =>
      (∀ v ∈ rest.takeWhile Value.isTable, (member name v).isSome = true) ∧
        (payload.isTable = true → ∀ variant, variants.lookup name = some variant →
          ∀ key ∈ variant.names, member key payload = none →
            ∀ v ∈ ((rest.takeWhile Value.isTable).filterMap (member name)).takeWhile Value.isTable,
              member key v = none)
  | _ => True

lemma member_single (key name : String) (payload : Value) :
    member key (.table [(name, payload)]) = if key = name then some payload else none := by
  rw [member, List.lookup_cons]
  by_cases hkey : key = name
  · rw [if_pos hkey, beq_iff_eq.mpr hkey]
  · rw [if_neg hkey, beq_eq_false_iff_ne.mpr hkey]
    rfl

lemma eq_nil_of_lookup {entries : List (String × Value)}
    (h : ∀ key, entries.lookup key = none) : entries = [] := by
  cases entries with
  | nil => rfl
  | cons entry entries =>
      have hfirst := h entry.1
      rw [List.lookup_cons, beq_self_eq_true] at hfirst
      cases hfirst

lemma eq_singleton_of_keys {entries : List (String × Value)} {name : String} {payload : Value}
    (hkeys : (entries.map Prod.fst).Nodup) (hname : ∀ entry ∈ entries, entry.1 = name)
    (hlookup : entries.lookup name = some payload) : entries = [(name, payload)] := by
  cases entries with
  | nil => cases hlookup
  | cons entry entries =>
      obtain ⟨key, value⟩ := entry
      obtain ⟨hfirst, hrest⟩ := List.forall_mem_cons.mp hname
      obtain rfl : key = name := hfirst
      have hnone : entries = [] := by
        cases entries with
        | nil => rfl
        | cons other entries =>
            have hother : other.1 = key := hrest other List.mem_cons_self
            have hfresh := (List.nodup_cons.mp hkeys).1
            exact absurd (List.mem_map.mpr ⟨other, List.mem_cons_self, hother⟩) hfresh
      subst hnone
      rw [List.lookup_cons, beq_self_eq_true] at hlookup
      cases hlookup
      rfl

/-- The tables at the top of the layers, merged. -/
lemma merged_run (hmerge : RightBiased merge) {entries : List (String × Value)}
    {rest : List Value} (hfit : ∀ v ∈ Value.table entries :: rest, Distinct v) :
    ∃ found, merged merge (.table entries :: rest) = some (.table found) ∧
      (found.map Prod.fst).Nodup ∧ ∀ key, found.lookup key =
        merged merge ((Value.table entries :: rest.takeWhile Value.isTable).filterMap
          (member key)) := by
  have hvisible : visible (.table entries :: rest) =
      .table entries :: rest.takeWhile Value.isTable := rfl
  rw [← merged_visible hmerge, hvisible]
  refine merged_tables hmerge (List.cons_ne_nil _ _) fun v hv => ?_
  rcases List.mem_cons.mp hv with rfl | hmem
  · exact ⟨entries, rfl, (hfit _ List.mem_cons_self).keys⟩
  · obtain ⟨es, rfl⟩ := exists_table (List.mem_takeWhile_imp hmem)
    have hrest := (List.takeWhile_prefix _).subset hmem
    exact ⟨es, rfl, (hfit _ (List.mem_cons_of_mem _ hrest)).keys⟩

lemma variant_iff (hmerge : RightBiased merge) {variant : Variant α} {payload : Value}
    {rest : List Value}
    (hfit : ∀ v ∈ payload :: rest, Distinct v ∧ (variant.decode v).isSome = true) :
    (merged merge (payload :: rest)).bind variant.decode = variant.decode payload ↔
      (payload.isTable = true → ∀ key ∈ variant.names, member key payload = none →
        ∀ v ∈ rest.takeWhile Value.isTable, member key v = none) := by
  cases htable : payload.isTable with
  | false =>
      rw [merged_scalar hmerge htable, Option.bind_some]
      exact iff_of_true rfl nofun
  | true =>
      obtain ⟨first, rfl⟩ := exists_table htable
      obtain ⟨hfirst, hrest⟩ := List.forall_mem_cons.mp hfit
      obtain ⟨found, hfound, -, hlookup⟩ := merged_run hmerge fun v hv => (hfit v hv).1
      rw [hfound, Option.bind_some]
      cases variant with
      | unit value =>
          have hempty : ∀ v ∈ Value.table first :: rest.takeWhile Value.isTable,
              ∀ key, member key v = none := by
            intro v hv key
            have hv' : v ∈ Value.table first :: rest :=
              (List.cons_prefix_cons.mpr ⟨rfl, List.takeWhile_prefix _⟩).subset hv
            have hsome := (hfit v hv').2
            rw [Variant.decode] at hsome
            cases v with
            | table entries =>
                cases entries with
                | nil => rfl
                | cons entry entries => cases hsome
            | _ => rfl
          have hnil : found = [] := by
            refine eq_nil_of_lookup fun key => ?_
            rw [hlookup, List.filterMap_eq_nil_iff.mpr fun v hv => hempty v hv key]
            rfl
          have hfirstnil : first = [] :=
            eq_nil_of_lookup fun key => hempty _ List.mem_cons_self key
          rw [hnil, hfirstnil]
          exact iff_of_true rfl nofun
      | newtype decode scalar =>
          have hsome := hfirst.2
          rw [Variant.decode, scalar] at hsome
          cases hsome
      | struct names build scalars separates =>
          obtain ⟨a, ha⟩ := Option.isSome_iff_exists.mp hfirst.2
          rw [Variant.decode] at ha
          have hset : ∀ key ∈ names, ∀ u, first.lookup key = some u →
              found.lookup key = some u := by
            intro key hkey u hu
            have hscalar := scalars ha u (List.mem_map.mpr ⟨key, hkey, hu⟩)
            have hmember : member key (.table first) = some u := hu
            rw [hlookup, List.filterMap_cons_some hmember, merged_scalar hmerge hscalar]
          have hunset : ∀ key, first.lookup key = none → (found.lookup key = none ↔
              ∀ v ∈ rest.takeWhile Value.isTable, member key v = none) := by
            intro key hnone
            have hmember : member key (.table first) = none := hnone
            rw [hlookup, List.filterMap_cons_none hmember]
            constructor
            · exact fun h => List.filterMap_eq_nil_iff.mp (merged_eq_none h)
            · intro h
              rw [List.filterMap_eq_nil_iff.mpr h]
              rfl
          have hmember : ∀ key, member key (.table first) = first.lookup key := fun _ => rfl
          simp only [Variant.decode, Variant.names, hmember, forall_const]
          constructor
          · intro heq key hkey hnone
            have hsame := separates (heq.trans ha) ha
            rw [List.map_map, List.map_map] at hsame
            have hone := List.map_inj_left.mp hsame key hkey
            simp only [Function.comp_apply, hnone, Option.isSome_none,
              Option.isSome_eq_false_iff, Option.isNone_iff_eq_none] at hone
            exact (hunset key hnone).mp hone
          · intro h
            congr 1
            refine List.map_congr_left fun key hkey => ?_
            cases hfield : first.lookup key with
            | none => exact (hunset key hfield).mpr (h key hkey hfield)
            | some u => exact hset key hkey u hfield

lemma decodeTagged_table {variants : List (String × Variant α)} {entries : List (String × Value)}
    (h : (decodeTagged variants (.table entries)).isSome = true) :
    ∃ name payload variant, entries = [(name, payload)] ∧ variants.lookup name = some variant ∧
      (variant.decode payload).isSome = true := by
  unfold decodeTagged at h
  split at h
  · next heq => cases heq
  · next name payload heq =>
    cases heq
    cases hvariant : variants.lookup name with
    | none =>
        rw [hvariant] at h
        cases h
    | some variant =>
        rw [hvariant] at h
        exact ⟨name, payload, variant, rfl, hvariant, h⟩
  · cases h

/-- The layers of an enumeration that are tables have one variant each. -/
lemma tagged_forms {variants : List (String × Variant α)} {rest : List Value}
    (hfit : ∀ w ∈ rest, Distinct w ∧ (decodeTagged variants w).isSome = true) :
    ∀ w ∈ rest.takeWhile Value.isTable, ∃ other value variant, w = .table [(other, value)] ∧
      variants.lookup other = some variant ∧ (variant.decode value).isSome = true ∧
        Distinct value := by
  intro w hw
  obtain ⟨es, rfl⟩ := exists_table (List.mem_takeWhile_imp hw)
  obtain ⟨hdistinct, hsome⟩ := hfit _ ((List.takeWhile_prefix _).subset hw)
  obtain ⟨other, value, variant, rfl, hother, hvalue⟩ := decodeTagged_table hsome
  exact ⟨other, value, variant, rfl, hother, hvalue, hdistinct.member (List.mem_singleton.mpr rfl)⟩

/-- Tables of one and the same key are merged under it. -/
lemma merged_singles {name : String} {payload : Value} {tables : List Value}
    {found : List (String × Value)} (hnodup : (found.map Prod.fst).Nodup)
    (hlookup : ∀ key, found.lookup key =
      merged merge ((Value.table [(name, payload)] :: tables).filterMap (member key)))
    (hforms : ∀ w ∈ tables, ∃ value, w = .table [(name, value)]) :
    ∃ whole, merged merge (payload :: tables.filterMap (member name)) = some whole ∧
      found = [(name, whole)] := by
  obtain ⟨whole, hwhole⟩ := merged_cons merge payload (tables.filterMap (member name))
  have hnamed : member name (.table [(name, payload)]) = some payload := by
    rw [member_single, if_pos rfl]
  have hname := hlookup name
  rw [List.filterMap_cons_some hnamed, hwhole] at hname
  have hkeys : ∀ entry ∈ found, entry.1 = name := by
    intro entry hentry
    have hmerged := hlookup entry.1
    rw [lookup_of_mem hnodup hentry] at hmerged
    by_contra hne
    have hnothing :
        (Value.table [(name, payload)] :: tables).filterMap (member entry.1) = [] := by
      refine List.filterMap_eq_nil_iff.mpr (List.forall_mem_cons.mpr ⟨?_, fun w hw => ?_⟩)
      · rw [member_single, if_neg hne]
      · obtain ⟨value, rfl⟩ := hforms w hw
        rw [member_single, if_neg hne]
    rw [hnothing] at hmerged
    cases hmerged
  exact ⟨whole, hwhole, eq_singleton_of_keys hnodup hkeys hname⟩

/-- A merged table with a single key has no other key in any of its layers. -/
lemma same_of_single {name key : String} {payload value : Value} {tables : List Value}
    {found : List (String × Value)}
    (hlookup : ∀ key, found.lookup key =
      merged merge ((Value.table [(name, payload)] :: tables).filterMap (member key)))
    (hsingle : found = [(key, value)]) {other : String} {w : Value}
    (hw : .table [(other, w)] ∈ tables) : other = name := by
  have hin : ∀ {k : String} {v : Value}, .table [(k, v)] ∈ Value.table [(name, payload)] :: tables →
      k = key := by
    intro k v hmem
    by_contra hne
    have hnone : found.lookup k = none := by
      rw [hsingle, List.lookup_cons, beq_eq_false_iff_ne.mpr hne]
      rfl
    rw [hlookup] at hnone
    have hmember := List.filterMap_eq_nil_iff.mp (merged_eq_none hnone) _ hmem
    rw [member_single, if_pos rfl] at hmember
    cases hmember
  exact (hin (List.mem_cons_of_mem _ hw)).trans (hin List.mem_cons_self).symm

/-- The merged layers of an enumeration decode as the highest one if and only if it is kept. -/
lemma tagged_iff (hmerge : RightBiased merge) {variants : List (String × Variant α)} {v : Value}
    {rest : List Value}
    (hfit : ∀ w ∈ v :: rest, Distinct w ∧ (decodeTagged variants w).isSome = true) :
    (merged merge (v :: rest)).bind (decodeTagged variants) = decodeTagged variants v ↔
      TaggedKept variants (v :: rest) := by
  obtain ⟨hv, hrest⟩ := List.forall_mem_cons.mp hfit
  cases htable : v.isTable with
  | false =>
      rw [merged_scalar hmerge htable, Option.bind_some]
      refine iff_of_true rfl ?_
      unfold TaggedKept
      split
      · next heq =>
        cases heq
        cases htable
      · trivial
  | true =>
      obtain ⟨entries, rfl⟩ := exists_table htable
      obtain ⟨name, payload, variant, rfl, hvariant, hpayload⟩ := decodeTagged_table hv.2
      obtain ⟨found, hfound, hnodup, hlookup⟩ := merged_run hmerge fun w hw => (hfit w hw).1
      have hforms := tagged_forms hrest
      rw [hfound, Option.bind_some, TaggedKept]
      by_cases hsame : ∀ w ∈ rest.takeWhile Value.isTable, (member name w).isSome = true
      · have hnamed : ∀ w ∈ rest.takeWhile Value.isTable, ∃ value, w = .table [(name, value)] ∧
            Distinct value ∧ (variant.decode value).isSome = true := by
          intro w hw
          obtain ⟨other, value, variant', rfl, hother, hvalue, hdistinct⟩ := hforms w hw
          have hsome := hsame _ hw
          rw [member_single] at hsome
          by_cases heq : name = other
          · subst heq
            obtain rfl : variant = variant' := Option.some.inj (hvariant.symm.trans hother)
            exact ⟨value, rfl, hdistinct, hvalue⟩
          · rw [if_neg heq] at hsome
            cases hsome
        obtain ⟨whole, hwhole, rfl⟩ := merged_singles hnodup hlookup fun w hw => by
          obtain ⟨value, heq, -⟩ := hnamed w hw
          exact ⟨value, heq⟩
        have hpayloads : ∀ w ∈ payload :: (rest.takeWhile Value.isTable).filterMap (member name),
            Distinct w ∧ (variant.decode w).isSome = true := by
          refine List.forall_mem_cons.mpr ⟨⟨hv.1.member (List.mem_singleton.mpr rfl), hpayload⟩, ?_⟩
          intro w hw
          obtain ⟨u, hu, hmember⟩ := List.mem_filterMap.mp hw
          obtain ⟨value, rfl, hdecodes⟩ := hnamed u hu
          rw [member_single, if_pos rfl] at hmember
          cases hmember
          exact hdecodes
        have hiff := variant_iff hmerge hpayloads
        rw [hwhole, Option.bind_some] at hiff
        rw [decodeTagged, decodeTagged, hvariant, Option.bind_some, Option.bind_some, hiff]
        constructor
        · intro h
          refine ⟨hsame, fun htab variant' hvariant' => ?_⟩
          cases hvariant'
          exact h htab
        · exact fun h htab => h.2 htab variant rfl
      · refine iff_of_false (fun heq => hsame fun w hw => ?_) fun h => hsame h.1
        have hsome := hv.2
        rw [← heq] at hsome
        obtain ⟨key, value, -, hsingle, -⟩ := decodeTagged_table hsome
        obtain ⟨other, value', -, rfl, -⟩ := hforms w hw
        rw [same_of_single hlookup hsingle hw, member_single, if_pos rfl]
        rfl

/-- The type of an enumeration. -/
def Leaf.tagged (variants : List (String × Variant α)) : Leaf α where
  decode := decodeTagged variants
  Kept := TaggedKept variants
  kept_iff hmerge _ _ hfit := tagged_iff hmerge hfit

end Leaves

section Base

variable {α : Type} {merge : Value → Value → Value}

/-- One layer alone is always kept. -/
lemma kept_single (hmerge : RightBiased merge) (s : Schema α) {v : Value} (h : Fits s v) :
    Kept s [v] [] := by
  induction s generalizing v with
  | setting leaf =>
      have hsome := h.2
      rw [decode_setting, Option.isSome_map] at hsome
      refine (leaf.kept_iff hmerge ?_).mp rfl
      intro w hw
      obtain rfl := List.mem_singleton.mp hw
      exact ⟨h.1, hsome⟩
  | map entry ih =>
      intro key
      cases hmember : member key v with
      | none =>
          rw [List.filterMap_cons_none hmember]
          exact nofun
      | some w =>
          rw [List.filterMap_cons_some hmember]
          exact ih (fits_member h hmember)
  | struct names child missing ih =>
      intro key hkey
      have hvisible : visible [v] = [v] := by
        rw [visible]
        cases v.isTable <;> rfl
      have hhidden : hidden [v] [] = [] := by
        rw [hidden, hvisible]
        rfl
      rw [hvisible, hhidden]
      cases hfield : fieldOf names key v with
      | none =>
          rw [List.filterMap_cons_none hfield]
          exact nofun
      | some w =>
          rw [List.filterMap_cons_some hfield]
          exact ih key (fits_field h hkey hfield)

/-- The settings of one layer. -/
lemma setting_of_decode (hmerge : RightBiased merge) {s : Schema α} {v : Value} {tree : Decoded α}
    (hdistinct : Distinct v) (h : decode s v = some tree) (path : List String) :
    tree.setting path = settingOf s [v] path := by
  have hfit : Fits s v := ⟨hdistinct, by rw [h]; rfl⟩
  have hfits : ∀ w ∈ [v] ++ [], Fits s w := by
    intro w hw
    rw [List.append_nil] at hw
    obtain rfl := List.mem_singleton.mp hw
    exact hfit
  obtain ⟨found, hfound, hsettings⟩ :=
    (agrees_iff hmerge s (List.cons_ne_nil v []) hfits).mpr (kept_single hmerge s hfit)
  have hsame : decode s v = some found := hfound
  rw [h] at hsame
  cases hsame
  exact hsettings path

/-- A lowest layer: its settings and structs are replaced by what is over them, and it has no
required field. -/
def Plain : Schema α → Value → Bool
  | .setting _, v => !v.isTable
  | .map entry, .table entries => entries.all fun e => Plain entry e.2
  | .struct names child missing, .table entries => names.all fun key =>
      match entries.lookup key with
      | some v => ((missing key).fallback false).isSome && Plain (child key) v
      | none => true
  | _, _ => false

/-- An entry of a map that is decoded over a lowest layer can be decoded alone. -/
lemma map_of_merge (hmerge : RightBiased merge) {entry : Schema α} {base overlay : List (String × Value)}
    (hplain : Plain (.map entry) (.table base) = true) (hbase : Distinct (.table base))
    (hover : Distinct (.table overlay))
    (ih : ∀ {base v : Value}, Plain entry base = true → Distinct base → Distinct v →
      (decode entry (merge base v)).isSome = true → (decode entry v).isSome = true)
    (h : (decode (.map entry) (merge (.table base) (.table overlay))).isSome = true) :
    (decode (.map entry) (.table overlay)).isSome = true := by
  rw [Plain, List.all_eq_true] at hplain
  obtain ⟨found, hfound, hnodup, hlookup⟩ := hmerge.tables hbase.keys hover.keys
  rw [hfound] at h
  obtain ⟨tree, htree⟩ := Option.isSome_iff_exists.mp h
  obtain ⟨-, hsome, -⟩ := decode_map htree
  have hdecodes : ∀ e ∈ overlay, (decode entry e.2).isSome = true := by
    intro e he
    have hmerged := hlookup e.1
    rw [lookup_of_mem hover.keys he] at hmerged
    cases hunder : base.lookup e.1 with
    | none =>
        rw [hunder] at hmerged
        exact hsome _ (mem_of_lookup hmerged)
    | some w =>
        rw [hunder] at hmerged
        have hmem := mem_of_lookup hunder
        exact ih (hplain _ hmem) (hbase.member hmem) (hover.member he)
          (hsome _ (mem_of_lookup hmerged))
  obtain ⟨alone, halone⟩ := decode_map_exists hdecodes
  rw [halone]
  rfl

/-- Merging only adds keys, so that a table that is written over another one can be written alone. -/
lemma written_of_merge {names : List String} {base overlay found : List (String × Value)}
    (hkeys : (overlay.map Prod.fst).Nodup)
    (hlookup : ∀ key, found.lookup key = mergeOptions merge (base.lookup key) (overlay.lookup key))
    (hall : found.all (·.1 ∈ names) = true) :
    written names (.table overlay) = some overlay := by
  rw [written, if_pos]
  refine List.all_eq_true.mpr fun e he => ?_
  have hmerged := hlookup e.1
  rw [lookup_of_mem hkeys he] at hmerged
  have hmem : e.1 ∈ found.map Prod.fst := by
    rw [← lookup_isSome, hmerged]
    cases base.lookup e.1 <;> rfl
  obtain ⟨e', he', hkey⟩ := List.mem_map.mp hmem
  rw [← hkey]
  exact List.all_eq_true.mp hall e' he'

/-- A field that is decoded over a lowest layer can be decoded alone. -/
lemma field_of_merge {s : Schema α} {missing : Missing α} {lower upper : Option Value}
    (hplain : ∀ u, lower = some u → (missing.fallback false).isSome = true ∧ Plain s u = true ∧ Distinct u)
    (hupper : ∀ w, upper = some w → Distinct w)
    (ih : ∀ {base v : Value}, Plain s base = true → Distinct base → Distinct v →
      (decode s (merge base v)).isSome = true → (decode s v).isSome = true)
    (h : (decodeField (decode s) missing false (mergeOptions merge lower upper)).isSome = true) :
    (decodeField (decode s) missing false upper).isSome = true := by
  cases lower with
  | none => cases upper <;> exact h
  | some u =>
      obtain ⟨hoptional, hchild, hdistinct⟩ := hplain u rfl
      cases upper with
      | none => exact hoptional
      | some w =>
          rw [mergeOptions, decodeField, Option.isSome_map] at h
          rw [decodeField, Option.isSome_map]
          exact ih hchild hdistinct (hupper w rfl) h

lemma struct_of_merge (hmerge : RightBiased merge) {names : List String} {child : String → Schema α}
    {missing : String → Missing α} {base overlay : List (String × Value)}
    (hplain : Plain (.struct names child missing) (.table base) = true)
    (hbase : Distinct (.table base)) (hover : Distinct (.table overlay))
    (ih : ∀ key {base v : Value}, Plain (child key) base = true → Distinct base → Distinct v →
      (decode (child key) (merge base v)).isSome = true → (decode (child key) v).isSome = true)
    (h : (decode (.struct names child missing) (merge (.table base) (.table overlay))).isSome = true) :
    (decode (.struct names child missing) (.table overlay)).isSome = true := by
  rw [Plain, List.all_eq_true] at hplain
  obtain ⟨found, hfound, hnodup, hlookup⟩ := hmerge.tables hbase.keys hover.keys
  rw [hfound] at h
  obtain ⟨hall, hfields⟩ := written_of_decode h
  obtain ⟨tree, htree⟩ := Option.isSome_iff_exists.mp h
  obtain ⟨-, heach, -⟩ := decode_struct hfields htree
  have hdecodes : ∀ key ∈ names, (decodeField (decode (child key)) (missing key) false
      (overlay.lookup key)).isSome = true := by
    intro key hkey
    have hone := heach key hkey
    have hbelow := hplain key hkey
    rw [hlookup] at hone
    refine field_of_merge (fun u hu => ?_) (fun w hw => hover.member (mem_of_lookup hw)) (ih key) hone
    rw [hu] at hbelow
    obtain ⟨hoptional, hchild⟩ := Bool.and_eq_true_iff.mp hbelow
    exact ⟨hoptional, hchild, hbase.member (mem_of_lookup hu)⟩
  obtain ⟨alone, halone⟩ := decode_struct_exists (written_of_merge hover.keys hlookup hall) hdecodes
  rw [halone]
  rfl

/-- What can be decoded over a lowest layer can be decoded alone. -/
lemma fits_of_merge (hmerge : RightBiased merge) {s : Schema α} {base v : Value}
    (hplain : Plain s base = true) (hbase : Distinct base) (hv : Distinct v)
    (h : (decode s (merge base v)).isSome = true) : Fits s v := by
  refine ⟨hv, ?_⟩
  induction s generalizing base v with
  | setting leaf =>
      rw [Plain, Bool.not_eq_true'] at hplain
      rwa [hmerge.other (Or.inl hplain)] at h
  | map entry ih =>
      cases htable : v.isTable with
      | false => rwa [hmerge.other (Or.inr htable)] at h
      | true =>
          obtain ⟨overlay, rfl⟩ := exists_table htable
          cases base with
          | table entries => exact map_of_merge hmerge hplain hbase hv ih h
          | _ => cases hplain
  | struct names child missing ih =>
      cases htable : v.isTable with
      | false => rwa [hmerge.other (Or.inr htable)] at h
      | true =>
          obtain ⟨overlay, rfl⟩ := exists_table htable
          cases base with
          | table entries => exact struct_of_merge hmerge hplain hbase hv ih h
          | _ => cases hplain

end Base

end Loker.LayeredTrees
