import Mathlib

/-! Lists of entries with keys, one laid over another: an entry of the upper list takes the place
of the lower list's entry with its key, and the others are appended. -/

namespace Loker.Overriding

section Definitions

variable {α κ : Type*} [DecidableEq κ] (key : α → κ)

/-- What stands for an entry of the lower list. -/
def replacement (upper : List α) (x : α) : α := (upper.find? (key · = key x)).getD x

def override (lower upper : List α) : List α :=
  lower.map (replacement key upper) ++ upper.filter (key · ∉ lower.map key)

/-- One entry put in the place of the one with its key, or at the end. -/
def place (position : κ → Option ℕ) (entries : List α) (x : α) : List α :=
  match position (key x) with
  | some i => entries.set i x
  | none => entries ++ [x]

end Definitions

section Keys

variable {α κ : Type*} [DecidableEq κ] {key : α → κ} {lower upper : List α} {x : α}

lemma key_replacement (key : α → κ) (upper : List α) (x : α) :
    key (replacement key upper x) = key x := by
  unfold replacement
  cases hfind : upper.find? (key · = key x) with
  | none => rfl
  | some y => exact of_decide_eq_true (List.find?_some (p := fun y => decide (key y = key x)) hfind)

lemma replacement_of_notMem (h : key x ∉ upper.map key) : replacement key upper x = x := by
  have hnone : upper.find? (key · = key x) = none := by
    apply List.find?_eq_none.mpr
    intro y hy hkey
    exact h (List.mem_map.mpr ⟨y, hy, of_decide_eq_true hkey⟩)
  rw [replacement, hnone, Option.getD_none]

lemma replacement_of_mem (hunique : (upper.map key).Nodup) {y : α} (hy : y ∈ upper)
    (hkey : key y = key x) : replacement key upper x = y := by
  cases hfind : upper.find? (key · = key x) with
  | none => exact absurd (decide_eq_true hkey) (List.find?_eq_none.mp hfind y hy)
  | some z =>
    have hz : key z = key x := of_decide_eq_true
      (List.find?_some (p := fun y => decide (key y = key x)) hfind)
    have hsame : z = y := List.inj_on_of_nodup_map hunique (List.mem_of_find?_eq_some hfind) hy
      (hz.trans hkey.symm)
    rw [replacement, hfind, Option.getD_some, hsame]

/-- The lower list's keys in their order, and the new ones of the upper list in theirs. -/
lemma keys_override : (override key lower upper).map key =
    lower.map key ++ (upper.map key).filter (· ∉ lower.map key) := by
  have hkept : (key ∘ replacement key upper) = key := 
    funext fun x => key_replacement key upper x
  have hnew : (upper.filter (key · ∉ lower.map key)).map key =
      (upper.map key).filter (· ∉ lower.map key) := by
    rw [List.filter_map]
    rfl
  rw [override, List.map_append, List.map_map, hkept, hnew]

lemma mem_keys_override {k : κ} :
    k ∈ (override key lower upper).map key ↔ k ∈ lower.map key ∨ k ∈ upper.map key := by
  rw [keys_override, List.mem_append, List.mem_filter, decide_eq_true_eq]
  constructor
  · rintro (h | ⟨h, _⟩)
    · exact Or.inl h
    · exact Or.inr h
  · rintro (h | h)
    · exact Or.inl h
    · by_cases hlower : k ∈ lower.map key
      · exact Or.inl hlower
      · exact Or.inr ⟨h, hlower⟩

lemma nodup_override (hlower : (lower.map key).Nodup) (hupper : (upper.map key).Nodup) :
    ((override key lower upper).map key).Nodup := by
  rw [keys_override]
  apply hlower.append (hupper.filter _)
  intro k hk hnew
  exact of_decide_eq_true (List.mem_filter.mp hnew).2 hk

lemma mem_override_upper (hunique : (upper.map key).Nodup) (hx : x ∈ upper) :
    x ∈ override key lower upper := by
  by_cases hlower : key x ∈ lower.map key
  · obtain ⟨y, hy, hkey⟩ := List.mem_map.mp hlower
    have hreplaced : replacement key upper y = x := replacement_of_mem hunique hx hkey.symm
    exact List.mem_append_left _ (List.mem_map.mpr ⟨y, hy, hreplaced⟩)
  · exact List.mem_append_right _ (List.mem_filter.mpr ⟨hx, decide_eq_true hlower⟩)

lemma mem_override_lower (hx : x ∈ lower) (hnew : key x ∉ upper.map key) :
    x ∈ override key lower upper :=
  List.mem_append_left _ (List.mem_map.mpr ⟨x, hx, replacement_of_notMem hnew⟩)

end Keys

section Associativity

variable {α κ : Type*} [DecidableEq κ] {key : α → κ} {lowest lower upper : List α} {x : α}

/-- An entry's replacement is replaced in its turn. -/
lemma replacement_override : replacement key (override key lower upper) x =
    replacement key upper (replacement key lower x) := by
  have hmap : (lower.map (replacement key upper)).find? (key · = key x) =
      (lower.find? (key · = key x)).map (replacement key upper) := by
    have hsame : (fun y => decide (key y = key x)) ∘ replacement key upper =
        fun y => decide (key y = key x) := by
      funext y
      rw [Function.comp_apply, key_replacement key upper]
    rw [List.find?_map, hsame]
  have hfind : (override key lower upper).find? (key · = key x) =
      ((lower.find? (key · = key x)).map (replacement key upper)).or
        ((upper.filter (key · ∉ lower.map key)).find? (key · = key x)) := by
    rw [override, List.find?_append, hmap]
  cases hlower : lower.find? (key · = key x) with
  | some y =>
    have hbelow : replacement key lower x = y := by rw [replacement, hlower, Option.getD_some]
    rw [hbelow, replacement, hfind, hlower, Option.map_some, Option.some_or, Option.getD_some]
  | none =>
    have hfresh : key x ∉ lower.map key := by
      intro hmem
      obtain ⟨y, hy, hkey⟩ := List.mem_map.mp hmem
      exact List.find?_eq_none.mp hlower y hy (decide_eq_true hkey)
    have hupper : (upper.filter (key · ∉ lower.map key)).find? (key · = key x) =
        upper.find? (key · = key x) := by
      rw [List.find?_filter]
      congr 1
      funext y
      by_cases hkey : key y = key x
      · simp [hkey, hfresh]
      · simp [hkey]
    rw [replacement_of_notMem hfresh, replacement, hfind, hlower, hupper, Option.map_none,
      Option.none_or, replacement]

theorem override_assoc : override key (override key lowest lower) upper =
    override key lowest (override key lower upper) := by
  have hlowest : (lowest.map (replacement key lower)).map (replacement key upper) =
      lowest.map (replacement key (override key lower upper)) := by
    rw [List.map_map]
    apply List.map_congr_left
    intro x _
    exact replacement_override.symm
  have hlower : (lower.filter (key · ∉ lowest.map key)).map (replacement key upper) =
      (lower.map (replacement key upper)).filter (key · ∉ lowest.map key) := by
    rw [List.filter_map]
    congr 1
    apply List.filter_congr
    intro x _
    rw [Function.comp_apply, key_replacement key upper]
  have hupper : upper.filter (key · ∉ (override key lowest lower).map key) =
      (upper.filter (key · ∉ lower.map key)).filter (key · ∉ lowest.map key) := by
    rw [List.filter_filter]
    apply List.filter_congr
    intro x _
    have hmem : key x ∈ (override key lowest lower).map key ↔
        key x ∈ lowest.map key ∨ key x ∈ lower.map key := mem_keys_override
    rw [Bool.eq_iff_iff, Bool.and_eq_true, decide_eq_true_eq, decide_eq_true_eq,
      decide_eq_true_eq, hmem, not_or]
  calc override key (override key lowest lower) upper
      = (lowest.map (replacement key lower)).map (replacement key upper) ++
          (lower.filter (key · ∉ lowest.map key)).map (replacement key upper) ++
          upper.filter (key · ∉ (override key lowest lower).map key) := by
        rw [override, override, List.map_append]
    _ = override key lowest (override key lower upper) := by
        rw [hlowest, hlower, hupper, List.append_assoc, ← List.filter_append]
        rfl

end Associativity

section Places

variable {α κ : Type*} [DecidableEq κ] {key : α → κ} {lower upper done : List α} {x : α}
  {position : κ → Option ℕ}

/-- The position of a key among the lower list's entries. -/
def Positions (key : α → κ) (lower : List α) (position : κ → Option ℕ) : Prop :=
  ∀ k i, position k = some i ↔ (lower.map key)[i]? = some k

omit [DecidableEq κ] in
lemma position_none (hposition : Positions key lower position) {k : κ} :
    position k = none ↔ k ∉ lower.map key := by
  rw [Option.eq_none_iff_forall_ne_some, List.mem_iff_getElem?, not_exists]
  exact forall_congr' fun i => not_congr (hposition k i)

lemma replacement_snoc_of_ne {y : α} (h : key x ≠ key y) :
    replacement key (done ++ [x]) y = replacement key done y := by
  have hlast : [x].find? (key · = key y) = none :=
    List.find?_eq_none.mpr fun z hz => by rw [List.mem_singleton.mp hz]; simpa using h
  rw [replacement, replacement, List.find?_append, hlast, Option.or_none]

/-- In the place of its key, one more entry is what stands there from now on. -/
lemma set_replacement {i : ℕ} (hlower : (lower.map key).Nodup) (hfresh : key x ∉ done.map key)
    (hat : (lower.map key)[i]? = some (key x)) :
    (lower.map (replacement key done)).set i x = lower.map (replacement key (done ++ [x])) := by
  obtain ⟨hi, hkey⟩ := List.getElem?_eq_some_iff.mp hat
  apply List.ext_getElem (by simp)
  intro j hj _
  have hjlt : j < lower.length := by simpa using hj
  rw [List.getElem_set, List.getElem_map, List.getElem_map]
  split
  · next heq =>
    subst heq
    have hsame : key x = key lower[i] := by simpa using hkey.symm
    have hnone : done.find? (key · = key lower[i]) = none := by
      apply List.find?_eq_none.mpr
      intro y hy hky
      have hother : key y = key lower[i] := of_decide_eq_true hky
      exact hfresh (List.mem_map.mpr ⟨y, hy, hother.trans hsame.symm⟩)
    rw [replacement, List.find?_append, hnone, Option.none_or,
      List.find?_cons_of_pos (by simpa using hsame), Option.getD_some]
  · next hne =>
    apply (replacement_snoc_of_ne _).symm
    intro heq
    have hother : (lower.map key)[j]? = some (key x) := by
      rw [List.getElem?_map, List.getElem?_eq_getElem hjlt, Option.map_some, heq]
    exact hne ((List.getElem?_inj hi hlower).mp (hat.trans hother.symm))

/-- One more entry of the upper list, whose key is new among them. -/
lemma place_override (hposition : Positions key lower position) (hlower : (lower.map key).Nodup)
    (hfresh : key x ∉ done.map key) :
    place key position (override key lower done) x = override key lower (done ++ [x]) := by
  cases hfound : position (key x) with
  | none =>
    have hnew : key x ∉ lower.map key := (position_none hposition).mp hfound
    have hsame : lower.map (replacement key (done ++ [x])) = lower.map (replacement key done) := by
      apply List.map_congr_left
      intro y hy
      apply replacement_snoc_of_ne
      intro hkey
      exact hnew (List.mem_map.mpr ⟨y, hy, hkey.symm⟩)
    have hlast : [x].filter (key · ∉ lower.map key) = [x] :=
      List.filter_eq_self.mpr fun y hy => by
        rw [List.mem_singleton.mp hy]
        exact decide_eq_true hnew
    simp only [place, hfound]
    rw [override, override, hsame, List.filter_append, hlast, List.append_assoc]
  | some i =>
    have hat : (lower.map key)[i]? = some (key x) := (hposition _ _).mp hfound
    have hlt : i < lower.length := by simpa using (List.getElem?_eq_some_iff.mp hat).1
    have hmem : key x ∈ lower.map key := List.mem_of_getElem? hat
    have hlast : [x].filter (key · ∉ lower.map key) = [] :=
      List.filter_eq_nil_iff.mpr fun y hy => by
        rw [List.mem_singleton.mp hy]
        simpa using hmem
    simp only [place, hfound]
    rw [override, override, List.filter_append, hlast, List.append_nil,
      List.set_append_left _ _ (by simpa using hlt), set_replacement hlower hfresh hat]

/-- The entries placed one after the other are the upper list laid over the lower one. -/
theorem foldl_place (hposition : Positions key lower position) (hlower : (lower.map key).Nodup)
    (hupper : (upper.map key).Nodup) :
    upper.foldl (place key position) lower = override key lower upper := by
  induction upper using List.reverseRecOn with
  | nil =>
    have hsame : lower.map (replacement key []) = lower := by
      apply List.map_id''
      intro x
      rfl
    rw [List.foldl_nil, override, hsame, List.filter_nil, List.append_nil]
  | append_singleton done x ih =>
    rw [List.map_append, List.nodup_append] at hupper
    obtain ⟨hdone, _, hapart⟩ := hupper
    have hfresh : key x ∉ done.map key := fun hmem => hapart _ hmem (key x) (by simp) rfl
    rw [List.foldl_append, List.foldl_cons, List.foldl_nil, ih hdone,
      place_override hposition hlower hfresh]

end Places

end Loker.Overriding
