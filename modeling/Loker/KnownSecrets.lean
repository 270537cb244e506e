import Loker.CommandCapture
import Loker.HoleTexts
import Loker.RedactedSecrets

/-! What `redact_output` leaves of the secrets that are known: the patterns and the secrets are
looked for one after the other, each in what the ones before have left. -/

namespace Loker.KnownSecrets

open CommandCapture HoleTexts
open MatchScan (Place Joined Joins)
open SecretPatterns (Traced traced inserted redact marking redactedText)
open RedactedSecrets (Survives redactedPlaces)
open TextSearch (OccursAt)

section Collecting

def isSecretLikeEnvKey (key : String) : Bool :=
  let key := String.ofList (key.toList.map Char.toUpper)
  TextOps.contains key "SECRET" || TextOps.contains key "TOKEN" ||
    TextOps.contains key "PASSWORD" || TextOps.contains key "API_KEY" ||
    TextOps.contains key "AUTH"

def buildEnvironment (env : String → Option String) (envAllowlist : List String) :
    List (String × String) :=
  envAllowlist.filterMap fun name => (env name).map (name, ·)

/-- The values of a command's environment that its output must not show. -/
def secretValues (env : String → Option String) (envAllowlist : List String) : List String :=
  ((buildEnvironment env envAllowlist).filter fun x => isSecretLikeEnvKey x.1).map Prod.snd

lemma secretValues_perm (env : String → Option String) {names other : List String}
    (h : names.Perm other) : (secretValues env names).Perm (secretValues env other) :=
  ((h.filterMap _).filter _).map _

end Collecting

section Model

variable (isWord : Char → Bool) (u : List Char) (secrets : List String)

/-- The passes of the patterns, over characters with the places they come from. -/
def patterned : List Traced := redact Prod.fst inserted isWord (traced u)

instance (i : ℕ) : Decidable (Survives isWord u i) :=
  decidable_of_iff (some i ∈ (patterned isWord u).map Prod.snd) (by
    rw [List.mem_map]
    constructor
    · intro ⟨x, hx, htag⟩
      exact ⟨x.1, by rw [← htag]; exact hx⟩
    · intro ⟨c, hc⟩
      exact ⟨_, hc, rfl⟩)

def stepsOf : List (String × List Traced) := secrets.map (·, inserted redactedText)

/-- `redact_output` over such characters. -/
def redactTraced : List Traced :=
  replaceSteps Prod.fst String.toList (stepsOf secrets) (patterned isWord u)

/-- A character of the text that is in the output. -/
def Shown (i : ℕ) : Prop := ∃ c, (c, some i) ∈ redactTraced isWord u secrets

/-- A place in an occurrence of a listed secret. -/
def Covered (i : ℕ) : Prop :=
  ∃ s ∈ secrets, ∃ l, OccursAt s.toList l u ∧ l ≤ i ∧ i < l + s.toList.length

/-- What the patterns leave, with the secrets in it as holes. -/
def pieces : List (Piece Traced String) :=
  holesFrom Prod.fst String.toList secrets 0 (patterned isWord u)

/-- No pattern takes a part of a secret only, no secret is read where a replacement was put in, and
with some of the secrets replaced, the next one still stands where the text has it, apart from the
others. -/
structure Apart : Prop where
  whole : ∀ s ∈ secrets, ∀ l, OccursAt s.toList l u →
    (∀ i < s.toList.length, Survives isWord u (l + i)) ∨
      ∀ i < s.toList.length, ¬ Survives isWord u (l + i)
  own : ∀ s own, .hole s own ∈ pieces isWord u secrets → ∀ x ∈ own, x.2 ≠ none
  undisturbed : ∀ order, order.Perm secrets →
    Undisturbed Prod.fst String.toList (pieces isWord u secrets) unfilled (stepsOf order)

end Model

/-- Of every secret nothing is shown, of what is neither secret nor matched by the patterns all is;
and the order of the secrets does not matter. -/
structure Hidden (isWord : Char → Bool) (text : String) (secrets order : List String) : Prop where
  shown : ∀ i < text.toList.length, Shown isWord text.toList order i ↔
    Survives isWord text.toList i ∧ ¬ Covered text.toList secrets i
  same : redactOutput isWord text order = redactOutput isWord text secrets

section Tracing

variable {isWord : Char → Bool} {u : List Char} {secrets : List String}

lemma replaced_secret {s : String} (hs : s ≠ "") {result : String} {t : List Traced}
    (ht : result.toList = t.map Prod.fst) :
    (if s ≠ "" ∧ TextOps.contains result s = true then TextOps.replaceAll result s "[REDACTED]"
      else result).toList =
      (replaceBy Prod.fst s.toList (inserted redactedText) 0 t).map Prod.fst := by
  have hmark : "[REDACTED]".toList = (inserted redactedText).map Prod.fst := by decide
  by_cases hcontains : TextOps.contains result s = true
  · rw [if_pos ⟨hs, hcontains⟩, TextOps.replaceAll, String.toList_ofList, map_replaceBy, ht, hmark]
  · have hfree : ¬ s.toList <:+: t.map Prod.fst := by
      intro hin
      rw [← ht] at hin
      exact hcontains (decide_eq_true hin)
    rw [if_neg (fun h => hcontains h.2), replaceBy_free hfree, ht]

/-- Where the characters come from has no part in the redaction. -/
theorem toList_redactOutput (isWord : Char → Bool) (text : String) (hne : ∀ s ∈ secrets, s ≠ "") :
    (redactOutput isWord text secrets).toList =
      (redactTraced isWord text.toList secrets).map Prod.fst := by
  have hrun : ∀ (result : String) (t : List Traced), result.toList = t.map Prod.fst →
      (secrets.foldl (fun result secret =>
        if secret ≠ "" ∧ TextOps.contains result secret = true then
          TextOps.replaceAll result secret "[REDACTED]"
        else result) result).toList =
        (replaceSteps Prod.fst String.toList (stepsOf secrets) t).map Prod.fst := by
    induction secrets with
    | nil =>
      intro result t ht
      exact ht
    | cons s secrets ih =>
      intro result t ht
      exact ih (fun s hs => hne s (List.mem_cons_of_mem _ hs)) _ _
        (replaced_secret (hne s List.mem_cons_self) ht)
  apply hrun
  rw [SecretPatterns.redactSecrets, String.toList_ofList, patterned, SecretPatterns.map_redact,
    SecretPatterns.map_traced]

end Tracing

section Tags

variable {M : List (Place Traced)} {p : Place Traced} {c : Char} {o i n : ℕ} {own l r : List Traced}

/-- An item at a place comes from this place or was put in. -/
def Tagged (o : ℕ) (M : List (Place Traced)) : Prop :=
  ∀ i x n, M[i]? = some (.item x) → x.2 = some n → n = o + i

def Increasing (x y : Traced) : Prop := ∀ a b, x.2 = some a → y.2 = some b → a < b

def Next (x y : Traced) : Prop := ∀ a b, x.2 = some a → y.2 = some b → b = a + 1

lemma Tagged.tail (h : Tagged o (p :: M)) : Tagged (o + 1) M := by
  intro i x n hx hn
  have hplace := h (i + 1) x n (by rwa [List.getElem?_cons_succ]) hn
  omega

lemma Tagged.le (h : Tagged o M) {x : Traced} (hx : x ∈ marking.render M) (hn : x.2 = some n) :
    o ≤ n := by
  obtain ⟨c, tag⟩ := x
  obtain rfl : tag = some n := hn
  obtain ⟨i, hi⟩ := RedactedSecrets.mem_render hx
  have hplace := h i _ n hi rfl
  omega

lemma none_of_marker {x : Traced} (hx : x ∈ marking.marker) : x.2 = none := by
  obtain ⟨c, _, rfl⟩ := List.mem_map.mp hx
  rfl

lemma increasing_render (h : Tagged o M) : (marking.render M).Pairwise Increasing := by
  induction M generalizing o with
  | nil => exact List.Pairwise.nil
  | cons p M ih =>
    rw [MatchScan.render_cons, List.pairwise_append]
    refine ⟨?_, ih h.tail, ?_⟩
    · cases p with
      | item x => exact List.pairwise_singleton _ x
      | mark =>
        apply List.pairwise_of_forall_mem_list
        intro x hx y _ a _ ha
        rw [none_of_marker hx] at ha
        cases ha
      | cont => exact List.Pairwise.nil
    · intro x hx y hy a b ha hb
      cases p with
      | item z =>
        obtain rfl := List.mem_singleton.mp hx
        have hfirst := h 0 x a rfl ha
        have hlater := h.tail.le hy hb
        omega
      | mark =>
        rw [none_of_marker hx] at ha
        cases ha
      | cont => cases hx

lemma render_head (hp : p ≠ .cont) {x : Traced} (hx : (marking.render (p :: M)).head? = some x) :
    p = .item x ∨ x.2 = none := by
  cases p with
  | item y =>
    rw [MatchScan.render_cons, MatchScan.shown_item, List.singleton_append, List.head?_cons] at hx
    exact .inl (congrArg _ (Option.some.inj hx))
  | mark =>
    have hmarker : (marking.marker ++ marking.render M).head? = some x := hx
    rw [List.head?_append_of_ne_nil _ (by decide)] at hmarker
    exact .inr (none_of_marker (List.mem_of_mem_head? hmarker))
  | cont => exact absurd rfl hp

/-- What stands side by side in the output and comes from the text stands so in the text. -/
lemma next_render (htagged : Tagged o M) (h : M.IsChain Joins) :
    (marking.render M).IsChain Next := by
  induction M generalizing o with
  | nil => exact List.IsChain.nil
  | cons p M ih =>
    have hrest := ih htagged.tail h.tail
    rw [MatchScan.render_cons, List.isChain_append]
    cases p with
    | cont => exact ⟨List.IsChain.nil, hrest, nofun⟩
    | mark =>
      refine ⟨?_, hrest, ?_⟩
      · apply List.Pairwise.isChain
        apply List.pairwise_of_forall_mem_list
        intro x hx y _ a _ ha
        rw [none_of_marker hx] at ha
        cases ha
      · intro x hx y _ a _ ha
        rw [none_of_marker (List.mem_of_getLast? hx)] at ha
        cases ha
    | item z =>
      refine ⟨List.IsChain.singleton z, hrest, ?_⟩
      intro x hx y hy a b ha hb
      obtain rfl : z = x := Option.some.inj hx
      have hfirst := htagged 0 z a rfl ha
      cases M with
      | nil => cases hy
      | cons q M =>
        have hq : q ≠ .cont := by
          intro hcont
          rw [hcont] at h
          exact (List.isChain_cons_cons.mp h).1
        rcases render_head hq hy with rfl | hnone
        · have hsecond := htagged 1 y b rfl hb
          omega
        · rw [hnone] at hb
          cases hb

/-- A stretch of the output in which nothing was put in comes from one stretch of the text. -/
lemma tags_of_next (h : own.IsChain Next) (hsome : ∀ x ∈ own, x.2 ≠ none) (hne : own ≠ []) :
    ∃ a, ∀ (i : ℕ) (x : Traced), own[i]? = some x → x.2 = some (a + i) := by
  induction own with
  | nil => exact absurd rfl hne
  | cons x own ih =>
    obtain ⟨a, ha⟩ := Option.ne_none_iff_exists'.mp (hsome x List.mem_cons_self)
    refine ⟨a, fun i y hy => ?_⟩
    cases i with
    | zero =>
      obtain rfl := Option.some.inj hy
      exact ha
    | succ i =>
      cases own with
      | nil => cases hy
      | cons z own =>
        obtain ⟨hnext, hrest⟩ := List.isChain_cons_cons.mp h
        obtain ⟨b, hb⟩ := ih hrest (fun w hw => hsome w (List.mem_cons_of_mem x hw)) nofun
        have hz := hb 0 z rfl
        have hab := hnext a (b + 0) ha hz
        rw [hb i y hy]
        congr 1
        omega

/-- What a text shows of places that are all there. -/
lemma render_stretch {l : ℕ} {items : List Traced}
    (h : ∀ i < items.length, M[l + i]? = items[i]?.map .item) :
    marking.render M =
      marking.render (M.take l) ++ items ++ marking.render (M.drop (l + items.length)) := by
  have hmiddle : (M.drop l).take items.length = items.map .item := by
    apply List.ext_getElem?
    intro i
    rw [List.getElem?_map, List.getElem?_take]
    by_cases hi : i < items.length
    · rw [if_pos hi, List.getElem?_drop, h i hi]
    · rw [if_neg hi, List.getElem?_eq_none (Nat.not_lt.mp hi)]
      rfl
  have hsplit : M = M.take l ++ ((M.drop l).take items.length ++ M.drop (l + items.length)) := by
    rw [← List.drop_drop, List.take_append_drop, List.take_append_drop]
  have hshown : marking.render M = marking.render (M.take l) ++
      (marking.render ((M.drop l).take items.length) ++
        marking.render (M.drop (l + items.length))) := by
    rw [← MatchScan.render_append, ← MatchScan.render_append, ← hsplit]
  rw [hshown, hmiddle, RedactedSecrets.render_items, List.append_assoc]

end Tags

section Patterned

variable {isWord : Char → Bool} {u : List Char} {i l : ℕ} {c : Char}

lemma patterned_eq (isWord : Char → Bool) (u : List Char) :
    patterned isWord u = marking.render (redactedPlaces isWord u) :=
  RedactedSecrets.redact_places isWord u

lemma tagged_redactedPlaces (isWord : Char → Bool) (u : List Char) :
    Tagged 0 (redactedPlaces isWord u) := by
  intro i x n hx hn
  obtain ⟨c, tag⟩ := x
  obtain rfl : tag = some n := hn
  rw [Nat.zero_add, (RedactedSecrets.place_of_redacted hx).1]

lemma increasing_patterned (isWord : Char → Bool) (u : List Char) :
    (patterned isWord u).Pairwise Increasing := by
  rw [patterned_eq]
  exact increasing_render (tagged_redactedPlaces isWord u)

lemma next_patterned (isWord : Char → Bool) (u : List Char) :
    (patterned isWord u).IsChain Next := by
  rw [patterned_eq]
  exact next_render (tagged_redactedPlaces isWord u)
    (RedactedSecrets.joined_redactedPlaces isWord u).1

lemma char_of_patterned (h : (c, some i) ∈ patterned isWord u) : u[i]? = some c := by
  rw [patterned_eq] at h
  obtain ⟨j, hj⟩ := RedactedSecrets.mem_render h
  obtain ⟨rfl, hc⟩ := RedactedSecrets.place_of_redacted hj
  exact hc

lemma place_of_survives (h : Survives isWord u i) :
    (redactedPlaces isWord u)[i]? = (traced u)[i]?.map .item := by
  obtain ⟨c, hc⟩ := h
  have hchar := char_of_patterned hc
  change (c, some i) ∈ patterned isWord u at hc
  rw [patterned_eq] at hc
  obtain ⟨j, hj⟩ := RedactedSecrets.mem_render hc
  obtain ⟨rfl, _⟩ := RedactedSecrets.place_of_redacted hj
  rw [hj, traced, List.getElem?_mapIdx, hchar]
  rfl

/-- A stretch of the text of which the patterns take nothing stands in the output. -/
lemma patterned_stretch {w : List Char} (hocc : OccursAt w l u)
    (h : ∀ i < w.length, Survives isWord u (l + i)) :
    ∃ before items after, patterned isWord u = before ++ items ++ after ∧
      items.map Prod.fst = w ∧ ∀ i < w.length, ∃ c, items[i]? = some (c, some (l + i)) := by
  have hplace : ∀ i < w.length, (((traced u).drop l).take w.length)[i]? = (traced u)[l + i]? := by
    intro i hi
    rw [List.getElem?_take, if_pos hi, List.getElem?_drop]
  have hchars : (((traced u).drop l).take w.length).map Prod.fst = w := by
    rw [List.map_take, List.map_drop, SecretPatterns.map_traced]
    exact (List.prefix_iff_eq_take.mp hocc).symm
  have hlength : (((traced u).drop l).take w.length).length = w.length := by
    rw [← List.length_map (f := Prod.fst), hchars]
  have hplaces : ∀ i < (((traced u).drop l).take w.length).length,
      (redactedPlaces isWord u)[l + i]? =
        (((traced u).drop l).take w.length)[i]?.map .item := by
    intro i hi
    rw [hlength] at hi
    rw [place_of_survives (h i hi), hplace i hi]
  have hsplit := render_stretch hplaces
  rw [← patterned_eq] at hsplit
  refine ⟨_, _, _, hsplit, hchars, fun i hi => ?_⟩
  obtain ⟨c, hc⟩ := h i hi
  rw [hplace i hi, traced, List.getElem?_mapIdx, char_of_patterned hc]
  exact ⟨c, rfl⟩

/-- A stretch of the output in which nothing was put in is a stretch of the text. -/
lemma occurs_of_infix {own : List Traced} (hin : own <:+: patterned isWord u)
    (hsome : ∀ x ∈ own, x.2 ≠ none) (hmem : (c, some i) ∈ own) :
    ∃ l, OccursAt (own.map Prod.fst) l u ∧ l ≤ i ∧ i < l + (own.map Prod.fst).length := by
  have hchain := List.IsChain.infix (next_patterned isWord u) hin
  obtain ⟨l, hl⟩ := tags_of_next hchain hsome (List.ne_nil_of_mem hmem)
  refine ⟨l, ?_, ?_⟩
  · unfold OccursAt
    rw [List.prefix_iff_getElem?]
    intro j hj
    rw [List.length_map] at hj
    have hat : own[j]? = some own[j] := List.getElem?_eq_getElem hj
    have htag := hl j _ hat
    have hchar : u[l + j]? = some own[j].1 := by
      have hshown : own[j] ∈ patterned isWord u := hin.subset (List.getElem_mem hj)
      have hpair : own[j] = (own[j].1, some (l + j)) := Prod.ext rfl htag
      rw [hpair] at hshown
      exact char_of_patterned hshown
    rw [List.getElem?_drop, hchar, List.getElem_map]
  · obtain ⟨j, hj⟩ := List.mem_iff_getElem?.mp hmem
    have htag := Option.some.inj (hl j _ hj)
    have hlt := (List.getElem?_eq_some_iff.mp hj).1
    rw [List.length_map]
    omega

end Patterned

section Hiding

variable {isWord : Char → Bool} {u : List Char} {secrets order : List String} {i : ℕ} {c : Char}

lemma reads_pieces (hne : ∀ s ∈ secrets, s ≠ "") :
    Reads Prod.fst String.toList secrets (patterned isWord u) (pieces isWord u secrets) :=
  reads_holesFrom (fun s hs => by simpa using hne s hs) _

/-- All the secrets' holes show the replacement in the end. -/
lemma redactTraced_eq (hne : ∀ s ∈ secrets, s ≠ "") (h : Apart isWord u secrets)
    (horder : order.Perm secrets) : redactTraced isWord u order =
      fill (fun _ => some (inserted redactedText)) (pieces isWord u secrets) := by
  have hread : Reads Prod.fst String.toList secrets (patterned isWord u)
      (pieces isWord u secrets) := reads_pieces hne
  have hneedle : ∀ step ∈ stepsOf order, step.1.toList ≠ [] := by
    intro step hstep
    obtain ⟨s, hs, rfl⟩ := List.mem_map.mp hstep
    simpa using hne s (horder.mem_iff.mp hs)
  have hsteps := replaceSteps_fill hneedle hread.holding (h.undisturbed order horder)
  rw [hread.fill_unfilled] at hsteps
  rw [redactTraced, hsteps]
  apply fill_congr
  intro s own hmem
  have hs := horder.mem_iff.mpr (hread.hole_mem hmem).1
  have hfilled : filledBy unfilled (stepsOf order) s = some (inserted redactedText) := by
    apply filledBy_of_mem
    · intro step hstep _
      obtain ⟨t, _, rfl⟩ := List.mem_map.mp hstep
      rfl
    · rw [stepsOf, List.map_map]
      exact List.mem_map.mpr ⟨s, hs, rfl⟩
  rw [hfilled]

/-- What is shown is what the patterns leave outside of the holes. -/
lemma shown_iff_lit (hne : ∀ s ∈ secrets, s ≠ "") (h : Apart isWord u secrets)
    (horder : order.Perm secrets) :
    Shown isWord u order i ↔ ∃ c, .lit (c, some i) ∈ pieces isWord u secrets := by
  unfold Shown
  rw [redactTraced_eq hne h horder]
  constructor
  · intro ⟨c, hc⟩
    refine ⟨c, (mem_fill_filled hc).resolve_right ?_⟩
    intro hmark
    obtain ⟨d, _, hd⟩ := List.mem_map.mp hmark
    cases hd
  · intro ⟨c, hc⟩
    exact ⟨c, mem_fill_lit hc⟩

/-- The patterns' output around a hole. -/
lemma split_at_hole (hne : ∀ s ∈ secrets, s ≠ "") {s : String} {own : List Traced}
    {qs rs : List (Piece Traced String)}
    (h : pieces isWord u secrets = qs ++ .hole s own :: rs) :
    patterned isWord u = fill unfilled qs ++ (own ++ fill unfilled rs) ∧
      own.map Prod.fst = s.toList := by
  have hread : Reads Prod.fst String.toList secrets (patterned isWord u)
      (pieces isWord u secrets) := reads_pieces hne
  constructor
  · rw [← hread.fill_unfilled, h, fill_append, fill_cons]
    rfl
  · apply (hread.hole_mem _).2
    rw [h]
    exact List.mem_append_right _ List.mem_cons_self

/-- A covered place that the patterns leave is in a hole. -/
lemma lit_not_covered (hne : ∀ s ∈ secrets, s ≠ "") (h : Apart isWord u secrets)
    (hlit : .lit (c, some i) ∈ pieces isWord u secrets) : ¬ Covered u secrets i := by
  intro ⟨s, hs, l, hocc, hle, hlt⟩
  have hread : Reads Prod.fst String.toList secrets (patterned isWord u)
      (pieces isWord u secrets) := reads_pieces hne
  have hsurvives : Survives isWord u i := by
    refine ⟨c, ?_⟩
    change (c, some i) ∈ patterned isWord u
    rw [← hread.fill_unfilled]
    exact mem_fill_lit hlit
  have hall : ∀ j < s.toList.length, Survives isWord u (l + j) := by
    apply (h.whole s hs l hocc).resolve_right
    intro hnone
    apply hnone (i - l) (by omega)
    rwa [Nat.add_sub_cancel' hle]
  obtain ⟨before, items, after, hsplit, hitems, htags⟩ := patterned_stretch hocc hall
  have horder : (s :: secrets.erase s).Perm secrets := (List.perm_cons_erase hs).symm
  have honly := (h.undisturbed _ horder).2.1
  have hfill : (fill unfilled (pieces isWord u secrets)).map Prod.fst =
      before.map Prod.fst ++ s.toList ++ after.map Prod.fst := by
    rw [hread.fill_unfilled, hsplit, List.map_append, List.map_append, hitems]
  obtain ⟨_, qs, own, rs, hpieces, hqs⟩ := honly _ _ hfill
  rw [List.length_map] at hqs
  obtain ⟨haround, hown⟩ := split_at_hole hne hpieces
  have hlength : own.length = items.length := by
    rw [← List.length_map (f := Prod.fst), hown, ← hitems, List.length_map]
  have hsame : own = items := by
    rw [hsplit, List.append_assoc] at haround
    exact (List.append_inj (List.append_inj haround hqs.symm).2 hlength.symm).1.symm
  -- the place is in this hole, and the text has it only once
  obtain ⟨d, hd⟩ := htags (i - l) (by omega)
  rw [Nat.add_sub_cancel' hle, ← hsame] at hd
  have hin : (d, some i) ∈ own := List.mem_of_getElem? hd
  have hincreasing := increasing_patterned isWord u
  rw [haround, List.pairwise_append, List.pairwise_append] at hincreasing
  obtain ⟨_, ⟨_, _, hafter⟩, hbefore⟩ := hincreasing
  rw [hpieces] at hlit
  rcases List.mem_append.mp hlit with hqs | hrest
  · have hlt := hbefore _ (mem_fill_lit hqs) _ (List.mem_append_left _ hin) i i rfl rfl
    exact lt_irrefl i hlt
  · rcases List.mem_cons.mp hrest with heq | hrs
    · cases heq
    · have hlt := hafter _ hin _ (mem_fill_lit hrs) i i rfl rfl
      exact lt_irrefl i hlt

/-- What the patterns leave and no secret covers is in no hole. -/
lemma lit_of_not_covered (hne : ∀ s ∈ secrets, s ≠ "") (h : Apart isWord u secrets)
    (hsurvives : Survives isWord u i) (hfree : ¬ Covered u secrets i) :
    ∃ c, .lit (c, some i) ∈ pieces isWord u secrets := by
  have hread : Reads Prod.fst String.toList secrets (patterned isWord u)
      (pieces isWord u secrets) := reads_pieces hne
  obtain ⟨c, hc⟩ := hsurvives
  change (c, some i) ∈ patterned isWord u at hc
  rw [← hread.fill_unfilled] at hc
  obtain ⟨p, hp, hin⟩ := List.mem_flatMap.mp hc
  cases p with
  | lit x =>
    rw [← List.mem_singleton.mp hin] at hp
    exact ⟨c, hp⟩
  | hole s own =>
    exfalso
    obtain ⟨qs, rs, hpieces⟩ := List.append_of_mem hp
    obtain ⟨haround, hown⟩ := split_at_hole hne hpieces
    have hinfix : own <:+: patterned isWord u := by
      rw [haround, ← List.append_assoc]
      exact List.infix_append _ _ _
    obtain ⟨l, hocc, hplace⟩ := occurs_of_infix hinfix (h.own s own hp) hin
    rw [hown] at hocc hplace
    exact hfree ⟨s, (hread.hole_mem hp).1, l, hocc, hplace⟩

/-- The output does not depend on the order of the secrets. -/
lemma redactOutput_perm {text : String} {order : List String} (hne : ∀ s ∈ secrets, s ≠ "")
    (h : Apart isWord text.toList secrets) (horder : order.Perm secrets) :
    redactOutput isWord text order = redactOutput isWord text secrets := by
  have hne' : ∀ s ∈ order, s ≠ "" := fun s hs => hne s (horder.mem_iff.mp hs)
  apply String.toList_inj.mp
  rw [toList_redactOutput isWord text hne', toList_redactOutput isWord text hne,
    redactTraced_eq hne h horder, redactTraced_eq hne h (List.Perm.refl secrets)]

/-- Where known secrets and patterns keep apart, no character of a secret is shown, every other one
that no pattern matches is, and the order of the secrets does not matter. -/
theorem hidden (isWord : Char → Bool) (text : String) (secrets : List String)
    (hne : ∀ s ∈ secrets, s ≠ "") (h : Apart isWord text.toList secrets) :
    ∀ order, order.Perm secrets → Hidden isWord text secrets order := by
  intro order horder
  constructor
  · intro i _
    rw [shown_iff_lit hne h horder]
    constructor
    · intro ⟨c, hlit⟩
      refine ⟨⟨c, ?_⟩, lit_not_covered hne h hlit⟩
      change (c, some i) ∈ patterned isWord text.toList
      rw [← (reads_pieces hne).fill_unfilled]
      exact mem_fill_lit hlit
    · intro ⟨hsurvives, hfree⟩
      exact lit_of_not_covered hne h hsurvives hfree
  · exact redactOutput_perm hne h horder

/-- An empty value hides nothing. -/
lemma redactOutput_filter (isWord : Char → Bool) (text : String) (secrets : List String) :
    redactOutput isWord text (secrets.filter fun s => s ≠ "") =
      redactOutput isWord text secrets := by
  unfold redactOutput
  generalize SecretPatterns.redactSecrets isWord text = result
  induction secrets generalizing result with
  | nil => rfl
  | cons s secrets ih =>
    by_cases hs : s = ""
    · rw [List.filter_cons_of_neg (by simpa using hs), List.foldl_cons, if_neg (fun h => h.1 hs),
        ih]
    · rw [List.filter_cons_of_pos (by simpa using hs), List.foldl_cons, List.foldl_cons, ih]

/-- A command's output, with the secrets of its environment collected in any order. -/
theorem environment_hidden (isWord : Char → Bool) (text : String) (env : String → Option String)
    (allowlist : List String)
    (h : Apart isWord text.toList ((secretValues env allowlist).filter fun s => s ≠ "")) :
    ∀ order, order.Perm allowlist → redactOutput isWord text (secretValues env order) =
      redactOutput isWord text (secretValues env allowlist) := by
  intro order horder
  have hperm := (secretValues_perm env horder).filter fun s => decide (s ≠ "")
  have hne : ∀ s ∈ (secretValues env allowlist).filter fun s => s ≠ "", s ≠ "" :=
    fun s hs => of_decide_eq_true (List.mem_filter.mp hs).2
  rw [← redactOutput_filter isWord text (secretValues env order),
    ← redactOutput_filter isWord text (secretValues env allowlist)]
  exact redactOutput_perm hne h hperm

/-- Two secrets of which the patterns take nothing, and one that they take whole. -/
def sampleOutput : String := "pw1 token=zz9 pw1-x"

def sampleSecrets : List String := ["pw1", "-x", "zz9"]

theorem sampleOutput_hidden :
    Hidden Char.isAlphanum sampleOutput sampleSecrets sampleSecrets.reverse := by
  apply hidden _ _ _ (by decide) _ _ (List.reverse_perm _)
  constructor
  · have hall : ∀ s ∈ sampleSecrets, ∀ l ∈ List.range sampleOutput.toList.length,
        OccursAt s.toList l sampleOutput.toList →
          (∀ i < s.toList.length, Survives Char.isAlphanum sampleOutput.toList (l + i)) ∨
            ∀ i < s.toList.length, ¬ Survives Char.isAlphanum sampleOutput.toList (l + i) := by
      decide
    have hne : ∀ s ∈ sampleSecrets, s.toList ≠ [] := by decide
    intro s hs l hocc
    have hle := hocc.length_le (hne s hs)
    have hpos := List.length_pos_iff.mpr (hne s hs)
    exact hall s hs l (List.mem_range.mpr (by omega)) hocc
  · have hall : (pieces Char.isAlphanum sampleOutput.toList sampleSecrets).all (fun p =>
        match p with
        | .lit _ => true
        | .hole _ own => own.all fun x => x.2 ≠ none) = true := by
      decide
    intro s own hmem x hx
    exact of_decide_eq_true (List.all_eq_true.mp (List.all_eq_true.mp hall _ hmem) x hx)
  · have horders : ∀ order ∈ sampleSecrets.permutations',
        Undisturbed Prod.fst String.toList
          (pieces Char.isAlphanum sampleOutput.toList sampleSecrets) unfilled (stepsOf order) := by
      decide
    intro order horder
    exact horders order (List.mem_permutations'.mpr horder)

theorem secrets_shown :
    ¬ Hidden Char.isAlphanum "abcdef" ["abc", "abcdef"] ["abc", "abcdef"] ∧
    ¬ Hidden Char.isAlphanum "password=hunter2 x" ["hunter2 x"] ["hunter2 x"] ∧
    redactOutput Char.isAlphanum "abcd" ["abc", "bcd"] ≠
      redactOutput Char.isAlphanum "abcd" ["bcd", "abc"] := by
  refine ⟨?_, ?_, by decide⟩
  · intro h
    have hshown : Shown Char.isAlphanum "abcdef".toList ["abc", "abcdef"] 3 :=
      ⟨'d', by decide⟩
    have hcovered : Covered "abcdef".toList ["abc", "abcdef"] 3 :=
      ⟨"abcdef", by decide, 0, by decide, by decide, by decide⟩
    exact ((h.shown 3 (by decide)).mp hshown).2 hcovered
  · intro h
    have hshown : Shown Char.isAlphanum "password=hunter2 x".toList ["hunter2 x"] 17 :=
      ⟨'x', by decide⟩
    have hcovered : Covered "password=hunter2 x".toList ["hunter2 x"] 17 :=
      ⟨"hunter2 x", by decide, 9, by decide, by decide, by decide⟩
    exact ((h.shown 17 (by decide)).mp hshown).2 hcovered

end Hiding

end Loker.KnownSecrets
