import Loker.BraceTemplates
import Loker.ByteSlices
import Loker.HoleTexts

/-! The prompt of a verifier: its parameters and the candidate are put into the template one after
the other, against all of them at once. -/

namespace Loker.VerifierPrompt

open TextOps HoleTexts

section Model

structure LLMVerifier where
  promptTemplate : String
  systemPrompt : Option String
  params : List (String × String)
  /-- The entries of a map. -/
  distinct : (params.map Prod.fst).Nodup

def LLMVerifier.new (promptTemplate : String) : LLMVerifier := ⟨promptTemplate, none, [], by simp⟩

lemma insert_distinct {params : List (String × String)} (key value : String)
    (h : (params.map Prod.fst).Nodup) :
    (((key, value) :: params.filter fun param => param.1 ≠ key).map Prod.fst).Nodup := by
  rw [List.map_cons, List.nodup_cons]
  constructor
  · intro hmem
    obtain ⟨param, hparam, hkey⟩ := List.mem_map.mp hmem
    have hne := (List.mem_filter.mp hparam).2
    exact of_decide_eq_true hne hkey
  · exact h.sublist (List.filter_sublist.map _)

def LLMVerifier.withParam (v : LLMVerifier) (key value : String) : LLMVerifier :=
  { v with
    params := (key, value) :: v.params.filter fun param => param.1 ≠ key
    distinct := insert_distinct key value v.distinct }

def needle (key : String) : String := "\x7b" ++ key ++ "\x7d"

/-- Longer keys come first, and keys of one length as the map gives them. -/
def sortedParams (order : List (String × String)) : List (String × String) :=
  order.insertionSort fun a b => ByteSlices.byteLen b.1.toList ≤ ByteSlices.byteLen a.1.toList

def LLMVerifier.withSystem (v : LLMVerifier) (prompt : String) : String :=
  match v.systemPrompt with
  | some system => system ++ "\n\n" ++ prompt
  | none => prompt

/-- `order` is the order in which the map's entries come. -/
def LLMVerifier.renderedPrompt (v : LLMVerifier) (order : List (String × String))
    (candidate : String) : String :=
  let prompt := (sortedParams order).foldl
    (fun prompt param => replaceAll prompt (needle param.1) param.2) v.promptTemplate
  let prompt := replaceAll prompt "\x7bcandidate\x7d" candidate
  v.withSystem prompt

end Model

section AtOnce

variable (v : LLMVerifier) (candidate : String)

def placeholder (key : String) : List Char := (needle key).toList

def LLMVerifier.keys : List String := "candidate" :: v.params.map Prod.fst

/-- The template with its own placeholders as holes. -/
def LLMVerifier.pieces : List (Piece Char String) :=
  holesFrom id placeholder v.keys 0 v.promptTemplate.toList

def LLMVerifier.valueOf (key : String) : List Char :=
  if key = "candidate" then candidate.toList else ((v.params.lookup key).getD "").toList

/-- The template with every placeholder replaced at once. -/
def LLMVerifier.filledPrompt : String :=
  v.withSystem (String.ofList (fill (fun key => some (v.valueOf candidate key)) v.pieces))

/-- What the rendering replaces, and by what, one after the other. -/
def stepsOf (order : List (String × String)) : List (String × List Char) :=
  (sortedParams order).map (fun param => (param.1, param.2.toList)) ++
    [("candidate", candidate.toList)]

/-- The template's placeholders do not run into each other, and with some of them replaced, those
of the next key are still the template's own. -/
structure LLMVerifier.Unmixed : Prop where
  apart : ∀ key ∈ v.keys, OnlyIn id unfilled (placeholder key) key v.pieces
  undisturbed : ∀ order, order.Perm v.params →
    Undisturbed id placeholder v.pieces unfilled (stepsOf candidate order)

/-- The rendering is the substitution at once: nothing that was put in is looked at again. -/
structure LLMVerifier.FilledAtOnce (order : List (String × String)) : Prop where
  rendered : v.renderedPrompt order candidate = v.filledPrompt candidate
  replaced : ∀ key ∈ v.keys,
    matchCount v.promptTemplate (needle key) = v.pieces.countP (Piece.named key)

end AtOnce

section Rendering

variable {v w : LLMVerifier} {candidate : String} {order : List (String × String)} {key : String}

lemma placeholder_eq (key : String) : placeholder key = '{' :: (key.toList ++ ['}']) := by
  rw [placeholder, needle, String.toList_append, String.toList_append]
  rfl

lemma placeholder_ne_nil (key : String) : placeholder key ≠ [] := by
  rw [placeholder_eq]
  exact List.cons_ne_nil _ _

lemma placeholder_injective : Function.Injective placeholder := by
  intro key other h
  rw [placeholder_eq, placeholder_eq] at h
  exact String.toList_inj.mp (List.append_cancel_right (List.cons.inj h).2)

lemma reads_pieces (v : LLMVerifier) :
    Reads id placeholder v.keys v.promptTemplate.toList v.pieces :=
  reads_holesFrom (fun key _ => placeholder_ne_nil key) _

lemma renderedPrompt_eq (v : LLMVerifier) (order : List (String × String)) (candidate : String) :
    v.renderedPrompt order candidate =
      v.withSystem (String.ofList
        (replaceSteps id placeholder (stepsOf candidate order) v.promptTemplate.toList)) := by
  have hreplace : ∀ (prompt : String) (key value : String),
      (replaceAll prompt (needle key) value).toList =
        replaceBy id (placeholder key) value.toList 0 prompt.toList := by
    intro prompt key value
    have hmap : (replaceBy id (placeholder key) value.toList 0 prompt.toList).map id =
        replaceAllFrom (placeholder key) (value.toList.map id) 0 (prompt.toList.map id) :=
      map_replaceBy 0 prompt.toList
    rw [List.map_id, List.map_id, List.map_id] at hmap
    rw [hmap, replaceAll, String.toList_ofList]
    rfl
  have hfold : ∀ (params : List (String × String)) (prompt : String),
      (params.foldl (fun prompt param => replaceAll prompt (needle param.1) param.2)
          prompt).toList =
        replaceSteps id placeholder (params.map fun param => (param.1, param.2.toList))
          prompt.toList := by
    intro params
    induction params with
    | nil =>
      intro prompt
      rfl
    | cons param params ih =>
      intro prompt
      rw [List.foldl_cons, ih, hreplace]
      rfl
  have hlast : "\x7bcandidate\x7d" = needle "candidate" := by decide
  rw [LLMVerifier.renderedPrompt, stepsOf, replaceSteps_append, ← hfold, hlast,
    ← String.ofList_toList (s := replaceAll _ _ _), hreplace]
  rfl

lemma sortedParams_perm (order : List (String × String)) : (sortedParams order).Perm order :=
  List.perm_insertionSort _ order

lemma lookup_of_mem {params : List (String × String)} {value : String}
    (hnodup : (params.map Prod.fst).Nodup) (h : (key, value) ∈ params) :
    params.lookup key = some value := by
  induction params with
  | nil => cases h
  | cons param params ih =>
    rw [List.map_cons, List.nodup_cons] at hnodup
    rcases List.mem_cons.mp h with rfl | hmem
    · rw [List.lookup_cons_self]
    · have hne : key ≠ param.1 := by
        intro heq
        apply hnodup.1
        rw [← heq]
        exact List.mem_map_of_mem hmem
      rw [List.lookup_cons, beq_false_of_ne hne]
      exact ih hnodup.2 hmem

/-- After all steps a key's holes hold its value, and the candidate's the candidate. -/
lemma filledBy_stepsOf (horder : order.Perm v.params) (hkey : key ∈ v.keys) :
    filledBy unfilled (stepsOf candidate order) key = some (v.valueOf candidate key) := by
  rw [stepsOf, filledBy_concat, LLMVerifier.valueOf]
  by_cases hcandidate : key = "candidate"
  · rw [hcandidate, Function.update_self, if_pos rfl]
  · rw [Function.update_of_ne hcandidate, if_neg hcandidate]
    have hparams : (sortedParams order).Perm v.params := (sortedParams_perm order).trans horder
    have hmem := (List.mem_cons.mp hkey).resolve_left hcandidate
    apply filledBy_of_mem
    · intro step hstep heq
      obtain ⟨param, hparam, rfl⟩ := List.mem_map.mp hstep
      rw [← heq, lookup_of_mem v.distinct (hparams.mem_iff.mp hparam)]
      rfl
    · obtain ⟨param, hparam, rfl⟩ := List.mem_map.mp hmem
      rw [List.map_map]
      exact List.mem_map.mpr ⟨param, hparams.mem_iff.mpr hparam, rfl⟩

/-- What the substitution at once gives does not depend on the order of the map. -/
theorem filledPrompt_perm (htemplate : v.promptTemplate = w.promptTemplate)
    (hsystem : v.systemPrompt = w.systemPrompt) (hparams : v.params.Perm w.params) :
    v.filledPrompt candidate = w.filledPrompt candidate := by
  have hkeys : v.keys.Perm w.keys := (hparams.map Prod.fst).cons _
  have hpieces : v.pieces = w.pieces := by
    rw [LLMVerifier.pieces, LLMVerifier.pieces, htemplate]
    exact holesFrom_perm placeholder_injective hkeys 0 _
  have hvalues : ∀ key own, .hole key own ∈ w.pieces →
      (some (v.valueOf candidate key)).getD own = (some (w.valueOf candidate key)).getD own := by
    intro key own hmem
    have hkey : key ∈ w.keys := ((reads_pieces w).hole_mem hmem).1
    rw [← filledBy_stepsOf hparams.symm (hkeys.mem_iff.mpr hkey),
      ← filledBy_stepsOf (List.Perm.refl w.params) hkey]
  rw [LLMVerifier.filledPrompt, LLMVerifier.filledPrompt, hpieces, fill_congr hvalues,
    LLMVerifier.withSystem, LLMVerifier.withSystem, hsystem]

/-- Placeholders of keys without braces do not run into each other. -/
lemma apart_of_plain (h : ∀ key ∈ v.keys, '{' ∉ key.toList ∧ '}' ∉ key.toList) :
    ∀ key ∈ v.keys, OnlyIn id unfilled (placeholder key) key v.pieces := by
  have hapart : Apart placeholder v.keys := by
    intro key hkey other hother k hk r hpre
    rw [placeholder_eq] at hk
    rw [placeholder_eq, placeholder_eq] at hpre
    cases k with
    | zero =>
      rw [List.drop_zero, List.cons_append, List.append_assoc, List.singleton_append] at hpre
      obtain ⟨rest, hrest⟩ := (List.cons_prefix_cons.mp hpre).2
      rw [List.append_assoc, List.singleton_append] at hrest
      have hsame := (BraceTemplates.upTo_unique (h other hother).2 (h key hkey).2 hrest).1
      exact ⟨rfl, (String.toList_inj.mp hsame).symm⟩
    | succ k =>
      rw [List.length_cons] at hk
      have hlt : k < (key.toList ++ ['}']).length := by omega
      rw [List.drop_succ_cons, List.drop_eq_getElem_cons hlt, List.cons_append] at hpre
      have hmem : '{' ∈ key.toList ++ ['}'] := by
        rw [(List.cons_prefix_cons.mp hpre).1]
        exact List.getElem_mem hlt
      rcases List.mem_append.mp hmem with hopen | hclose
      · exact absurd hopen (h key hkey).1
      · cases List.mem_singleton.mp hclose
  intro key hkey
  exact hapart.onlyIn (fun key _ => placeholder_ne_nil key) hkey (reads_pieces v)

/-- A verifier whose texts do not mix renders its template all at once, in every order of its
parameters. -/
theorem rendered_at_once (v : LLMVerifier) (candidate : String) (h : v.Unmixed candidate) :
    ∀ order, order.Perm v.params → v.FilledAtOnce candidate order := by
  intro order horder
  constructor
  · have hsteps : replaceSteps id placeholder (stepsOf candidate order) (fill unfilled v.pieces) =
        fill (filledBy unfilled (stepsOf candidate order)) v.pieces :=
      replaceSteps_fill (fun step _ => placeholder_ne_nil step.1) (reads_pieces v).holding
        (h.undisturbed order horder)
    have hvalues : fill (filledBy unfilled (stepsOf candidate order)) v.pieces =
        fill (fun key => some (v.valueOf candidate key)) v.pieces := by
      apply fill_congr
      intro key own hmem
      rw [filledBy_stepsOf horder ((reads_pieces v).hole_mem hmem).1]
    rw [renderedPrompt_eq, ← (reads_pieces v).fill_unfilled, hsteps, hvalues]
    rfl
  · intro key hkey
    have hcount := countFrom_fill (placeholder_ne_nil key) rfl ((reads_pieces v).holding key)
      (h.apart key hkey)
    rw [(reads_pieces v).fill_unfilled, List.map_id] at hcount
    exact hcount

/-- Two keys, one of which the other begins with, and placeholders in the candidate. -/
def envVerifier : LLMVerifier :=
  ((LLMVerifier.new "\x7benv\x7d, \x7benv_name\x7d: \x7bcandidate\x7d").withParam
    "env" "ci").withParam "env_name" "nightly"

theorem envVerifier_at_once :
    envVerifier.FilledAtOnce "\x7benv\x7d \x7bcandidate\x7d" envVerifier.params := by
  apply rendered_at_once _ _ _ _ (List.Perm.refl _)
  constructor
  · apply apart_of_plain
    decide
  · have horders : ∀ order ∈ envVerifier.params.permutations',
        Undisturbed id placeholder envVerifier.pieces unfilled
          (stepsOf "\x7benv\x7d \x7bcandidate\x7d" order) := by
      decide
    intro order horder
    exact horders order (List.mem_permutations'.mpr horder)

/-- The values of two keys name each other. -/
def crossedVerifier : LLMVerifier :=
  ((LLMVerifier.new "\x7ba\x7d\x7bb\x7d").withParam "a" "\x7bb\x7d").withParam "b" "\x7ba\x7d"

def quotingVerifier : LLMVerifier :=
  (LLMVerifier.new "\x7bk\x7d \x7bcandidate\x7d").withParam "k" "\x7bcandidate\x7d"

def shadowingVerifier : LLMVerifier :=
  (LLMVerifier.new "\x7bcandidate\x7d").withParam "candidate" "x"

theorem prompt_not_at_once :
    crossedVerifier.renderedPrompt crossedVerifier.params "" ≠
      crossedVerifier.renderedPrompt crossedVerifier.params.reverse "" ∧
    ¬ crossedVerifier.FilledAtOnce "" crossedVerifier.params ∧
    ¬ quotingVerifier.FilledAtOnce "y" quotingVerifier.params ∧
    ¬ shadowingVerifier.FilledAtOnce "y" shadowingVerifier.params := by
  refine ⟨by decide, ?_, ?_, ?_⟩
  · intro h
    exact absurd h.rendered (by decide)
  · intro h
    exact absurd h.rendered (by decide)
  · intro h
    exact absurd h.rendered (by decide)

end Rendering

end Loker.VerifierPrompt
