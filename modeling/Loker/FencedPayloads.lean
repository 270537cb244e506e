import Loker.EditParser
import Loker.TextLines
import Loker.TextSearch

/-! A payload between two fences of its own, and what the edit parser takes out of the reply. -/

namespace Loker.FencedPayloads

open TextOps TextLines TextSearch EditParser

section Search

variable {pat l s p prose x : List Char}

lemma takeBefore_line {rest : List Char} (hl : '\n' ∉ l) :
    takeBefore ['\n'] (l ++ '\n' :: rest) = l := by
  have hpre : ['\n'] <+: '\n' :: rest := ⟨rest, rfl⟩
  rw [takeBefore_append_iff (by decide) hpre]
  intro i hi hoccurs
  have hget := hoccurs.get Nat.zero_lt_one
  rw [Nat.add_zero, List.getElem?_append_left hi] at hget
  exact hl (List.mem_of_getElem? hget)

/-- A match that begins with a line break begins after text without one. -/
lemma infix_after (hl : '\n' ∉ l) (h : '\n' :: p <:+: l ++ s) : '\n' :: p <:+: s := by
  induction l with
  | nil => exact h
  | cons c l ih =>
      rcases List.infix_cons_iff.mp h with hpre | hrest
      · exact (hl ((List.cons_prefix_cons.mp hpre).1 ▸ List.mem_cons_self)).elim
      · exact ih (fun hmem => hl (List.mem_cons_of_mem c hmem)) hrest

/-- A match that ends in the first part puts all before it there. -/
lemma takeBefore_short (hpat : pat ≠ []) (h : pat <:+: l) (s : List Char) :
    takeBefore pat (l ++ s) ++ pat <+: l := by
  obtain ⟨i, hi⟩ := infix_iff_occursAt.mp h
  have hlong : OccursAt pat i (l ++ s) := hi.append
  have hle := takeBefore_length_le hlong
  have hend := hi.length_le hpat
  have hsplit := takeBefore_append_drop hpat (infix_iff_occursAt.mpr ⟨i, hlong⟩)
  refine List.prefix_of_prefix_length_le ⟨_, hsplit.symm⟩ (List.prefix_append l s) ?_
  rw [List.length_append]
  omega

def fence : List Char := "```".toList

/-- The first fence may begin with backticks that end the prose; what it leaves of the opening fence
stays on the fence's line. -/
lemma drop_fence (h : ¬ fence <:+: prose) :
    ∃ ticks, '\n' ∉ ticks ∧ (prose ++ fence ++ x).drop
      ((takeBefore fence (prose ++ fence ++ x)).length + 3) = ticks ++ x := by
  have hoccurs : OccursAt fence prose.length (prose ++ fence ++ x) := by
    refine ⟨x, ?_⟩
    rw [List.append_assoc, List.drop_left]
  have hle := takeBefore_length_le hoccurs
  have hsplit := takeBefore_append_drop (by decide)
    (infix_iff_occursAt.mpr ⟨prose.length, hoccurs⟩)
  generalize takeBefore fence (prose ++ fence ++ x) = before at hle hsplit ⊢
  have hreach : prose.length < before.length + 3 := by
    by_contra hshort
    have hpre : before ++ fence <+: prose := by
      refine List.prefix_of_prefix_length_le ⟨_, hsplit.symm⟩
        (List.append_assoc prose fence x ▸ List.prefix_append prose (fence ++ x)) ?_
      rw [List.length_append]
      exact Nat.le_of_not_lt hshort
    exact h ((List.suffix_append before fence).isInfix.trans hpre.isInfix)
  refine ⟨fence.drop (before.length + 3 - prose.length), ?_, ?_⟩
  · intro hmem
    exact absurd (List.mem_of_mem_drop hmem) (by decide)
  · rw [List.append_assoc, List.drop_append, List.drop_eq_nil_of_le (Nat.le_of_lt hreach),
      List.nil_append, List.drop_append_of_le_length]
    have hfence : fence.length = 3 := rfl
    omega

end Search

section Trim

variable {s p : List Char}

def isDark (c : Char) : Bool := !isWhiteSpace c

lemma countP_dropWhile (s : List Char) :
    (s.dropWhile isWhiteSpace).countP isDark = s.countP isDark := by
  induction s with
  | nil => rfl
  | cons c s ih =>
      cases hc : isWhiteSpace c with
      | true =>
          rw [List.dropWhile_cons_of_pos hc, List.countP_cons_of_neg (by simp [isDark, hc]), ih]
      | false => rw [List.dropWhile_cons_of_neg (by simp [hc])]

/-- Trimming takes no character that can be seen. -/
lemma countP_trim (s : String) : (trim s).toList.countP isDark = s.toList.countP isDark := by
  rw [toList_trim, trimEndChars, List.rdropWhile, List.countP_reverse, countP_dropWhile,
    List.countP_reverse, countP_dropWhile]

end Trim

section Payload

variable {prose lang payload after input : String}

/-- A reply whose one code block holds the payload between two fences. -/
structure Fenced (prose lang payload after input : String) : Prop where
  proseFree : contains prose "```" = false
  langLine : '\n' ∉ lang.toList
  afterFree : contains after "```" = false
  text : input = prose ++ "```" ++ lang ++ "\n" ++ payload ++ "\n```" ++ after ∨
    (payload = "" ∧ input = prose ++ "```" ++ lang ++ "\n" ++ "```" ++ after)

lemma splitAtFirst_line {l r : List Char} (hl : '\n' ∉ l) :
    splitAtFirst (String.ofList (l ++ '\n' :: r)) "\n" = some (String.ofList l, String.ofList r) := by
  have hcontains : contains (String.ofList (l ++ '\n' :: r)) "\n" = true := by
    have hchars : (String.ofList (l ++ '\n' :: r)).toList = l ++ '\n' :: r := String.toList_ofList
    rw [contains, decide_eq_true_eq, hchars]
    exact ⟨l, r, List.append_assoc l ['\n'] r⟩
  have hpat : "\n".toList = ['\n'] := rfl
  rw [splitAtFirst, if_pos hcontains]
  simp only [String.toList_ofList, hpat, takeBefore_line hl, List.length_singleton]
  rw [← List.drop_drop, List.drop_left]
  rfl

/-- What follows the opening fence's line is searched for the closing one. -/
lemma extractCodeBlock_fence {rest : String} (hprose : contains prose "```" = false)
    (hlang : '\n' ∉ lang.toList) :
    (extractCodeBlock (prose ++ "```" ++ lang ++ "\n" ++ rest)).1 =
      (findClosingFence rest).getD (prose ++ "```" ++ lang ++ "\n" ++ rest) := by
  have hno : ¬ fence <:+: prose.toList := of_decide_eq_false hprose
  have hfence : "```".toList = fence := rfl
  have hchars : (prose ++ "```" ++ lang ++ "\n" ++ rest).toList =
      prose.toList ++ fence ++ (lang.toList ++ '\n' :: rest.toList) := by
    simp [fence]
  have hcontains : contains (prose ++ "```" ++ lang ++ "\n" ++ rest) "```" = true := by
    rw [contains, hchars, hfence, decide_eq_true_eq]
    exact ⟨_, _, rfl⟩
  obtain ⟨ticks, hticks, hdrop⟩ : ∃ ticks, '\n' ∉ ticks ∧
      (prose.toList ++ fence ++ (lang.toList ++ '\n' :: rest.toList)).drop
        ((takeBefore fence (prose.toList ++ fence ++ (lang.toList ++ '\n' :: rest.toList))).length +
          3) = ticks ++ (lang.toList ++ '\n' :: rest.toList) := drop_fence hno
  have hline : '\n' ∉ ticks ++ lang.toList := by
    rw [List.mem_append, not_or]
    exact ⟨hticks, hlang⟩
  have hlength : fence.length = 3 := rfl
  have hsplit : ∃ before, splitAtFirst (prose ++ "```" ++ lang ++ "\n" ++ rest) "```" =
      some (before, String.ofList ((ticks ++ lang.toList) ++ '\n' :: rest.toList)) := by
    rw [splitAtFirst, if_pos hcontains]
    simp only [hchars, hfence, hlength, hdrop]
    exact ⟨_, by rw [List.append_assoc ticks]⟩
  obtain ⟨before, hsplit⟩ := hsplit
  rw [extractCodeBlock, hsplit]
  simp only [splitLangHint, splitAtFirst_line hline, String.ofList_toList]
  cases findClosingFence rest with
  | none => rfl
  | some content => rfl

/-- The closing fence is found, unless a line of the payload before it begins with one. -/
lemma findClosingFence_payload (payload after : String) :
    ∃ content, findClosingFence (payload ++ "\n```" ++ after) = some content ∧
      (contains payload "\n```" = false → content = payload) ∧
      (contains payload "\n```" = true →
        content.toList ++ "\n```".toList <+: payload.toList) := by
  have hchars : (payload ++ "\n```" ++ after).toList =
      payload.toList ++ ("\n```".toList ++ after.toList) := by
    rw [String.toList_append, String.toList_append, List.append_assoc]
  have hcontains : contains (payload ++ "\n```" ++ after) "\n```" = true := by
    rw [contains, decide_eq_true_eq, String.toList_append, String.toList_append]
    exact ⟨_, _, rfl⟩
  refine ⟨beforeFirst (payload ++ "\n```" ++ after) "\n```",
    by rw [findClosingFence, if_pos hcontains], fun hno => ?_, fun hyes => ?_⟩
  · have hbefore : takeBefore "\n```".toList (payload.toList ++ ("\n```".toList ++ after.toList)) =
        payload.toList := by
      rw [takeBefore_append_iff (by decide) (List.prefix_append _ _)]
      intro i hi hoccurs
      rcases Nat.lt_or_ge payload.toList.length (i + 4) with hover | hwithin
      · -- the match would have the break before the closing fence for one of its backticks
        have hget := hoccurs.get (show payload.toList.length - i < "\n```".toList.length by
          change payload.toList.length - i < 4
          omega)
        rw [Nat.add_sub_cancel' hi.le, List.getElem?_append_right (Nat.le_refl _),
          Nat.sub_self] at hget
        obtain hone | htwo | hthree : payload.toList.length - i = 1 ∨
            payload.toList.length - i = 2 ∨ payload.toList.length - i = 3 := by omega
        · rw [hone] at hget
          cases hget
        · rw [htwo] at hget
          cases hget
        · rw [hthree] at hget
          cases hget
      · have hinside : "\n```".toList <:+: payload.toList := by
          unfold OccursAt at hoccurs
          rw [List.drop_append_of_le_length hi.le] at hoccurs
          have hpre := List.prefix_of_prefix_length_le hoccurs
            (List.prefix_append (payload.toList.drop i) _) (by
              rw [List.length_drop]
              change 4 ≤ _
              omega)
          exact hpre.isInfix.trans (List.drop_suffix i _).isInfix
        exact of_decide_eq_false hno hinside
    rw [beforeFirst, hchars, hbefore, String.ofList_toList]
  · rw [beforeFirst, hchars, String.toList_ofList]
    exact takeBefore_short (by decide) (of_decide_eq_true hyes) _

lemma extract_payload (h : Fenced prose lang payload after input) :
    (contains payload "\n```" = false → (extractCodeBlock input).1 = payload) ∧
      (contains payload "\n```" = true →
        (extractCodeBlock input).1.toList ++ "\n```".toList <+: payload.toList) := by
  rcases h.text with htext | ⟨hempty, htext⟩
  · have hassoc : input = prose ++ "```" ++ lang ++ "\n" ++ (payload ++ "\n```" ++ after) := by
      rw [htext]
      simp only [String.append_assoc]
    obtain ⟨content, hcontent, hwhole, hcut⟩ := findClosingFence_payload payload after
    rw [hassoc, extractCodeBlock_fence h.proseFree h.langLine, hcontent, Option.getD_some]
    exact ⟨hwhole, hcut⟩
  · have hassoc : input = prose ++ "```" ++ lang ++ "\n" ++ ("```" ++ after) := by
      rw [htext]
      simp only [String.append_assoc]
    have hnot : contains ("```" ++ after) "\n```" = false := by
      rw [contains, decide_eq_false_iff_not]
      intro hinfix
      rw [String.toList_append] at hinfix
      have hfence : fence <:+: after.toList :=
        (List.suffix_cons '\n' fence).isInfix.trans (infix_after (by decide) hinfix)
      exact of_decide_eq_false h.afterFree hfence
    have hstarts : startsWith ("```" ++ after) "```" = true := by
      rw [startsWith, List.isPrefixOf_iff_prefix, String.toList_append]
      exact List.prefix_append _ _
    have hclosing : findClosingFence ("```" ++ after) = some "" := by
      rw [findClosingFence, hnot, if_neg Bool.false_ne_true, if_pos hstarts]
    rw [hassoc, extractCodeBlock_fence h.proseFree h.langLine, hclosing, hempty]
    exact ⟨fun _ => rfl, fun hyes => absurd hyes (by decide)⟩

/-- The payload is extracted, up to white space around it, exactly when no line of it but the first
begins with a fence. -/
theorem extract_payload_iff (h : Fenced prose lang payload after input) :
    trim (extractCodeBlock input).1 = trim payload ↔ contains payload "\n```" = false := by
  obtain ⟨hwhole, hcut⟩ := extract_payload h
  constructor
  · intro htrim
    by_contra hyes
    obtain ⟨rest, hrest⟩ := hcut (by simpa using hyes)
    have hcount := congrArg (fun s => s.toList.countP isDark) htrim
    simp only [countP_trim] at hcount
    rw [← hrest, List.countP_append, List.countP_append] at hcount
    have hticks : "\n```".toList.countP isDark = 3 := by decide
    omega
  · intro hno
    rw [hwhole hno]

theorem extract_payload_inline :
    trim (extractCodeBlock "Here:\n```rust\n// use `x` and ``` y\n```\nDone.").1 =
      trim "// use `x` and ``` y" := by
  have hfenced : Fenced "Here:\n" "rust" "// use `x` and ``` y" "\nDone."
      "Here:\n```rust\n// use `x` and ``` y\n```\nDone." :=
    ⟨by decide, by decide, by decide, Or.inl rfl⟩
  exact (extract_payload_iff hfenced).mpr (by decide)

/-- A line of the payload begins with a tagged fence, and the rest of it is lost. -/
theorem payload_cut_short :
    Fenced "Here:\n" "markdown" "# Use\n```sh\nlok run" ""
        "Here:\n```markdown\n# Use\n```sh\nlok run\n```" ∧
      (extractCodeBlock "Here:\n```markdown\n# Use\n```sh\nlok run\n```").1 = "# Use" ∧
      trim "# Use" ≠ trim "# Use\n```sh\nlok run" :=
  ⟨⟨by decide, by decide, by decide, Or.inl rfl⟩, by decide, by decide⟩

end Payload

end Loker.FencedPayloads
