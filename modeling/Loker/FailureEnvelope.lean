import Loker.ByteSlices
import Loker.SpecFiles
import Loker.Strategies

/-! The envelope that tells the next rung of a ladder of the last failure: its excerpts are cut
until it fits. -/

namespace Loker.FailureEnvelope

open ByteSlices SpecFiles Strategies

section Model

/-- The number of bytes of a text. -/
def len (s : String) : ℕ := byteLen s.toList

def maxFailureContextBytes : ℕ := 8192

def suffixTemplateLen : ℕ := len " …[truncated,  bytes elided]"

/-- `&s[..n]`; nothing stands for a panic. -/
def slice (s : String) (n : ℕ) : Option String := (sliceTo n s.toList).map String.ofList

def elidedSuffix (elided : ℕ) : String := " …[truncated, " ++ elided.repr ++ " bytes elided]"

def truncateExcerpt (s : String) (maxBytes : ℕ) : Option String :=
  if len s ≤ maxBytes then some s
  else
    let digits := len (len s).repr
    let suffixLen := suffixTemplateLen + digits
    if maxBytes ≤ suffixLen then slice s (boundaryBefore s.toList maxBytes)
    else
      let boundary := boundaryBefore s.toList (maxBytes - suffixLen)
      (slice s boundary).map (· ++ elidedSuffix (len s - boundary))

variable (tables : CharTables)

def quotedField : Option String → String → String
  | some _, shown => debug tables shown
  | none, _ => "null"

def responseField : Option String → String → String
  | some _, excerpt => "|\n    " ++ TextOps.replaceAll excerpt "\n" "\n    "
  | none, _ => "null"

/-- The envelope with a reason and an excerpt as they are to be shown. -/
def envelope (ctx : FailureContext) (body verify excerpt : String) : String :=
  "<previous-attempt>\n  tier: " ++ ctx.previousTier.asStr ++
  "\n  backend: " ++ ctx.previousBackend ++
  "\n  verify_reason: " ++ quotedField tables ctx.verifyReason verify ++
  "\n  backend_error: " ++
    quotedField tables ctx.backendErrorClass (ctx.backendErrorClass.getD "null") ++
  "\n  response_excerpt: " ++ responseField ctx.responseExcerpt excerpt ++
  "\n</previous-attempt>\n\n" ++ "<original-prompt>\n" ++ body ++ "\n</original-prompt>"

/-- The envelope whose excerpt and reason are cut to their budgets. -/
def budgeted (ctx : FailureContext) (body : String) (excerptBudget verifyCap : ℕ) :
    Option String := do
  let excerpt ← truncateExcerpt (ctx.responseExcerpt.getD "") excerptBudget
  let verify ← truncateExcerpt (ctx.verifyReason.getD "") verifyCap
  some (envelope tables ctx body verify excerpt)

/-- The rounds of the loop: first the excerpt's budget shrinks, then the reason's. -/
def shrink (ctx : FailureContext) (body : String) (excerptBudget verifyCap : ℕ) : Option String :=
  match budgeted tables ctx body excerptBudget verifyCap with
  | none => none
  | some text =>
    if len text ≤ maxFailureContextBytes then some text
    else if 0 < excerptBudget then shrink ctx body (excerptBudget - 512) verifyCap
    else if 64 < verifyCap then shrink ctx body excerptBudget (verifyCap - 256)
    else truncateExcerpt text maxFailureContextBytes
termination_by excerptBudget + verifyCap
decreasing_by
  · omega
  · omega

def buildFailureEnvelope (ctx : FailureContext) (body : String) : Option String :=
  shrink tables ctx body maxResponseExcerptBytes 1024

end Model

section Truncation

variable {s r : String} {n : ℕ}

/-- The parts of a text before and after a position between two characters. -/
structure CutAt (s p q : String) (n : ℕ) : Prop where
  whole : s = p ++ q
  size : len p = n

lemma len_append (s t : String) : len (s ++ t) = len s + len t := by
  unfold len
  rw [String.toList_append, byteLen_append]

lemma exists_slice (s : String) (n : ℕ) :
    ∃ p q, slice s (boundaryBefore s.toList n) = some p ∧
      CutAt s p q (boundaryBefore s.toList n) := by
  obtain ⟨p, hp⟩ := exists_sliceTo s.toList n
  obtain ⟨⟨q, hq⟩, hlen⟩ := sliceTo_eq_some_iff.mp hp
  refine ⟨String.ofList p, String.ofList q, ?_, ?_, ?_⟩
  · rw [slice, hp]
    rfl
  · rw [← String.ofList_append, hq, String.ofList_toList]
  · rw [len, String.toList_ofList, hlen]

lemma utf8Size_of_isDigit {c : Char} (h : c.isDigit = true) : c.utf8Size = 1 := by
  rw [Char.isDigit_iff_toNat] at h
  rw [Char.utf8Size_eq_one_iff, UInt32.le_iff_toNat_le]
  exact h.2.trans (by decide)

lemma byteLen_digits {cs : List Char} (h : ∀ c ∈ cs, c.isDigit = true) :
    byteLen cs = cs.length := by
  induction cs with
  | nil => rfl
  | cons c cs ih =>
    have hc := utf8Size_of_isDigit (h c List.mem_cons_self)
    have hcs := ih fun d hd => h d (List.mem_cons_of_mem _ hd)
    rw [byteLen_cons, hc, hcs, List.length_cons, Nat.add_comm]

lemma len_repr (n : ℕ) : len n.repr = n.repr.length := by
  rw [len, byteLen_digits fun c hc => FileTree.isDigit_of_mem_repr hc, String.length_toList]

lemma len_repr_mono {m n : ℕ} (h : m ≤ n) : len m.repr ≤ len n.repr := by
  rw [len_repr, len_repr]
  have hn : n < 10 ^ n.repr.length :=
    (Nat.length_repr_le_iff Nat.length_repr_pos).mp (Nat.le_refl _)
  exact (Nat.length_repr_le_iff Nat.length_repr_pos).mpr (by omega)

lemma len_elidedSuffix (n : ℕ) : len (elidedSuffix n) = suffixTemplateLen + len n.repr := by
  have htemplate : suffixTemplateLen = len " …[truncated, " + len " bytes elided]" := by decide
  have hparts : len (elidedSuffix n) =
      len " …[truncated, " + len n.repr + len " bytes elided]" := by
    unfold elidedSuffix
    rw [len_append, len_append]
  omega

/-- The text itself, or a part before a position between two characters, with or without the
count of the bytes after it. -/
def Excerpt (s r : String) : Prop :=
  r = s ∨ ∃ p q, s = p ++ q ∧ (r = p ∨ r = p ++ elidedSuffix (len q))

lemma truncateExcerpt_fits {maxBytes : ℕ} (h : len s ≤ maxBytes) :
    truncateExcerpt s maxBytes = some s := if_pos h

lemma truncateExcerpt_short {maxBytes : ℕ} (h : ¬ len s ≤ maxBytes)
    (hshort : maxBytes ≤ suffixTemplateLen + len (len s).repr) :
    truncateExcerpt s maxBytes = slice s (boundaryBefore s.toList maxBytes) :=
  (if_neg h).trans (if_pos hshort)

lemma truncateExcerpt_long {maxBytes : ℕ} (h : ¬ len s ≤ maxBytes)
    (hlong : ¬ maxBytes ≤ suffixTemplateLen + len (len s).repr) :
    truncateExcerpt s maxBytes =
      (slice s (boundaryBefore s.toList (maxBytes - (suffixTemplateLen + len (len s).repr)))).map
        (· ++ elidedSuffix (len s - boundaryBefore s.toList
          (maxBytes - (suffixTemplateLen + len (len s).repr)))) :=
  (if_neg h).trans (if_neg hlong)

lemma truncateExcerpt_spec (s : String) (maxBytes : ℕ) :
    ∃ r, truncateExcerpt s maxBytes = some r ∧ len r ≤ maxBytes ∧ Excerpt s r := by
  by_cases hfits : len s ≤ maxBytes
  · exact ⟨s, truncateExcerpt_fits hfits, hfits, Or.inl rfl⟩
  by_cases hshort : maxBytes ≤ suffixTemplateLen + len (len s).repr
  · obtain ⟨p, q, hslice, hcut⟩ := exists_slice s maxBytes
    have hle := boundaryBefore_le s.toList maxBytes
    rw [truncateExcerpt_short hfits hshort, hslice]
    refine ⟨p, rfl, ?_, Or.inr ⟨p, q, hcut.whole, Or.inl rfl⟩⟩
    rw [hcut.size]
    exact hle
  · obtain ⟨p, q, hslice, hcut⟩ :=
      exists_slice s (maxBytes - (suffixTemplateLen + len (len s).repr))
    have hle := boundaryBefore_le s.toList (maxBytes - (suffixTemplateLen + len (len s).repr))
    have hsum : len s = len p + len q := by rw [hcut.whole, len_append]
    have helided : len s - boundaryBefore s.toList
        (maxBytes - (suffixTemplateLen + len (len s).repr)) = len q := by
      rw [← hcut.size]
      omega
    have hdigits : len (len q).repr ≤ len (len s).repr := len_repr_mono (by omega)
    rw [truncateExcerpt_long hfits hshort, hslice, helided]
    refine ⟨_, rfl, ?_, Or.inr ⟨p, q, hcut.whole, Or.inr rfl⟩⟩
    rw [len_append, len_elidedSuffix, hcut.size]
    omega

lemma truncateExcerpt_zero (s : String) : truncateExcerpt s 0 = some "" := by
  obtain ⟨r, hr, hlen, _⟩ := truncateExcerpt_spec s 0
  have hempty : r = "" := by
    cases hchars : r.toList with
    | nil => exact String.toList_eq_nil_iff.mp hchars
    | cons c cs =>
      have hpos := c.utf8Size_pos
      rw [len, hchars, byteLen_cons] at hlen
      omega
  rw [hr, hempty]

end Truncation

section Envelope

variable {tables : CharTables} {ctx : FailureContext} {body : String}

/-- The prompt stands whole between its tags, which close the text. -/
def KeepsPrompt (body r : String) : Prop :=
  ∃ before, r = before ++ "<original-prompt>\n" ++ body ++ "\n</original-prompt>"

lemma keepsPrompt_envelope (tables : CharTables) (ctx : FailureContext) (body verify excerpt : String) :
    KeepsPrompt body (envelope tables ctx body verify excerpt) := by
  refine ⟨"<previous-attempt>\n  tier: " ++ ctx.previousTier.asStr ++
    "\n  backend: " ++ ctx.previousBackend ++
    "\n  verify_reason: " ++ quotedField tables ctx.verifyReason verify ++
    "\n  backend_error: " ++
      quotedField tables ctx.backendErrorClass (ctx.backendErrorClass.getD "null") ++
    "\n  response_excerpt: " ++ responseField ctx.responseExcerpt excerpt ++
    "\n</previous-attempt>\n\n", ?_⟩
  unfold envelope
  rfl

lemma exists_budgeted (tables : CharTables) (ctx : FailureContext) (body : String)
    (excerptBudget verifyCap : ℕ) :
    ∃ verify excerpt, budgeted tables ctx body excerptBudget verifyCap =
        some (envelope tables ctx body verify excerpt) ∧
      Excerpt (ctx.verifyReason.getD "") verify ∧ Excerpt (ctx.responseExcerpt.getD "") excerpt := by
  obtain ⟨excerpt, hexcerpt, -, hcut⟩ :=
    truncateExcerpt_spec (ctx.responseExcerpt.getD "") excerptBudget
  obtain ⟨verify, hverify, -, hcut'⟩ := truncateExcerpt_spec (ctx.verifyReason.getD "") verifyCap
  refine ⟨verify, excerpt, ?_, hcut', hcut⟩
  rw [budgeted, hexcerpt, hverify]
  rfl

lemma budgeted_zero :
    budgeted tables ctx body 0 0 = some (envelope tables ctx body "" "") := by
  rw [budgeted, truncateExcerpt_zero, truncateExcerpt_zero]
  rfl

/-- What a text says of a failure: the tier, the backend and the error class, the reason and the
excerpt as far as there is room for them, and the prompt. Where there is none, it is cut itself. -/
def Tells (tables : CharTables) (ctx : FailureContext) (body text : String) : Prop :=
  (∃ verify excerpt, Excerpt (ctx.verifyReason.getD "") verify ∧
      Excerpt (ctx.responseExcerpt.getD "") excerpt ∧
      text = envelope tables ctx body verify excerpt) ∨
    maxFailureContextBytes < len (envelope tables ctx body "" "") ∧
      Excerpt (envelope tables ctx body "" "") text

lemma Tells.keepsPrompt {text : String} (h : Tells tables ctx body text)
    (hfits : len (envelope tables ctx body "" "") ≤ maxFailureContextBytes) :
    KeepsPrompt body text := by
  rcases h with ⟨verify, excerpt, -, -, rfl⟩ | ⟨hover, -⟩
  · exact keepsPrompt_envelope tables ctx body verify excerpt
  · exact absurd hfits (Nat.not_le.mpr hover)

/-- Every round ends the loop with an envelope that fits, or is followed by one with smaller
budgets; the last round has none left. -/
lemma shrink_spec (excerptBudget verifyCap : ℕ) (hcap : 256 ∣ verifyCap) :
    ∃ r, shrink tables ctx body excerptBudget verifyCap = some r ∧
      len r ≤ maxFailureContextBytes ∧ Tells tables ctx body r := by
  induction hn : excerptBudget + verifyCap using Nat.strong_induction_on generalizing
    excerptBudget verifyCap with
  | _ n ih =>
    obtain ⟨verify, excerpt, htext, hverify, hexcerpt⟩ :=
      exists_budgeted tables ctx body excerptBudget verifyCap
    rw [shrink, htext]
    by_cases hfits : len (envelope tables ctx body verify excerpt) ≤ maxFailureContextBytes
    · exact ⟨_, if_pos hfits, hfits, Or.inl ⟨verify, excerpt, hverify, hexcerpt, rfl⟩⟩
    by_cases hbudget : 0 < excerptBudget
    · obtain ⟨r, hr, hspec⟩ := ih _ (by omega) (excerptBudget - 512) verifyCap hcap rfl
      exact ⟨r, (if_neg hfits).trans ((if_pos hbudget).trans hr), hspec⟩
    by_cases hleft : 64 < verifyCap
    · have hcap' : 256 ∣ verifyCap - 256 := Nat.dvd_sub hcap (Nat.dvd_refl 256)
      obtain ⟨r, hr, hspec⟩ := ih _ (by omega) excerptBudget (verifyCap - 256) hcap' rfl
      exact ⟨r, (if_neg hfits).trans ((if_neg hbudget).trans ((if_pos hleft).trans hr)), hspec⟩
    · -- The budgets are used up, so this round showed the empty texts.
      have hnone : excerptBudget = 0 ∧ verifyCap = 0 := by omega
      rw [hnone.1, hnone.2, budgeted_zero] at htext
      rw [← Option.some.inj htext] at hfits ⊢
      obtain ⟨r, hr, hlen, hcut⟩ :=
        truncateExcerpt_spec (envelope tables ctx body "" "") maxFailureContextBytes
      exact ⟨r, (if_neg hfits).trans ((if_neg hbudget).trans ((if_neg hleft).trans hr)), hlen,
        Or.inr ⟨Nat.not_le.mp hfits, hcut⟩⟩

/-- With a prompt over the cap no round fits, and the reason and the excerpt are left out. -/
lemma shrink_over (hover : maxFailureContextBytes < len body) (excerptBudget verifyCap : ℕ)
    (hcap : 256 ∣ verifyCap) : shrink tables ctx body excerptBudget verifyCap =
      truncateExcerpt (envelope tables ctx body "" "") maxFailureContextBytes := by
  induction hn : excerptBudget + verifyCap using Nat.strong_induction_on generalizing
    excerptBudget verifyCap with
  | _ n ih =>
    obtain ⟨verify, excerpt, htext, -, -⟩ :=
      exists_budgeted tables ctx body excerptBudget verifyCap
    have hfits : ¬ len (envelope tables ctx body verify excerpt) ≤ maxFailureContextBytes := by
      obtain ⟨before, hbefore⟩ := keepsPrompt_envelope tables ctx body verify excerpt
      rw [hbefore, len_append, len_append, len_append]
      omega
    rw [shrink, htext]
    refine (if_neg hfits).trans ?_
    by_cases hbudget : 0 < excerptBudget
    · exact (if_pos hbudget).trans (ih _ (by omega) (excerptBudget - 512) verifyCap hcap rfl)
    by_cases hleft : 64 < verifyCap
    · have hcap' : 256 ∣ verifyCap - 256 := Nat.dvd_sub hcap (Nat.dvd_refl 256)
      exact (if_neg hbudget).trans
        ((if_pos hleft).trans (ih _ (by omega) excerptBudget (verifyCap - 256) hcap' rfl))
    · have hnone : excerptBudget = 0 ∧ verifyCap = 0 := by omega
      rw [hnone.1, hnone.2, budgeted_zero] at htext
      rw [← Option.some.inj htext]
      exact (if_neg hbudget).trans (if_neg hleft)

lemma buildFailureEnvelope_spec (tables : CharTables) (ctx : FailureContext) (body : String) :
    ∃ r, buildFailureEnvelope tables ctx body = some r ∧ len r ≤ maxFailureContextBytes ∧
      Tells tables ctx body r := by
  have hcap : 256 ∣ 1024 := by decide
  exact shrink_spec maxResponseExcerptBytes 1024 hcap

lemma buildFailureEnvelope_over (hover : maxFailureContextBytes < len body) :
    buildFailureEnvelope tables ctx body =
      truncateExcerpt (envelope tables ctx body "" "") maxFailureContextBytes := by
  have hcap : 256 ∣ 1024 := by decide
  exact shrink_over hover maxResponseExcerptBytes 1024 hcap

/-- A reason and an excerpt within their first budgets are told whole when the envelope fits. -/
lemma buildFailureEnvelope_whole (hverify : len (ctx.verifyReason.getD "") ≤ 1024)
    (hexcerpt : len (ctx.responseExcerpt.getD "") ≤ maxResponseExcerptBytes)
    (hfits : len (envelope tables ctx body (ctx.verifyReason.getD "") (ctx.responseExcerpt.getD "")) ≤
      maxFailureContextBytes) :
    buildFailureEnvelope tables ctx body =
      some (envelope tables ctx body (ctx.verifyReason.getD "") (ctx.responseExcerpt.getD "")) := by
  have hbudgeted : budgeted tables ctx body maxResponseExcerptBytes 1024 =
      some (envelope tables ctx body (ctx.verifyReason.getD "") (ctx.responseExcerpt.getD "")) := by
    rw [budgeted, truncateExcerpt_fits hexcerpt, truncateExcerpt_fits hverify]
    rfl
  rw [buildFailureEnvelope, shrink, hbudgeted]
  exact if_pos hfits

/-- The envelope is built in every case and fits its cap; it keeps the whole prompt whenever the
envelope without excerpt and reason fits. Each excerpt is the text, or a part of it that is cut
between two characters, with the count of what is left out if there is room for it. -/
theorem failure_envelope_bounded (tables : CharTables) :
    (∀ ctx body, ∃ r, buildFailureEnvelope tables ctx body = some r ∧
      len r ≤ maxFailureContextBytes ∧
      (len (envelope tables ctx body "" "") ≤ maxFailureContextBytes → KeepsPrompt body r)) ∧
    ∀ s maxBytes, ∃ r, truncateExcerpt s maxBytes = some r ∧ len r ≤ maxBytes ∧
      Excerpt s r := by
  constructor
  · intro ctx body
    obtain ⟨r, hr, hlen, htells⟩ := buildFailureEnvelope_spec tables ctx body
    exact ⟨r, hr, hlen, htells.keepsPrompt⟩
  · exact truncateExcerpt_spec

end Envelope

end Loker.FailureEnvelope
