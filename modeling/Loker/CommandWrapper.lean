import Loker.ParallelEdits
import Loker.ShellReading
import Loker.TextSearch

/-! A command in its wrapper, and what the shell reads of it there. -/

namespace Loker.CommandWrapper

open TextOps TextSearch ParallelEdits ShellReading

def placeholder : String := "\x7bcmd\x7d"

def quotedPlaceholder : String := "'\x7bcmd\x7d'"

/-- The text that is put in for every placeholder of the wrapper. -/
def escapedCmd (cmd w : String) : String :=
  if contains w quotedPlaceholder then replaceAll cmd "'" "'\\''" else cmd

/-- What a part of the wrapper becomes. -/
def wrapped (cmd w part : String) : String := replaceAll part placeholder (escapedCmd cmd w)

lemma applyCommandWrapper_eq (cmd w : String) :
    applyCommandWrapper cmd (some w) = wrapped cmd w w := rfl

section Parts

variable {cmd w pre post : String}

lemma wrapped_free (h : contains pre placeholder = false) : wrapped cmd w pre = pre := by
  have hfree : ¬ placeholder.toList <:+: pre.toList := of_decide_eq_false h
  rw [wrapped, replaceAll, replaceAllFrom_free hfree, String.ofList_toList]

/-- The parts around a placeholder are wrapped on their own. -/
lemma wrapped_split (cmd w pre post : String) : wrapped cmd w (pre ++ placeholder ++ post) =
    wrapped cmd w pre ++ escapedCmd cmd w ++ wrapped cmd w post := by
  have hpat : placeholder.toList ≠ [] := by decide
  have hbrace : '\x7b' ∉ placeholder.toList.tail := by decide
  rw [← String.toList_inj]
  simp only [wrapped, replaceAll, String.toList_append, String.toList_ofList, List.append_assoc]
  generalize (escapedCmd cmd w).toList = new
  have hcut : replaceAllFrom placeholder.toList new 0
      (pre.toList ++ '\x7b' :: (placeholder.toList.tail ++ post.toList)) =
      replaceAllFrom placeholder.toList new 0 pre.toList ++
        replaceAllFrom placeholder.toList new 0 (placeholder.toList ++ post.toList) :=
    replaceAllFrom_append hpat hbrace
  rw [replaceAllFrom_match hpat] at hcut
  exact hcut

/-- Quotes around the placeholder are copied. -/
lemma wrapped_quoted (cmd w pre post : String) :
    wrapped cmd w (pre ++ quotedPlaceholder ++ post) =
      wrapped cmd w pre ++ "'" ++ escapedCmd cmd w ++ "'" ++ wrapped cmd w post := by
  have hpat : placeholder.toList ≠ [] := by decide
  have hquote : '\'' ∉ placeholder.toList.tail := by decide
  have hskip : ∀ cs, replaceAllFrom placeholder.toList (escapedCmd cmd w).toList 0 ('\'' :: cs) =
      '\'' :: replaceAllFrom placeholder.toList (escapedCmd cmd w).toList 0 cs := by
    intro cs
    apply replaceAllFrom_cons
    intro hpre
    cases (List.cons_prefix_cons.mp hpre).1
  have htext : pre ++ quotedPlaceholder ++ post = (pre ++ "'") ++ placeholder ++ ("'" ++ post) := by
    rw [← String.toList_inj]
    simp [quotedPlaceholder, placeholder]
  have hpre : wrapped cmd w (pre ++ "'") = wrapped cmd w pre ++ "'" := by
    rw [← String.toList_inj]
    simp only [wrapped, replaceAll, String.toList_append, String.toList_ofList]
    rw [show "'".toList = ['\''] from rfl, replaceAllFrom_append hpat hquote, hskip]
    rfl
  have hpost : wrapped cmd w ("'" ++ post) = "'" ++ wrapped cmd w post := by
    rw [← String.toList_inj]
    simp only [wrapped, replaceAll, String.toList_append, String.toList_ofList]
    exact hskip post.toList
  rw [htext, wrapped_split, hpre, hpost]
  simp only [String.append_assoc]

end Parts

section Escaping

variable {cmd w : String}

lemma replaceAll_quotes (cmd : List Char) :
    replaceAllFrom "'".toList "'\\''".toList 0 cmd = escapeQuotes cmd := by
  induction cmd with
  | nil => rfl
  | cons c cmd ih =>
      by_cases hc : c = '\''
      · rw [hc]
        exact congrArg (['\'', '\\', '\'', '\''] ++ ·) ih
      · have hpre : ¬ "'".toList <+: c :: cmd :=
          fun h => hc (List.cons_prefix_cons.mp h).1.symm
        rw [replaceAllFrom_cons hpre, ih, escapeQuotes, escapeQuotes, List.flatMap_cons,
          if_neg hc, List.singleton_append]

lemma escapedCmd_escaped (h : contains w quotedPlaceholder = true) :
    (escapedCmd cmd w).toList = escapeQuotes cmd.toList := by
  rw [escapedCmd, if_pos h, replaceAll, String.toList_ofList, replaceAll_quotes]

lemma escapedCmd_eq_iff : escapedCmd cmd w = cmd ↔
    '\'' ∉ cmd.toList ∨ contains w quotedPlaceholder = false := by
  cases h : contains w quotedPlaceholder with
  | false => simp [escapedCmd, h]
  | true =>
      rw [← String.toList_inj, escapedCmd_escaped h]
      constructor
      · intro heq
        have hlen := congrArg List.length heq
        rw [length_escapeQuotes] at hlen
        exact .inl (List.count_eq_zero.mp (by omega))
      · intro hfree
        exact escapeQuotes_of_free (hfree.resolve_right Bool.true_eq_false_eq_False)

end Escaping

section Wrapping

/-- A placeholder that the shell reads outside all quotes. -/
def HasUnquoted (sh : Shell) (w : String) : Prop :=
  ∃ pre post, w = pre ++ placeholder ++ post ∧ sh.unquoted (sh.after sh.start pre.toList) = true

/-- The shell reads the command, and nothing else, at every placeholder that is a word's quoted part;
at one outside quotes the command stands as it is. -/
structure QuotedExactly (sh : Shell) (cmd w : String) : Prop where
  quoted : ∀ pre post, w = pre ++ quotedPlaceholder ++ post →
    sh.unquoted (sh.after sh.start pre.toList) = true →
    ∃ inserted : String,
      applyCommandWrapper cmd (some w) =
        wrapped cmd w pre ++ "'" ++ inserted ++ "'" ++ wrapped cmd w post ∧
      ∀ s, sh.unquoted s = true →
        sh.after s (singleQuoted inserted.toList) = sh.inWord s ∧
          sh.read s (singleQuoted inserted.toList) = cmd.toList.map Token.literal
  sole : ∀ pre post, w = pre ++ quotedPlaceholder ++ post →
    sh.unquoted (sh.after sh.start pre.toList) = true →
    contains pre placeholder = false → contains post placeholder = false →
    sh.read sh.start (applyCommandWrapper cmd (some w)).toList =
      sh.read sh.start pre.toList ++ cmd.toList.map Token.literal ++
        sh.read (sh.inWord (sh.after sh.start pre.toList)) post.toList
  unquoted : ∀ pre post, w = pre ++ placeholder ++ post →
    sh.unquoted (sh.after sh.start pre.toList) = true →
    applyCommandWrapper cmd (some w) = wrapped cmd w pre ++ cmd ++ wrapped cmd w post

variable {sh : Shell} {cmd w pre post : String}

lemma contains_quoted (hw : w = pre ++ quotedPlaceholder ++ post) :
    contains w quotedPlaceholder = true := by
  rw [contains, decide_eq_true_eq, hw, String.toList_append, String.toList_append]
  exact ⟨pre.toList, post.toList, rfl⟩

lemma quoted_inserted (hw : w = pre ++ quotedPlaceholder ++ post) {s : sh.State}
    (hs : sh.unquoted s = true) :
    sh.after s (singleQuoted (escapedCmd cmd w).toList) = sh.inWord s ∧
      sh.read s (singleQuoted (escapedCmd cmd w).toList) = cmd.toList.map Token.literal := by
  rw [escapedCmd_escaped (contains_quoted hw)]
  exact singleQuoted_read sh hs cmd.toList

lemma quoted_sole (hw : w = pre ++ quotedPlaceholder ++ post)
    (hs : sh.unquoted (sh.after sh.start pre.toList) = true)
    (hpre : contains pre placeholder = false) (hpost : contains post placeholder = false) :
    sh.read sh.start (applyCommandWrapper cmd (some w)).toList =
      sh.read sh.start pre.toList ++ cmd.toList.map Token.literal ++
        sh.read (sh.inWord (sh.after sh.start pre.toList)) post.toList := by
  have hresult : (applyCommandWrapper cmd (some w)).toList =
      pre.toList ++ (singleQuoted (escapedCmd cmd w).toList ++ post.toList) := by
    rw [applyCommandWrapper_eq]
    conv_lhs => rw [hw, wrapped_quoted, wrapped_free hpre, wrapped_free hpost, ← hw]
    simp [singleQuoted]
  have hinserted : sh.after _ (singleQuoted (escapedCmd cmd w).toList) = _ ∧ _ :=
    quoted_inserted hw hs
  obtain ⟨hafter, hread⟩ := hinserted
  rw [hresult, Shell.read_append, Shell.read_append, hafter, hread, List.append_assoc]

/-- Both kinds of placeholder get the same text, so a quote in the command is read wrongly at one of
them. -/
theorem wrapped_exactly_iff (sh : Shell) (cmd w : String) :
    QuotedExactly sh cmd w ↔
      '\'' ∉ cmd.toList ∨ contains w quotedPlaceholder = false ∨ ¬ HasUnquoted sh w := by
  constructor
  · intro h
    by_contra hnot
    obtain ⟨hquote, hnot⟩ := not_or.mp hnot
    obtain ⟨hcontains, hhas⟩ := not_or.mp hnot
    obtain ⟨pre, post, hw, hs⟩ := not_not.mp hhas
    have hexact := h.unquoted pre post hw hs
    have hresult : applyCommandWrapper cmd (some w) =
        wrapped cmd w pre ++ escapedCmd cmd w ++ wrapped cmd w post := by
      rw [applyCommandWrapper_eq]
      conv_lhs => rw [hw, wrapped_split, ← hw]
    have hsame : escapedCmd cmd w = cmd := by
      have htext := hresult.symm.trans hexact
      rw [← String.toList_inj] at htext ⊢
      simpa using htext
    rcases escapedCmd_eq_iff.mp hsame with hfree | habsent
    · exact hquote hfree
    · exact hcontains habsent
  · intro h
    constructor
    · intro pre post hw _
      refine ⟨escapedCmd cmd w, ?_, fun s hs => quoted_inserted hw hs⟩
      rw [applyCommandWrapper_eq]
      conv_lhs => rw [hw, wrapped_quoted, ← hw]
    · intro pre post hw hs hpre hpost
      exact quoted_sole hw hs hpre hpost
    · intro pre post hw hs
      have hsame : escapedCmd cmd w = cmd := by
        rw [escapedCmd_eq_iff]
        rcases h with hfree | habsent | hnone
        · exact .inl hfree
        · exact .inr habsent
        · exact (hnone ⟨pre, post, hw, hs⟩).elim
      rw [applyCommandWrapper_eq]
      conv_lhs => rw [hw, wrapped_split, ← hw, hsame]

/-- `echo {cmd}; sh -c '{cmd}'` with the command `echo 'hi'`. -/
theorem unquoted_escaped : ¬ QuotedExactly posix "echo 'hi'"
    "echo \x7bcmd\x7d; sh -c '\x7bcmd\x7d'" := by
  intro h
  have hexact := h.unquoted "echo " "; sh -c '\x7bcmd\x7d'" (by decide) (by decide)
  revert hexact
  decide

end Wrapping

end Loker.CommandWrapper
