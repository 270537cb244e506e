import Loker.TextOps

/-! What a shell reads in a text: quoting takes characters for themselves, or leaves them to it. -/

namespace Loker.ShellReading

open TextOps

/-- A character that stands for itself, or one that the shell gives its own meaning. -/
inductive Token where
  | literal (c : Char)
  | active (c : Char)
  deriving DecidableEq, Repr

/-- A shell that reads a text from left to right and quotes as POSIX has it. Nothing is said of what
stands outside quotes: words, substitutions and comments are the shell's own. -/
structure Shell where
  State : Type
  start : State
  step : State → Char → State
  reads : State → Char → List Token
  /-- A quote opens single quotes here, and a backslash quotes the next character. -/
  unquoted : State → Bool
  /-- Between single quotes that were opened here. -/
  quoted : State → State
  /-- After a backslash. -/
  escaped : State → State
  /-- After something that was quoted: a word has begun. -/
  inWord : State → State
  unquoted_inWord : ∀ {s}, unquoted s = true → unquoted (inWord s) = true
  inWord_inWord : ∀ s, inWord (inWord s) = inWord s
  quoted_inWord : ∀ s, quoted (inWord s) = quoted s
  opens : ∀ {s}, unquoted s = true → step s '\'' = quoted s ∧ reads s '\'' = []
  keeps : ∀ s {c}, c ≠ '\'' → step (quoted s) c = quoted s ∧ reads (quoted s) c = [.literal c]
  closes : ∀ s, step (quoted s) '\'' = inWord s ∧ reads (quoted s) '\'' = []
  escapes : ∀ {s}, unquoted s = true → step s '\\' = escaped s ∧ reads s '\\' = []
  takes : ∀ s, step (escaped s) '\'' = inWord s ∧ reads (escaped s) '\'' = [.literal '\'']

namespace Shell

variable (sh : Shell) {s : sh.State} {c : Char}

def after (s : sh.State) (text : List Char) : sh.State := text.foldl sh.step s

/-- What is left of a text once the quotes are removed. -/
def read (s : sh.State) : List Char → List Token
  | [] => []
  | c :: cs => sh.reads s c ++ read (sh.step s c) cs

@[simp] lemma after_nil : sh.after s [] = s := rfl

@[simp] lemma after_cons (cs : List Char) :
    sh.after s (c :: cs) = sh.after (sh.step s c) cs := rfl

lemma after_append (xs ys : List Char) :
    sh.after s (xs ++ ys) = sh.after (sh.after s xs) ys := List.foldl_append

lemma read_append (xs ys : List Char) :
    sh.read s (xs ++ ys) = sh.read s xs ++ sh.read (sh.after s xs) ys := by
  induction xs generalizing s with
  | nil => rfl
  | cons c xs ih => rw [List.cons_append, read, read, ih, List.append_assoc, after_cons]

end Shell

section Quotes

/-- A quote cannot stand between single quotes: they are closed, it is escaped, they open again. -/
def escapeQuotes (cmd : List Char) : List Char :=
  cmd.flatMap (fun c => if c = '\'' then ['\'', '\\', '\'', '\''] else [c])

def singleQuoted (text : List Char) : List Char := '\'' :: (text ++ ['\''])

variable (sh : Shell) {s : sh.State} {c : Char}

lemma after_escaped (hs : sh.unquoted s = true) : sh.after (sh.quoted s) ['\'', '\\', '\'', '\''] =
    sh.quoted s ∧ sh.read (sh.quoted s) ['\'', '\\', '\'', '\''] = [.literal '\''] := by
  have hword := sh.unquoted_inWord hs
  simp only [Shell.after_cons, Shell.after_nil, Shell.read, (sh.closes s).1, (sh.closes s).2,
    (sh.escapes hword).1, (sh.escapes hword).2, (sh.takes (sh.inWord s)).1,
    (sh.takes (sh.inWord s)).2, sh.inWord_inWord, (sh.opens hword).1, (sh.opens hword).2,
    sh.quoted_inWord]
  exact ⟨trivial, rfl⟩

/-- Every character of the text is read as itself, and the quotes are still open behind it. -/
lemma escapeQuotes_read (hs : sh.unquoted s = true) (cmd : List Char) :
    sh.after (sh.quoted s) (escapeQuotes cmd) = sh.quoted s ∧
      sh.read (sh.quoted s) (escapeQuotes cmd) = cmd.map Token.literal := by
  induction cmd with
  | nil => exact ⟨rfl, rfl⟩
  | cons c cmd ih =>
      have hcons : escapeQuotes (c :: cmd) =
          (if c = '\'' then ['\'', '\\', '\'', '\''] else [c]) ++ escapeQuotes cmd :=
        List.flatMap_cons
      have hone : sh.after (sh.quoted s) (if c = '\'' then ['\'', '\\', '\'', '\''] else [c]) =
            sh.quoted s ∧
          sh.read (sh.quoted s) (if c = '\'' then ['\'', '\\', '\'', '\''] else [c]) =
            [.literal c] := by
        by_cases hc : c = '\''
        · rw [if_pos hc, hc]
          exact after_escaped sh hs
        · obtain ⟨hstep, hreads⟩ := sh.keeps s hc
          rw [if_neg hc]
          simp [Shell.read, hstep, hreads]
      rw [hcons, Shell.after_append, Shell.read_append, hone.1, hone.2, ih.1, ih.2]
      exact ⟨rfl, rfl⟩

/-- The quotes are removed, and the shell goes on in the word. -/
lemma singleQuoted_read (hs : sh.unquoted s = true) (cmd : List Char) :
    sh.after s (singleQuoted (escapeQuotes cmd)) = sh.inWord s ∧
      sh.read s (singleQuoted (escapeQuotes cmd)) = cmd.map Token.literal := by
  obtain ⟨hopen, hopened⟩ := sh.opens hs
  obtain ⟨hclose, hclosed⟩ := sh.closes s
  obtain ⟨hafter, hread⟩ := escapeQuotes_read sh hs cmd
  rw [singleQuoted, Shell.after_cons, Shell.after_append, Shell.read, Shell.read_append, hopen,
    hopened, hafter, hread]
  simp [Shell.read, hclose, hclosed]

lemma escapeQuotes_of_free {cmd : List Char} (h : '\'' ∉ cmd) : escapeQuotes cmd = cmd := by
  induction cmd with
  | nil => rfl
  | cons c cmd ih =>
      have hc : ¬ c = '\'' := fun heq => h (heq ▸ List.mem_cons_self)
      have hcmd := ih (fun hmem => h (List.mem_cons_of_mem c hmem))
      unfold escapeQuotes at hcmd ⊢
      rw [List.flatMap_cons, if_neg hc, hcmd, List.singleton_append]

lemma length_escapeQuotes (cmd : List Char) :
    (escapeQuotes cmd).length = cmd.length + 3 * cmd.count '\'' := by
  induction cmd with
  | nil => rfl
  | cons c cmd ih =>
      unfold escapeQuotes at ih ⊢
      rw [List.flatMap_cons, List.length_append, ih, List.length_cons, List.count_cons]
      by_cases hc : c = '\''
      · rw [if_pos hc, if_pos (by simp [hc])]
        simp only [List.length_cons, List.length_nil]
        omega
      · rw [if_neg hc, if_neg (by simp [hc])]
        simp only [List.length_cons, List.length_nil]
        omega

end Quotes

section Posix

/-- The quoting of a text that has no substitutions, comments or here-documents. -/
inductive Quoting where
  | plain
  | single
  | double
  | backslash
  | doubleBackslash
  deriving DecidableEq, Repr

def quotingStep (q : Quoting) (c : Char) : Quoting :=
  match q with
  | .plain =>
      if c = '\'' then .single else if c = '"' then .double else if c = '\\' then .backslash
      else .plain
  | .single => if c = '\'' then .plain else .single
  | .double => if c = '"' then .plain else if c = '\\' then .doubleBackslash else .double
  | .backslash => .plain
  | .doubleBackslash => .double

/-- Between double quotes a backslash quotes only what would have a meaning there. -/
def quotingReads (q : Quoting) (c : Char) : List Token :=
  match q with
  | .plain => if c = '\'' ∨ c = '"' ∨ c = '\\' then [] else [.active c]
  | .single => if c = '\'' then [] else [.literal c]
  | .double =>
      if c = '"' ∨ c = '\\' then [] else if c = '$' ∨ c.toNat = 96 then [.active c]
      else [.literal c]
  | .backslash => if c = '\n' then [] else [.literal c]
  | .doubleBackslash =>
      if c = '\n' then []
      else if c = '$' ∨ c.toNat = 96 ∨ c = '"' ∨ c = '\\' then [.literal c]
      else [.literal '\\', .literal c]

def posix : Shell where
  State := Quoting
  start := .plain
  step := quotingStep
  reads := quotingReads
  unquoted q := q = .plain
  quoted _ := .single
  escaped _ := .backslash
  inWord _ := .plain
  unquoted_inWord _ := rfl
  inWord_inWord _ := rfl
  quoted_inWord _ := rfl
  opens h := by
    obtain rfl := of_decide_eq_true h
    exact ⟨rfl, rfl⟩
  keeps _ _ hc := by simp [quotingStep, quotingReads, hc]
  closes _ := ⟨rfl, rfl⟩
  escapes h := by
    obtain rfl := of_decide_eq_true h
    exact ⟨rfl, rfl⟩
  takes _ := ⟨rfl, rfl⟩

end Posix

end Loker.ShellReading
