import Loker.UnifiedDiff
import Loker.DiffApplier

/-! When applying a parsed diff turns its old text into its new one. -/

namespace Loker.DiffSemantics

open FileTree SymbolicLinks Programs TextOps TextLines TextSearch EditFiles EditParser FileHeaders
  UnifiedDiff
  DiffApplier

section Place

/-- The text before each hunk, the text before the first gap given. -/
def places (before : List Char) : List (List Char) → List (List Char) → List (List Char)
  | gap :: gaps, old :: olds => (before ++ gap) :: places (before ++ gap ++ old) gaps olds
  | _, _ => []

/-- What of each hunk's old lines the edit looks for: all of them, for the last hunk less the
line ends at its end. -/
def pieces : List Hunk → List (List Char)
  | [] => []
  | [h] => [trimNewlines (readSide .added [h])]
  | h :: h' :: hs => readSide .added [h] :: pieces (h' :: hs)

/-- The old lines of every hunk occur in the text nowhere but at the hunk's place. -/
def UniqueContext (d : Diff) (gaps : List (List Char)) (f : String) : Prop :=
  ∀ place ∈ (places [] gaps (d.hunks.map Hunk.old)).zip (pieces (readHunks d.hunks)),
    OnlyAfter place.2 place.1 f.toList

variable {tail before l r s : List Char} {gaps olds ps : List (List Char)} {hs : List Hunk}

lemma places_length (hlen : gaps.length = olds.length) :
    (places before gaps olds).length = olds.length := by
  induction gaps generalizing before olds with
  | nil =>
      obtain rfl : olds = [] := List.length_eq_zero_iff.mp hlen.symm
      rfl
  | cons gap gaps ih =>
      obtain ⟨old, olds, rfl⟩ := List.exists_cons_of_length_pos (l := olds) (by simp at hlen; omega)
      rw [places, List.length_cons, List.length_cons, ih (by simpa using hlen)]

/-- An occurrence of all pieces together is at the hunks' own places, with no gap between. -/
lemma own_place (hlen : gaps.length = olds.length) (hps : ps.length = olds.length)
    (hshort : ∀ x ∈ (ps.zip olds).dropLast, x.1.length ≤ x.2.length)
    (hunique : ∀ place ∈ (places before gaps olds).zip ps, OnlyAfter place.2 place.1 s)
    (hs : s = l ++ ps.flatten ++ r) (hne : gaps ≠ []) :
    (∃ gap, gaps.head? = some gap ∧ l = before ++ gap) ∧ ∀ gap ∈ gaps.tail, gap = [] := by
  induction gaps generalizing before olds ps l with
  | nil => exact absurd rfl hne
  | cons gap gaps ih =>
      obtain ⟨old, olds, rfl⟩ := List.exists_cons_of_length_pos (l := olds) (by simp at hlen; omega)
      obtain ⟨p, ps, rfl⟩ := List.exists_cons_of_length_pos (l := ps) (by simp at hps; omega)
      have hfirst : l = before ++ gap := by
        apply hunique (before ++ gap, p) (by simp [places]) l (ps.flatten ++ r)
        rw [hs]
        simp
      refine ⟨⟨gap, rfl, hfirst⟩, ?_⟩
      rcases eq_or_ne gaps [] with rfl | hgaps
      · simp
      · have hzip : ps.zip olds ≠ [] := by
          have hpos := List.length_pos_iff.mpr hgaps
          simp only [List.length_cons, Nat.add_right_cancel_iff] at hlen hps
          apply List.ne_nil_of_length_pos
          rw [List.length_zip]
          omega
        rw [List.zip_cons_cons, List.dropLast_cons_of_ne_nil hzip] at hshort
        have hnext : (∃ g, gaps.head? = some g ∧ l ++ p = before ++ gap ++ old ++ g) ∧
            ∀ g ∈ gaps.tail, g = [] := ih
          (by simpa using hlen) (by simpa using hps)
          (fun x hx => hshort x (List.mem_cons_of_mem _ hx))
          (fun place hplace => hunique place (by
            rw [places, List.zip_cons_cons]
            exact List.mem_cons_of_mem _ hplace)) (by rw [hs]; simp) hgaps
        obtain ⟨⟨gap', hgap', hl⟩, hrest⟩ := hnext
        obtain ⟨rest, rfl⟩ : ∃ rest, gaps = gap' :: rest := by
          cases gaps with
          | nil => simp at hgap'
          | cons g gs => exact ⟨gs, by rw [Option.some.inj hgap']⟩
        have hp : p = old ++ gap' := by
          rw [hfirst] at hl
          simpa using hl
        have hle : p.length ≤ old.length := hshort (p, old) List.mem_cons_self
        have hnil : gap' = [] := by
          rw [hp, List.length_append] at hle
          exact List.length_eq_zero_iff.mp (by omega)
        intro g hg
        rcases List.mem_cons.mp hg with rfl | hg
        · exact hnil
        · exact hrest g hg

/-- The text of the searched lines is what the pieces make together, unless one is empty. -/
lemma pieces_flatten (hne : [] ∉ pieces hs) :
    (pieces hs).flatten = trimNewlines (readSide .added hs) := by
  induction hs using pieces.induct with
  | case1 => rfl
  | case2 h => simp [pieces]
  | case3 h h' hs ih =>
      rw [pieces, List.mem_cons, not_or] at hne
      have ih := ih hne.2
      have hrest : trimNewlines (readSide .added (h' :: hs)) ≠ [] := by
        intro hnil
        rw [hnil] at ih
        cases hp : pieces (h' :: hs) with
        | nil =>
            cases hs <;> simp [pieces] at hp
        | cons p ps =>
            rw [hp] at ih hne
            simp only [List.flatten_cons, List.append_eq_nil_iff] at ih
            exact hne.2 (by simp [ih.1])
      have hkept : ∃ c ∈ readSide .added (h' :: hs), decide (c = '\n') = false := by
        by_contra hall
        push Not at hall
        exact hrest (List.rdropWhile_eq_nil_iff.mpr (by simpa using hall))
      have happend : readSide .added (h :: h' :: hs) =
          readSide .added [h] ++ readSide .added (h' :: hs) := by simp [readSide]
      rw [pieces, List.flatten_cons, ih, happend]
      exact (rdropWhile_append hkept).symm

end Place

section Lengths

variable {absent : LineKind} {ls : List HunkLine} {hs : List Hunk}

lemma side_append (absent : LineKind) (ls ms : List HunkLine) :
    side absent (ls ++ ms) = side absent ls ++ side absent ms := by
  induction ls with
  | nil => rfl
  | cons l ls ih =>
      rw [List.cons_append, side_cons, side_cons absent ls, ih, List.append_assoc]

lemma side_read_length (absent : LineKind) (hended : ∀ l ∈ ls, l.ended = true) :
    (side absent ((ls.map HunkLine.read).map HunkLine.close)).length ≤ (side absent ls).length := by
  induction ls with
  | nil => simp [side]
  | cons l ls ih =>
      have hl := hended l List.mem_cons_self
      have ih := ih fun m hm => hended m (List.mem_cons_of_mem _ hm)
      have hcr : (dropCRs l.text).length ≤ l.text.length :=
        ((dropCR_sublist _).trans (dropCR_sublist _)).length_le
      by_cases hkind : l.kind = absent
      · simpa [side, HunkLine.read, HunkLine.close, hkind] using ih
      · simp [side, HunkLine.read, HunkLine.close, hkind, hl] at ih ⊢
        omega

lemma side_trimLines_length (absent : LineKind) (ls : List HunkLine) :
    (side absent (trimLines ls)).length ≤ (side absent ls).length := by
  by_cases hsome : ∃ l ∈ ls, l.blank = false
  · obtain ⟨before, l, blanks, rfl, _, _, htrim⟩ := trimLines_split hsome
    have hl : (side absent [l.trimEnd]).length ≤ (side absent [l]).length := by
      have htext : (trimEndChars l.text).length ≤ l.text.length :=
        (List.rdropWhile_prefix _ _).length_le
      by_cases hended : l.ended = true
      · by_cases hkind : l.kind = absent <;> simp [side, HunkLine.trimEnd, hended, hkind, htext]
      · simp [HunkLine.trimEnd, hended]
    rw [htrim, side_append, side_append, side_cons absent blanks]
    simp only [List.length_append]
    omega
  · have hall : ∀ l ∈ ls, l.blank = true := by simpa using hsome
    simp [trimLines_nil hall, side]

lemma trimLines_ended (hended : ∀ l ∈ ls, l.ended = true) : ∀ l ∈ trimLines ls, l.ended = true := by
  by_cases hsome : ∃ l ∈ ls, l.blank = false
  · obtain ⟨before, l, blanks, rfl, _, _, htrim⟩ := trimLines_split hsome
    have hl : l.ended = true := hended l (by simp)
    intro m hm
    rw [htrim] at hm
    rcases List.mem_append.mp hm with hm | hm
    · exact hended m (by simp [hm])
    · rw [List.mem_singleton.mp hm]
      simp [HunkLine.trimEnd, hl]
  · have hall : ∀ l ∈ ls, l.blank = true := by simpa using hsome
    simp [trimLines_nil hall]

/-- Lines with line ends are read as no more than they are. -/
lemma readSide_length (absent : LineKind) (hended : ∀ h ∈ hs, ∀ l ∈ h.lines, l.ended = true) :
    (readSide absent (readHunks hs)).length ≤ (hs.flatMap fun h => side absent h.lines).length := by
  induction hs using readHunks.induct with
  | case1 => simp [readHunks, readSide]
  | case2 h =>
      have hh := hended h List.mem_cons_self
      have hread := side_read_length absent (trimLines_ended hh)
      have htrim := side_trimLines_length absent h.lines
      simp only [readHunks, readSide, Hunk.read, List.flatMap_cons, List.flatMap_nil,
        List.append_nil]
      omega
  | case3 h h' hs ih =>
      have hread := side_read_length absent (hended h List.mem_cons_self)
      have ih := ih fun k hk => hended k (List.mem_cons_of_mem _ hk)
      have hcons : readSide absent (readHunks (h :: h' :: hs)) =
          side absent ((h.lines.map HunkLine.read).map HunkLine.close) ++
            readSide absent (readHunks (h' :: hs)) := by
        simp [readHunks, readSide, Hunk.read]
      rw [hcons, List.flatMap_cons, List.length_append, List.length_append]
      omega

lemma pieces_cons (h h' : Hunk) (hs : List Hunk) : pieces (readHunks (h :: h' :: hs)) =
    readSide .added [h.read] :: pieces (readHunks (h' :: hs)) := by
  have hcons : readHunks (h :: h' :: hs) = h.read :: readHunks (h' :: hs) := rfl
  cases hrest : readHunks (h' :: hs) with
  | nil => cases hs <;> simp [readHunks] at hrest
  | cons k ks => rw [hcons, hrest, pieces]

lemma pieces_length (hs : List Hunk) : (pieces (readHunks hs)).length = hs.length := by
  induction hs using readHunks.induct with
  | case1 => rfl
  | case2 h => rfl
  | case3 h h' hs ih =>
      rw [pieces_cons, List.length_cons, ih]
      rfl

/-- Every piece but the last is no longer than the old lines it is read from. -/
lemma pieces_short (hended : ∀ h ∈ hs.dropLast, ∀ l ∈ h.lines, l.ended = true) :
    ∀ x ∈ ((pieces (readHunks hs)).zip (hs.map Hunk.old)).dropLast, x.1.length ≤ x.2.length := by
  induction hs using readHunks.induct with
  | case1 => simp [readHunks, pieces]
  | case2 h => simp [readHunks, pieces]
  | case3 h h' hs ih =>
      have hzip : (pieces (readHunks (h' :: hs))).zip ((h' :: hs).map Hunk.old) ≠ [] := by
        apply List.ne_nil_of_length_pos
        rw [List.length_zip, pieces_length, List.length_map, List.length_cons]
        omega
      have hearlier : (h :: h' :: hs).dropLast = h :: (h' :: hs).dropLast := rfl
      rw [hearlier] at hended
      have ih := ih fun k hk => hended k (List.mem_cons_of_mem _ hk)
      have hfirst := side_read_length .added (hended h List.mem_cons_self)
      rw [pieces_cons, List.map_cons, List.zip_cons_cons, List.dropLast_cons_of_ne_nil hzip]
      intro x hx
      rcases List.mem_cons.mp hx with rfl | hx
      · simpa [readSide, Hunk.read, Hunk.old] using hfirst
      · exact ih x hx

end Lengths

section Texts

variable {d : Diff} {gaps : List (List Char)} {tail : List Char} {f g : String}

/-- The hunks follow one another with no unchanged text between. -/
def Contiguous (gaps : List (List Char)) : Prop := ∀ gap ∈ gaps.tail, gap = []

def Diff.oldText (d : Diff) : List Char := d.hunks.flatMap Hunk.old

def Diff.newText (d : Diff) : List Char := d.hunks.flatMap Hunk.new

/-- What the old lines have after the text searched for, the new lines have after the text put
in its place. -/
def SameEnd (d : Diff) : Prop :=
  ∀ s, Diff.oldText d = d.searched ++ s → Diff.newText d = d.replacement ++ s

lemma weave_contiguous {olds : List (List Char)} (hlen : gaps.length = olds.length)
    (hgaps : Contiguous gaps) : weave tail gaps olds = gaps.head?.getD [] ++ olds.flatten ++ tail := by
  have hrest : ∀ gaps olds : List (List Char), gaps.length = olds.length →
      (∀ gap ∈ gaps, gap = []) → weave tail gaps olds = olds.flatten ++ tail := by
    intro gaps olds hlen hall
    induction gaps generalizing olds with
    | nil =>
        obtain rfl : olds = [] := List.length_eq_zero_iff.mp hlen.symm
        rfl
    | cons gap gaps ih =>
        obtain ⟨old, olds, rfl⟩ := List.exists_cons_of_length_pos (l := olds) (by simp at hlen; omega)
        have ih := ih olds (by simpa using hlen)
          fun k hk => hall k (List.mem_cons_of_mem _ hk)
        rw [weave, hall gap List.mem_cons_self, ih]
        simp
  cases gaps with
  | nil =>
      obtain rfl : olds = [] := List.length_eq_zero_iff.mp hlen.symm
      rfl
  | cons gap gaps =>
      obtain ⟨old, olds, rfl⟩ := List.exists_cons_of_length_pos (l := olds) (by simp at hlen; omega)
      have hrest := hrest gaps olds (by simpa using hlen) hgaps
      rw [weave, hrest]
      simp

/-- The searched text is found nowhere but at the hunks' place, and only if they are
contiguous. -/
lemma Turns.own_place (h : Turns d gaps tail f g) (hu : UniqueContext d gaps f)
    (hne : d.searched ≠ []) {l r : List Char} (hf : f.toList = l ++ d.searched ++ r) :
    l = gaps.head?.getD [] ∧ Contiguous gaps := by
  have hlen : gaps.length = (d.hunks.map Hunk.old).length := by
    rw [List.length_map]
    exact h.gaps_length
  have hps : (pieces (readHunks d.hunks)).length = (d.hunks.map Hunk.old).length := by
    rw [pieces_length, List.length_map]
  have hgaps : gaps ≠ [] := by
    have hpos := List.length_pos_iff.mpr h.hunks_ne
    apply List.ne_nil_of_length_pos
    rw [h.gaps_length]
    exact hpos
  have hfull : [] ∉ pieces (readHunks d.hunks) := by
    intro hmem
    have hlens : (pieces (readHunks d.hunks)).length ≤
        (places [] gaps (d.hunks.map Hunk.old)).length := by
      rw [places_length hlen, hps]
    rw [← List.map_snd_zip hlens] at hmem
    obtain ⟨place, hplace, hnil⟩ := List.mem_map.mp hmem
    have honly := hu place hplace
    rw [hnil] at honly
    have hfront := honly [] f.toList (by simp)
    have hback := honly f.toList [] (by simp)
    have hempty : f.toList = [] := by rw [hback, ← hfront]
    rw [hempty] at hf
    simp [hne] at hf
  have hflat : (pieces (readHunks d.hunks)).flatten = d.searched := pieces_flatten hfull
  have hplace := DiffSemantics.own_place hlen hps (pieces_short h.earlier_ended) hu
    (by rw [hflat]; exact hf) hgaps
  obtain ⟨⟨gap, hgap, hl⟩, hrest⟩ := hplace
  exact ⟨by rw [hgap, hl]; rfl, hrest⟩

lemma Turns.old_contiguous (h : Turns d gaps tail f g) (hgaps : Contiguous gaps) :
    f.toList = gaps.head?.getD [] ++ Diff.oldText d ++ tail := by
  rw [h.old_text, weave_contiguous (by rw [List.length_map]; exact h.gaps_length) hgaps]
  rfl

lemma Turns.new_contiguous (h : Turns d gaps tail f g) (hgaps : Contiguous gaps) :
    g.toList = gaps.head?.getD [] ++ Diff.newText d ++ tail := by
  rw [h.new_text, weave_contiguous (by rw [List.length_map]; exact h.gaps_length) hgaps]
  rfl

lemma Turns.searched_length (h : Turns d gaps tail f g) :
    d.searched.length ≤ (Diff.oldText d).length ∨ tail = [] := by
  by_cases hended : ∃ k ∈ d.hunks, ∃ l ∈ k.lines, l.ended = false
  · exact Or.inr (h.unended_last hended)
  · left
    have hall : ∀ k ∈ d.hunks, ∀ l ∈ k.lines, l.ended = true := by simpa using hended
    have hread := readSide_length .added hall
    have htrim : d.searched.length ≤ (readSide .added (readHunks d.hunks)).length :=
      (List.rdropWhile_prefix _ _).length_le
    exact htrim.trans hread

/-- What the edit makes of the text, where it applies. -/
def Diff.applied (d : Diff) (f : String) : Option String :=
  if d.searched ≠ [] ∧ matchCount f (String.ofList d.searched) = 1 then
    some (replaceFirst f (String.ofList d.searched) (String.ofList d.replacement))
  else none

lemma Diff.applied_at {p r : List Char} (hne : d.searched ≠ [])
    (honly : OnlyAfter d.searched p f.toList) (hf : f.toList = p ++ d.searched ++ r) :
    Diff.applied d f = some (String.ofList (p ++ d.replacement ++ r)) := by
  rw [hf] at honly
  have hcount : matchCount f (String.ofList d.searched) = 1 := by
    rw [matchCount, String.toList_ofList, hf]
    exact countFrom_eq_one hne honly
  have hreplace : replaceFirst f (String.ofList d.searched) (String.ofList d.replacement) =
      String.ofList (p ++ d.replacement ++ r) := by
    rw [replaceFirst, String.toList_ofList, String.toList_ofList, hf, replaceFrom_eq hne honly]
  rw [Diff.applied, if_pos ⟨hne, hcount⟩, hreplace]

/-- Where the edit applies, it applies at the hunks' place. -/
lemma Turns.applied_some (h : Turns d gaps tail f g) (hu : UniqueContext d gaps f) {t : String}
    (ht : Diff.applied d f = some t) : d.searched ≠ [] ∧ Contiguous gaps ∧
      ∃ r, f.toList = gaps.head?.getD [] ++ d.searched ++ r ∧
        t.toList = gaps.head?.getD [] ++ d.replacement ++ r := by
  have hcond : d.searched ≠ [] ∧ matchCount f (String.ofList d.searched) = 1 := by
    by_contra hno
    rw [Diff.applied, if_neg hno] at ht
    cases ht
  obtain ⟨hne, hcount⟩ := hcond
  have hinfix : d.searched <:+: f.toList := by
    by_contra hno
    rw [matchCount, String.toList_ofList, countFrom_of_not_infix hno] at hcount
    cases hcount
  obtain ⟨l, r, hf⟩ := hinfix
  obtain ⟨rfl, hgaps⟩ := Turns.own_place h hu hne hf.symm
  have honly : OnlyAfter d.searched (gaps.head?.getD []) f.toList :=
    fun l' r' hf' => (Turns.own_place h hu hne hf').1
  rw [Diff.applied_at hne honly hf.symm] at ht
  obtain rfl := Option.some.inj ht
  exact ⟨hne, hgaps, r, hf.symm, String.toList_ofList⟩

/-- The edit makes the new text or nothing exactly if it finds nothing to replace or the hunks
are contiguous and end alike on both sides. -/
lemma Turns.applied_iff (h : Turns d gaps tail f g) (hu : UniqueContext d gaps f) :
    (∀ t, Diff.applied d f = some t → t = g) ↔
      d.searched = [] ∨ ¬ Contiguous gaps ∨ SameEnd d := by
  constructor
  · intro happlied
    by_contra hno
    push Not at hno
    obtain ⟨hne, hgaps, hsame⟩ := hno
    apply hsame
    intro s hs
    have hf : f.toList = gaps.head?.getD [] ++ d.searched ++ (s ++ tail) := by
      rw [Turns.old_contiguous h hgaps, hs]
      simp
    have honly : OnlyAfter d.searched (gaps.head?.getD []) f.toList :=
      fun l r hl => (Turns.own_place h hu hne hl).1
    have hg := congrArg String.toList (happlied _ (Diff.applied_at hne honly hf))
    rw [String.toList_ofList, Turns.new_contiguous h hgaps] at hg
    have hwhole : gaps.head?.getD [] ++ Diff.newText d ++ tail =
        gaps.head?.getD [] ++ (d.replacement ++ s) ++ tail := by
      rw [← hg]
      simp
    exact List.append_cancel_left (List.append_cancel_right hwhole)
  · intro hcond t ht
    obtain ⟨hne, hgaps, r, hf, ht⟩ := Turns.applied_some h hu ht
    have hsame : SameEnd d := by
      rcases hcond with hnil | hgap | hsame
      · exact absurd hnil hne
      · exact absurd hgaps hgap
      · exact hsame
    have hrest : d.searched ++ r = Diff.oldText d ++ tail := by
      rw [Turns.old_contiguous h hgaps] at hf
      simpa using hf.symm
    obtain ⟨s, hs, hr⟩ : ∃ s, Diff.oldText d = d.searched ++ s ∧ r = s ++ tail := by
      rcases List.append_eq_append_iff.mp hrest with ⟨s, hold, hr⟩ | ⟨s, hsearched, htail⟩
      · exact ⟨s, hold, hr⟩
      · have hlen : s = [] := by
          rcases Turns.searched_length h with hle | hnil
          · rw [hsearched, List.length_append] at hle
            exact List.length_eq_zero_iff.mp (by omega)
          · rw [hnil] at htail
            exact (List.append_eq_nil_iff.mp htail.symm).1
        subst hlen
        exact ⟨[], by simpa using hsearched.symm, by simpa using htail.symm⟩
    rw [← String.toList_inj, ht, Turns.new_contiguous h hgaps, hsame s hs, hr]
    simp

end Texts

section Runs

variable {cwd : String} {env : Surroundings} {t t' : Files} {tr : List (Event EditOps)}
  {e : FileEdit} {done : ApplyResult} {b : FileBackup}

lemma writeEdit_run {path new : String} {original : Option String}
    (run : Runs (perform env) (writeEdit path original new done) t tr (.ok b) t') :
    writeOutcome t path new = some t' := by
  cases run with
  | act first rest =>
      rename_i a s₁ tr₁
      simp only [perform, Attempted] at first
      split at first
      · next u hu =>
        obtain ⟨rfl, rfl⟩ := first
        obtain ⟨_, _, rfl⟩ := runs_ret.mp rest
        exact hu
      · obtain ⟨_, m, rfl⟩ := first
        obtain ⟨_, hres, _⟩ := runs_ret.mp rest
        cases hres

lemma replaceOnce_run {path c : String} {format : EditFormat}
    (run : Runs (perform env) (replaceOnce e path format done c) t tr (.ok b) t') :
    e.old ≠ "" ∧ matchCount c e.old = 1 ∧
      writeOutcome t path (replaceFirst c e.old e.new) = some t' := by
  have hfail : ∀ kind, ¬ Runs (perform env)
      (.ret (.error ⟨kind, done⟩) : Prog EditOps (Except ApplyError FileBackup)) t tr (.ok b) t' := by
    intro kind hrun
    cases (runs_ret.mp hrun).2.1
  unfold replaceOnce at run
  split at run
  · exact absurd run (hfail _)
  · next hold =>
    dsimp only at run
    split at run
    · split at run
      · exact absurd run (hfail _)
      · exact absurd run (hfail _)
    · next hzero =>
      split at run
      · exact absurd run (hfail _)
      · next hmany => exact ⟨hold, by omega, writeEdit_run run⟩

lemma applyFindReplace_run {path : String} {format : EditFormat}
    (run : Runs (perform env) (applyFindReplace e path format done) t tr (.ok b) t') :
    ∃ c, readOutcome t path = .ok c ∧ e.old ≠ "" ∧ matchCount c e.old = 1 ∧
      writeOutcome t path (replaceFirst c e.old e.new) = some t' := by
  cases run with
  | act first rest =>
      obtain ⟨rfl, hread⟩ := first
      split at hread
      · next c hc =>
        subst hread
        exact ⟨c, hc, replaceOnce_run rest⟩
      · next kind _ =>
        obtain ⟨m, rfl⟩ := hread
        cases kind with
        | notFound => cases (runs_ret.mp rest).2.1
        | other => cases (runs_ret.mp rest).2.1

/-- A run that applies one edit of a diff replaced the one match of its old text. -/
lemma apply_run {applied : ApplyResult}
    (run : Runs (perform env) (apply ⟨[e], .unifiedDiff⟩ cwd) t tr (.ok applied) t') :
    e.file ≠ "" ∧ escapes cwd e.file = false ∧
      ∃ c, readOutcome t (joinPath cwd e.file) = .ok c ∧ e.old ≠ "" ∧ matchCount c e.old = 1 ∧
        writeOutcome t (joinPath cwd e.file) (replaceFirst c e.old e.new) = some t' := by
  obtain ⟨r, tr₁, tr₂, t₁, hedit, hrest, _⟩ := runs_bind run
  cases r with
  | error e =>
      obtain ⟨_, hres, _⟩ := runs_ret.mp hrest
      cases hres
  | ok b =>
      obtain ⟨_, _, rfl⟩ := runs_ret.mp hrest
      unfold applyEdit at hedit
      split at hedit
      · obtain ⟨_, hres, _⟩ := runs_ret.mp hedit
        cases hres
      · next hfile =>
        split at hedit
        · obtain ⟨_, hres, _⟩ := runs_ret.mp hedit
          cases hres
        · next hescapes => exact ⟨hfile, by simpa using hescapes, applyFindReplace_run hedit⟩

/-- Where one edit of a diff applies, some run applies it. -/
lemma exists_apply_run (env : Surroundings) {c : String} (hfile : e.file ≠ "") (hescapes : escapes cwd e.file = false)
    (hread : readOutcome t (joinPath cwd e.file) = .ok c) (hold : e.old ≠ "")
    (hcount : matchCount c e.old = 1)
    (hwrite : writeOutcome t (joinPath cwd e.file) (replaceFirst c e.old e.new) = some t') :
    ∃ tr applied, Runs (perform env) (apply ⟨[e], .unifiedDiff⟩ cwd) t tr (.ok applied) t' := by
  have hreads : perform env (.readToString (joinPath cwd e.file)) t (.ok c) t := by
    refine ⟨rfl, ?_⟩
    rw [hread]
  have hwrites : perform env (.write (joinPath cwd e.file) (replaceFirst c e.old e.new)) t
      (.ok ()) t' := by
    simp [perform, Attempted, hwrite]
  have hreplace : Runs (perform env)
      (replaceOnce e (joinPath cwd e.file) .unifiedDiff ⟨[], .unifiedDiff⟩ c) t
      [⟨.write (joinPath cwd e.file) (replaceFirst c e.old e.new), .ok ()⟩]
      (.ok ⟨joinPath cwd e.file, some c, replaceFirst c e.old e.new⟩) t' := by
    unfold replaceOnce
    rw [if_neg hold]
    dsimp only
    rw [if_neg (by omega), if_neg (by omega)]
    exact .act hwrites .stop
  have hfind : Runs (perform env)
      (applyFindReplace e (joinPath cwd e.file) .unifiedDiff ⟨[], .unifiedDiff⟩) t
      (⟨.readToString (joinPath cwd e.file), .ok c⟩ ::
        [⟨.write (joinPath cwd e.file) (replaceFirst c e.old e.new), .ok ()⟩])
      (.ok ⟨joinPath cwd e.file, some c, replaceFirst c e.old e.new⟩) t' := .act hreads hreplace
  have hedit : applyEdit cwd .unifiedDiff e ⟨[], .unifiedDiff⟩ =
      applyFindReplace e (joinPath cwd e.file) .unifiedDiff ⟨[], .unifiedDiff⟩ := by
    unfold applyEdit
    rw [if_neg hfile, if_neg (by simp [hescapes])]
  rw [← hedit] at hfind
  exact ⟨_, _, Runs.bind hfind .stop⟩

end Runs

section Soundness

/-- The parser does not take the text: it is too long, it ends in two fences, or a line of a
hunk opens a file that has no second header or no hunk. -/
def Refused (d : Diff) : Prop :=
  d.text.utf8ByteSize > maxInputSize ∨ endsInFences d.content = true ∨
    ¬ EachFile (fun _ after => headsFile after = true) (d.readLines.map String.ofList)

/-- The path names a file below the working directory. -/
structure NamesFile (cwd path : String) : Prop where
  ne_empty : path ≠ ""
  inside : escapes cwd path = false
  plain : namesDirectory (joinPath cwd path) = false

/-- When the code keeps to the diff: it refuses it, or the header names its path, no line of a hunk
opens another file and the edit finds nothing to replace or ends alike on both sides. -/
def Kept (cwd : String) (d : Diff) (gaps : List (List Char)) : Prop :=
  Refused d ∨ d.Named ∧ ¬ d.Dashed ∧
    (¬ NamesFile cwd d.path ∨ d.searched = [] ∨ ¬ Contiguous gaps ∨ SameEnd d)

/-- No line of a hunk that opens a file names the diff's own. -/
def Foreign (d : Diff) : Prop :=
  EachFile (fun line after => ∀ plus ∈ after.head?, headerFile line plus ≠ d.path) d.hunkLines

/-- What the parser makes of the diff's text edits the diff's file only, and applying it where
that file has the old text ends in an error or leaves the new text. -/
def Sound (readWrapper readEdits : String → Option (List FileEdit)) (cwd : String) (d : Diff)
    (f g : String) : Prop :=
  ∀ parsed, EditParser.parse readWrapper readEdits d.text = .ok parsed →
    (∀ e ∈ parsed.edits, e.file = d.path) ∧
    ∀ env t p tr applied t', filePlace t.link (joinPath cwd d.path) = some p →
      contentAt t p = some (.text f) →
      Runs (perform env) (apply parsed cwd) t tr (.ok applied) t' →
      contentAt t' p = some (.text g)

variable {d : Diff} {gaps : List (List Char)} {tail : List Char} {f g : String}
  {readWrapper readEdits : String → Option (List FileEdit)} {cwd : String}

lemma eachFile_append {P : String → List String → Prop} {before ls : List String}
    (hclosed : ∀ line ∈ before, opensFile line = false) :
    EachFile P (before ++ ls) ↔ EachFile P ls := by
  induction before with
  | nil => rfl
  | cons line before ih =>
      rw [List.cons_append, eachFile_cons, ih fun l hl => hclosed l (List.mem_cons_of_mem _ hl),
        hclosed line List.mem_cons_self]
      simp

lemma Turns.noGitHeader (h : Turns d gaps tail f g) :
    NoGitHeader (d.readLines.map String.ofList) := by
  rw [d.readLines_eq, NoGitHeader, eachFile_append h.extended_closed]
  intro before line after hlines _ l hl
  have hnew : startsWith d.newHeader "diff " = false := by
    simp [Diff.newHeader, startsWith, List.isPrefixOf]
  have hmem : l ∈ d.newHeader :: d.hunkLines := by
    cases before with
    | nil =>
        obtain ⟨_, hafter⟩ := List.cons.inj hlines
        rwa [hafter]
    | cons b before =>
        obtain ⟨_, hafter⟩ := List.cons.inj hlines
        rw [hafter]
        simp [hl]
  rcases List.mem_cons.mp hmem with rfl | hmem
  · exact hnew
  · exact render_noGitHeader _ l hmem

/-- A refused diff is a parse error. -/
lemma Turns.parse_refused (readWrapper readEdits : String → Option (List FileEdit)) (h : Turns d gaps tail f g) (hrefused : Refused d) :
    ∃ e, EditParser.parse readWrapper readEdits d.text = .error e := by
  rw [Turns.parse h]
  split
  · exact ⟨_, rfl⟩
  · next hsize =>
    split
    · exact ⟨_, rfl⟩
    · next hfences =>
      have hheads : ¬ EachFile (fun _ after => headsFile after = true)
          (d.readLines.map String.ofList) := by
        rcases hrefused with hlarge | hends | hheads
        · exact absurd hlarge hsize
        · exact absurd hends hfences
        · exact hheads
      rw [← parseFiles_ok_iff (Turns.noGitHeader h) le_rfl] at hheads
      unfold parseUnifiedDiff
      simp only [Turns.lines_content h]
      cases hparse : parseFiles (d.readLines.map String.ofList).length
          (d.readLines.map String.ofList) with
      | error e => exact ⟨e, rfl⟩
      | ok edits => exact absurd ⟨edits, hparse⟩ hheads

lemma Turns.parse_accepted (h : Turns d gaps tail f g) (haccepted : ¬ Refused d) :
    EditParser.parse readWrapper readEdits d.text = parseUnifiedDiff d.content := by
  unfold Refused at haccepted
  push Not at haccepted
  obtain ⟨hsize, hfences, _⟩ := haccepted
  rw [Turns.parse h, if_neg (by omega), if_neg hfences]

/-- A line that opens a file gives the parser of an accepted diff an edit of that file. -/
lemma Turns.opened_edit (readWrapper readEdits : String → Option (List FileEdit))
    (h : Turns d gaps tail f g) (haccepted : ¬ Refused d) {before after : List String}
    {line : String} (hlines : d.readLines.map String.ofList = before ++ line :: after)
    (hopens : opensFile line = true) :
    ∃ parsed, EditParser.parse readWrapper readEdits d.text = .ok parsed ∧
      ∃ e ∈ parsed.edits, ∃ plus ∈ after.head?, e.file = headerFile line plus := by
  have hheads : EachFile (fun _ after => headsFile after = true)
      (d.readLines.map String.ofList) := by
    by_contra hno
    exact haccepted (Or.inr (Or.inr hno))
  obtain ⟨edits, hparse⟩ := (parseFiles_ok_iff (Turns.noGitHeader h) le_rfl).mpr hheads
  have hnames := parseFiles_names (Turns.noGitHeader h) le_rfl hparse
  obtain ⟨e, he, plus, hplus, hfile⟩ := hnames before line after hlines hopens
  refine ⟨⟨edits, .unifiedDiff⟩, ?_, e, he, plus, hplus, hfile⟩
  rw [Turns.parse_accepted h haccepted, parseUnifiedDiff]
  simp only [Turns.lines_content h, hparse]
  rw [if_neg (List.ne_nil_of_mem he)]

/-- A header that does not name the diff's path gives an edit of another one. -/
lemma Turns.unnamed_edit (h : Turns d gaps tail f g) (haccepted : ¬ Refused d) (hname : ¬ d.Named) :
    ∃ parsed, EditParser.parse readWrapper readEdits d.text = .ok parsed ∧
      ∃ e ∈ parsed.edits, e.file ≠ d.path := by
  obtain ⟨parsed, hparse, e, he, plus, hplus, hfile⟩ :=
    Turns.opened_edit readWrapper readEdits h haccepted
      d.readLines_eq d.oldHeader_opens
  obtain rfl : d.newHeader = plus := Option.some.inj hplus
  refine ⟨parsed, hparse, e, he, fun hpath => hname ?_⟩
  rw [← h.readPath_iff, Diff.readPath, ← hfile, hpath]

/-- So does a line of a hunk that opens another file. -/
lemma Turns.dashed_edit (h : Turns d gaps tail f g) (haccepted : ¬ Refused d) (hdashed : d.Dashed)
    (hforeign : Foreign d) :
    ∃ parsed, EditParser.parse readWrapper readEdits d.text = .ok parsed ∧
      ∃ e ∈ parsed.edits, e.file ≠ d.path := by
  obtain ⟨k, hk, l, hl, hopens⟩ := hdashed
  have hmem : String.ofList (l.kind.sign :: l.text) ∈ d.hunkLines := by
    apply List.mem_map_of_mem
    apply List.mem_flatMap.mpr
    refine ⟨k, hk, List.mem_cons_of_mem _ (List.mem_flatMap.mpr ⟨l, hl, ?_⟩)⟩
    exact List.mem_cons_self
  obtain ⟨before, after, hlines⟩ := List.append_of_mem hmem
  have hall : d.readLines.map String.ofList = ((d.extended.map dropCRs).map String.ofList ++
      d.oldHeader :: d.newHeader :: before) ++ String.ofList (l.kind.sign :: l.text) :: after := by
    rw [d.readLines_eq, hlines]
    simp
  have hopens : opensFile (String.ofList (l.kind.sign :: l.text)) = true := by
    rwa [opensFile_line]
  obtain ⟨parsed, hparse, e, he, plus, hplus, hfile⟩ :=
    Turns.opened_edit readWrapper readEdits h haccepted hall hopens
  refine ⟨parsed, hparse, e, he, ?_⟩
  rw [hfile]
  exact hforeign before _ after hlines hopens plus hplus

/-- The one edit of a diff that opens no other file does what `applied` says. -/
lemma Turns.sound_of_kept (h : Turns d gaps tail f g) (hu : UniqueContext d gaps f)
    (hkept : Kept cwd d gaps) : Sound readWrapper readEdits cwd d f g := by
  intro parsed hparse
  rcases hkept with hrefused | ⟨hnamed, hno, hkept⟩
  · obtain ⟨e, he⟩ := Turns.parse_refused readWrapper readEdits h hrefused
    rw [he] at hparse
    cases hparse
  · have haccepted : ¬ Refused d := by
      intro hrefused
      obtain ⟨e, he⟩ := Turns.parse_refused readWrapper readEdits h hrefused
      rw [he] at hparse
      cases hparse
    rw [Turns.parse_accepted h haccepted, h.parseUnifiedDiff_single hno,
      h.readPath_iff.mpr hnamed] at hparse
    obtain rfl := Except.ok.inj hparse
    refine ⟨by simp, ?_⟩
    intro env t p tr applied t' hplace hfile run
    obtain ⟨hpath, hescapes, c, hread, hold, hcount, hwrite⟩ := apply_run run
    obtain ⟨q, hq, _, _, hfiles⟩ := writeOutcome_eq_some hwrite
    obtain rfl : p = q := Option.some.inj (hplace.symm.trans hq)
    have hplain : namesDirectory (joinPath cwd d.path) = false := by
      rw [Bool.eq_false_iff]
      intro hdir
      rw [filePlace_directory hdir] at hplace
      cases hplace
    rw [readOutcome_of_file hplace hfile] at hread
    obtain rfl : f = c := Except.ok.inj hread
    have hne : d.searched ≠ [] := by
      intro hnil
      exact hold (by simp [hnil])
    have happlied : Diff.applied d f = some
        (replaceFirst f (String.ofList d.searched) (String.ofList d.replacement)) :=
      if_pos ⟨hne, hcount⟩
    have hg := (Turns.applied_iff h hu).mpr
      (hkept.resolve_left (not_not.mpr ⟨hpath, hescapes, hplain⟩)) _ happlied
    rw [hfiles, Function.update_self, ← hg]

lemma NamesFile.getLast_components {path : String} (h : NamesFile cwd path) :
    (components (joinPath cwd path)).getLast? = (components path).getLast? ∧
      ".." ∉ components path := by
  obtain ⟨hslash, hup⟩ := escapes_false h.inside
  obtain ⟨front, hfront⟩ : ∃ front, components (joinPath cwd path) = front ++ components path :=
    (joinPath_components hslash).1
  have hne : components path ≠ [] := by simp [components]
  exact ⟨by rw [hfront, List.getLast?_append_of_ne_nil _ hne], hup⟩

/-- In a tree without links the file is where its path says. -/
lemma NamesFile.place {path : String} (h : NamesFile cwd path) :
    filePlace (fun _ => none) (joinPath cwd path) = some (resolve (joinPath cwd path)) := by
  obtain ⟨hlast, hup⟩ := h.getLast_components
  refine filePlace_noLinks h.plain fun hmem => hup ?_
  rw [hlast] at hmem
  exact List.mem_of_getLast? hmem

lemma NamesFile.ne_root {path : String} (h : NamesFile cwd path) :
    resolve (joinPath cwd path) ≠ [] := by
  obtain ⟨hlast, hup⟩ := h.getLast_components
  have hne : components (joinPath cwd path) ≠ [] := by simp [components]
  obtain ⟨front, last, hcomponents⟩ := (List.eq_nil_or_concat' _).resolve_left hne
  have hplain := h.plain
  rw [namesDirectory, hcomponents, List.getLast?_concat] at hplain
  rw [hcomponents, List.getLast?_concat] at hlast
  have hdotdot : last ≠ ".." := fun heq => hup (heq ▸ List.mem_of_getLast? hlast.symm)
  simp only [Option.some.injEq, decide_eq_false_iff_not] at hplain
  rw [resolve, join_root, hcomponents, List.foldl_append, List.foldl_cons, List.foldl_nil, descend,
    if_neg hplain, if_neg hdotdot]
  simp

/-- Where the edit applies, some run leaves what it makes of the text. -/
lemma exists_applied_run (env : Surroundings) (hpath : NamesFile cwd d.path) {text : String}
    (happlied : Diff.applied d f = some text) :
    ∃ t p tr applied t', filePlace t.link (joinPath cwd d.path) = some p ∧
      contentAt t p = some (.text f) ∧
      Runs (perform env) (apply ⟨[⟨d.path, String.ofList d.searched, String.ofList d.replacement⟩],
        .unifiedDiff⟩ cwd) t tr (.ok applied) t' ∧
      contentAt t' p = some (.text text) := by
  obtain ⟨disk, hdisk⟩ := exists_fileAt hpath.ne_root (Content.text f)
  obtain ⟨t, p, hplace, ht⟩ : ∃ t p, filePlace t.link (joinPath cwd d.path) = some p ∧
      contentAt t p = some (.text f) := ⟨⟨disk, fun _ => none⟩, _, hpath.place, hdisk⟩
  have hcond : d.searched ≠ [] ∧ matchCount f (String.ofList d.searched) = 1 := by
    by_contra hno
    rw [Diff.applied, if_neg hno] at happlied
    cases happlied
  rw [Diff.applied, if_pos hcond] at happlied
  obtain rfl := Option.some.inj happlied
  have hread := readOutcome_of_file hplace ht
  obtain ⟨t', hwrite⟩ := writeOutcome_of_read
    (replaceFirst f (String.ofList d.searched) (String.ofList d.replacement)) hread
  have hold : String.ofList d.searched ≠ "" := by
    intro hempty
    exact hcond.1 (by simpa using congrArg String.toList hempty)
  have hrun := exists_apply_run env (e := ⟨d.path, String.ofList d.searched,
    String.ofList d.replacement⟩) hpath.ne_empty hpath.inside hread hold hcond.2 hwrite
  obtain ⟨tr, applied, run⟩ := hrun
  obtain ⟨q, hq, _, _, hcontent⟩ := writeOutcome_eq_some hwrite
  obtain rfl : p = q := Option.some.inj (hplace.symm.trans hq)
  exact ⟨t, p, tr, applied, t', hplace, ht, run, by rw [hcontent, Function.update_self]⟩

lemma Turns.kept_of_sound (h : Turns d gaps tail f g) (hu : UniqueContext d gaps f)
    (hforeign : Foreign d) (hsound : Sound readWrapper readEdits cwd d f g) : Kept cwd d gaps := by
  by_contra hno
  unfold Kept at hno
  push Not at hno
  obtain ⟨haccepted, hno⟩ := hno
  by_cases hnamed : d.Named
  swap
  · obtain ⟨parsed, hparse, e, he, hfile⟩ := Turns.unnamed_edit h haccepted hnamed
    exact hfile ((hsound parsed hparse).1 e he)
  by_cases hdashed : d.Dashed
  · obtain ⟨parsed, hparse, e, he, hfile⟩ := Turns.dashed_edit h haccepted hdashed hforeign
    exact hfile ((hsound parsed hparse).1 e he)
  · obtain ⟨hpath, hne, hgaps, hsame⟩ := hno hnamed hdashed
    have hbad : ¬ ∀ t, Diff.applied d f = some t → t = g := by
      rw [Turns.applied_iff h hu]
      push Not
      exact ⟨hne, hgaps, hsame⟩
    push Not at hbad
    obtain ⟨text, happlied, hother⟩ := hbad
    obtain ⟨t, p, tr, applied, t', hplace, hold, run, hnew⟩ :=
      exists_applied_run ⟨fun _ _ => True, fun _ => True⟩ hpath happlied
    have hparse : EditParser.parse readWrapper readEdits d.text = .ok
        ⟨[⟨d.path, String.ofList d.searched, String.ofList d.replacement⟩], .unifiedDiff⟩ := by
      rw [Turns.parse_accepted h haccepted, h.parseUnifiedDiff_single hdashed,
        h.readPath_iff.mpr hnamed]
    have hg := (hsound _ hparse).2 _ t p tr applied t' hplace hold run
    rw [hnew] at hg
    exact hother (Content.text.inj (Option.some.inj hg))

end Soundness

section Instances

/-- Two lines, the second replaced; the names are those of the headers. -/
def lineDiff (oldName newName : String) : Diff :=
  ⟨[], "f", oldName.toList, newName.toList,
    [⟨"1,2 +1,2 @@".toList, [⟨.context, ['a'], true⟩, ⟨.removed, ['b'], true⟩,
      ⟨.added, ['c'], true⟩]⟩]⟩

lemma lineDiff_turns {oldName newName : String} (hold : '\n' ∉ oldName.toList)
    (hnew : '\n' ∉ newName.toList) (hkeeps : trim newName ≠ "/dev/null") :
    Turns (lineDiff oldName newName) [[]] [] "a\nb\n" "a\nc\n" where
  one_line := by
    have hlines : (lineDiff oldName newName).lines = ("--- ".toList ++ oldName.toList) ::
        ("+++ ".toList ++ newName.toList) :: (lineDiff "" "").hunks.flatMap Hunk.render := rfl
    have hhunks : Plain ((lineDiff "" "").hunks.flatMap Hunk.render) := by
      unfold Plain
      decide
    rw [hlines]
    intro l hl
    rcases List.mem_cons.mp hl with rfl | hl
    · simpa using hold
    rcases List.mem_cons.mp hl with rfl | hl
    · simpa using hnew
    · exact hhunks l hl
  extended_word line hline := by cases hline
  keeps_file := by
    rw [lineDiff, String.ofList_toList]
    exact hkeeps
  hunks_ne := List.cons_ne_nil _ _
  changes := by
    have hhunks : ∀ h ∈ (lineDiff "" "").hunks, ∃ l ∈ h.lines, l.kind ≠ .context := by decide
    exact hhunks
  gaps_length := rfl
  earlier_ended h hh := by cases hh
  unended_last := fun _ => rfl
  old_text := by
    have hold : "a\nb\n".toList = weave [] [[]] ((lineDiff "" "").hunks.map Hunk.old) := by decide
    exact hold
  new_text := by
    have hnew : "a\nc\n".toList = weave [] [[]] ((lineDiff "" "").hunks.map Hunk.new) := by decide
    exact hnew

lemma lineDiff_unique (oldName newName : String) :
    UniqueContext (lineDiff oldName newName) [[]] "a\nb\n" := by
  have hzip : (places [] [[]] ((lineDiff "" "").hunks.map Hunk.old)).zip
      (pieces (readHunks (lineDiff "" "").hunks)) = [([], ['a', '\n', 'b'])] := by decide
  intro place hplace
  have hplace : place ∈ (places [] [[]] ((lineDiff "" "").hunks.map Hunk.old)).zip
      (pieces (readHunks (lineDiff "" "").hunks)) := hplace
  rw [hzip, List.mem_singleton] at hplace
  rw [hplace]
  exact onlyAfter_of_places (by decide)

/-- The blank line at the end of the text removed. -/
def blankDiff : Diff :=
  ⟨[], "f", "a/f".toList, "b/f".toList,
    [⟨"1,2 +1 @@".toList, [⟨.context, ['a'], true⟩, ⟨.removed, [], true⟩]⟩]⟩

lemma blankDiff_turns : Turns blankDiff [[]] [] "a\n\n" "a\n" where
  one_line := by unfold Plain; decide
  extended_word := by decide
  keeps_file := by decide
  hunks_ne := by decide
  changes := by decide
  gaps_length := rfl
  earlier_ended := by decide
  unended_last := by decide
  old_text := by decide
  new_text := by decide

lemma blankDiff_unique : UniqueContext blankDiff [[]] "a\n\n" := by
  have hzip : (places [] [[]] (blankDiff.hunks.map Hunk.old)).zip (pieces (readHunks blankDiff.hunks)) =
      [([], ['a'])] := by decide
  unfold UniqueContext
  rw [hzip, List.forall_mem_singleton]
  exact onlyAfter_of_places (by decide)

/-- Both sides of the diff lose their line ends, so the edit puts `a` in the place of `a`. -/
lemma blankDiff_unsound : ¬ Sound (fun _ => none) (fun _ => none) "" blankDiff "a\n\n" "a\n" := by
  intro hsound
  have hparse : EditParser.parse (fun _ => none) (fun _ => none) blankDiff.text =
      .ok ⟨[⟨"f", "a", "a"⟩], .unifiedDiff⟩ := by decide
  have happlied : Diff.applied blankDiff "a\n\n" = some "a\n\n" := by decide
  have hpath : NamesFile "" blankDiff.path := ⟨by decide, by decide, by decide⟩
  obtain ⟨t, p, tr, applied, t', hplace, hold, run, hnew⟩ :=
    exists_applied_run ⟨fun _ _ => True, fun _ => True⟩ hpath happlied
  have hg := (hsound _ hparse).2 _ t p tr applied t' hplace hold run
  rw [hnew] at hg
  exact absurd hg (by decide)

/-- Headers as `diff -u` writes them, with a time stamp. -/
def stampedDiff : Diff := lineDiff "f\t2026-01-01 10:00:00" "f\t2026-01-02 10:00:00"

end Instances

end Loker.DiffSemantics
