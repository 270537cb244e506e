import Loker.DiffApplier
import Loker.TextSearch

/-! Find and replace in one file: what the search text must be like for an edit to be
unambiguous. -/

namespace Loker.FindReplace

open FileTree SymbolicLinks Programs TextOps TextSearch EditFiles DiffApplier

variable {env : Surroundings} {edit : FileEdit} {filePath content : String} {format : EditFormat}
  {done : ApplyResult} {t t' : Files} {tr : List (Event EditOps)}
  {r : Except ApplyError FileBackup}

/-- The search text is at this position of the content. -/
def FoundAt (old content : String) (i : ℕ) : Prop := OccursAt old.toList i content.toList

def ApplyErrorKind.isNotFound : ApplyErrorKind → Bool
  | .oldTextNotFound _ _ | .multiHunkDiffNotContiguous _ => true
  | _ => false

def ApplyErrorKind.isAmbiguous : ApplyErrorKind → Bool
  | .ambiguousMatch _ _ => true
  | _ => false

/-- An edit that succeeds replaces the only occurrence and nothing else; one that fails finds no
occurrence or more than one and changes nothing. -/
def Unambiguous (edit : FileEdit) (filePath content : String) (t : Files)
    (r : Except ApplyError FileBackup) (t' : Files) : Prop :=
  match r with
  | .ok backup => ∃ before after, content = before ++ edit.old ++ after ∧
      (∀ i, FoundAt edit.old content i ↔ i = before.length) ∧
      backup = ⟨filePath, some content, before ++ edit.new ++ after⟩ ∧
      t'.link = t.link ∧ ∃ p, filePlace t.link filePath = some p ∧
        contentAt t' = Function.update (contentAt t) p
          (some (.text (before ++ edit.new ++ after)))
  | .error e => t' = t ∧
      (ApplyErrorKind.isNotFound e.kind = true ∧ (∀ i, ¬ FoundAt edit.old content i) ∨
        ApplyErrorKind.isAmbiguous e.kind = true ∧
          ∃ i j, i ≠ j ∧ FoundAt edit.old content i ∧ FoundAt edit.old content j)

/-- An occurrence that overlaps the first one is not the last: another one begins after the end
of the first. -/
def Discernible (old content : String) : Prop :=
  ∀ i j, FirstAt old.toList i content.toList → FoundAt old content j → i < j → j < i + old.length →
    ∃ k, FoundAt old content k ∧ i + old.length ≤ k

section Count

lemma matchCount_eq_zero_iff (hold : edit.old ≠ "") :
    matchCount content edit.old = 0 ↔ ∀ i, ¬ FoundAt edit.old content i :=
  countFrom_eq_zero_iff (by simpa using hold)

lemma matchCount_eq_one_iff (hold : edit.old ≠ "") {i : ℕ}
    (h : FirstAt edit.old.toList i content.toList) :
    matchCount content edit.old = 1 ↔ ∀ j, FoundAt edit.old content j → j < i + edit.old.length := by
  rw [← String.length_toList]
  exact countFrom_eq_one_iff (by simpa using hold) h

lemma replaceFirst_firstAt (hold : edit.old ≠ "") {i : ℕ}
    (h : FirstAt edit.old.toList i content.toList) :
    ∃ before after : String, before.length = i ∧ content = before ++ edit.old ++ after ∧
      replaceFirst content edit.old edit.new = before ++ edit.new ++ after := by
  have hlen := h.occurs.length_le (by simpa using hold)
  refine ⟨String.ofList (content.toList.take i),
    String.ofList (content.toList.drop (i + edit.old.toList.length)), ?_, ?_, ?_⟩
  · rw [← String.length_toList, String.toList_ofList, List.length_take]
    omega
  · obtain ⟨rest, hrest⟩ := h.occurs
    rw [← String.toList_inj]
    simp only [String.toList_append, String.toList_ofList, ← List.drop_drop, ← hrest,
      List.drop_left, List.append_assoc]
    rw [hrest, List.take_append_drop]
  · rw [replaceFirst, replaceFrom_firstAt (by simpa using hold) h, ← String.toList_inj]
    simp

end Count

section Runs

/-- Replacing in a file that was read succeeds where the text is matched once. -/
lemma replaceOnce_succeeds (hold : edit.old ≠ "") (hread : readOutcome t filePath = .ok content)
    (hone : matchCount content edit.old = 1)
    (run : Runs (perform env) (replaceOnce edit filePath format done content) t tr r t') :
    r = .ok ⟨filePath, some content, replaceFirst content edit.old edit.new⟩ ∧
      t'.link = t.link ∧ ∃ p, filePlace t.link filePath = some p ∧
        contentAt t' = Function.update (contentAt t) p
          (some (.text (replaceFirst content edit.old edit.new))) := by
  unfold replaceOnce at run
  simp only [hold, hone, if_false, Nat.one_ne_zero, gt_iff_lt, lt_irrefl] at run
  obtain ⟨a, t₁, tr', hstep, hret, _⟩ := runs_call run
  obtain ⟨u, hu⟩ := writeOutcome_of_read (replaceFirst content edit.old edit.new) hread
  simp only [perform, Attempted, hu] at hstep
  obtain ⟨rfl, rfl⟩ := hstep
  obtain ⟨_, rfl, rfl⟩ := runs_ret.mp hret
  obtain ⟨p, hplace, _, hlink, hcontent⟩ := writeOutcome_eq_some hu
  exact ⟨rfl, hlink, p, hplace, hcontent⟩

/-- A text matched otherwise than once is an error that names what was found. -/
lemma replaceOnce_refuses (hold : edit.old ≠ "") (hmany : matchCount content edit.old ≠ 1)
    (run : Runs (perform env) (replaceOnce edit filePath format done content) t tr r t') :
    ∃ e, r = .error e ∧ t' = t ∧
      (ApplyErrorKind.isNotFound e.kind = true ∧ matchCount content edit.old = 0 ∨
        ApplyErrorKind.isAmbiguous e.kind = true ∧ 1 < matchCount content edit.old) := by
  unfold replaceOnce at run
  rw [if_neg hold] at run
  dsimp only at run
  split at run
  · next hzero =>
    split at run
    · obtain ⟨_, rfl, rfl⟩ := runs_ret.mp run
      exact ⟨_, rfl, rfl, Or.inl ⟨rfl, hzero⟩⟩
    · obtain ⟨_, rfl, rfl⟩ := runs_ret.mp run
      exact ⟨_, rfl, rfl, Or.inl ⟨rfl, hzero⟩⟩
  · next hzero =>
    have hgt : 1 < matchCount content edit.old := by omega
    rw [if_pos hgt] at run
    obtain ⟨_, rfl, rfl⟩ := runs_ret.mp run
    exact ⟨_, rfl, rfl, Or.inr ⟨rfl, hgt⟩⟩

lemma applyFindReplace_reads (hread : readOutcome t filePath = .ok content)
    (run : Runs (perform env) (applyFindReplace edit filePath format done) t tr r t') :
    ∃ tr', Runs (perform env) (replaceOnce edit filePath format done content) t tr' r t' := by
  obtain ⟨a, t₁, tr', hstep, hrest, _⟩ := runs_call run
  simp only [perform, hread] at hstep
  obtain ⟨rfl, rfl⟩ := hstep
  exact ⟨tr', hrest⟩

/-- Such a run exists. -/
lemma exists_replacing_run (env : Surroundings) (edit : FileEdit) (format : EditFormat)
    (done : ApplyResult) (hold : edit.old ≠ "") (hread : readOutcome t filePath = .ok content)
    (hone : matchCount content edit.old = 1) :
    ∃ tr b t', Runs (perform env) (applyFindReplace edit filePath format done) t tr (.ok b) t' := by
  obtain ⟨u, hu⟩ := writeOutcome_of_read (replaceFirst content edit.old edit.new) hread
  have hreads : perform env (.readToString filePath) t (.ok content) t := ⟨rfl, by rw [hread]⟩
  have hwrites : perform env (.write filePath (replaceFirst content edit.old edit.new)) t (.ok ()) u := by
    simp [perform, Attempted, hu]
  have hreplace : Runs (perform env) (replaceOnce edit filePath format done content) t
      [⟨.write filePath (replaceFirst content edit.old edit.new), .ok ()⟩]
      (.ok ⟨filePath, some content, replaceFirst content edit.old edit.new⟩) u := by
    unfold replaceOnce
    simp only [hold, hone, if_false, Nat.one_ne_zero, gt_iff_lt, lt_irrefl]
    exact .act hwrites .stop
  exact ⟨_, _, u, .act hreads hreplace⟩

end Runs

section Places

variable {i : ℕ}

lemma exists_first (hold : edit.old ≠ "") (h : matchCount content edit.old ≠ 0) :
    ∃ i, FirstAt edit.old.toList i content.toList := by
  by_contra hnone
  apply h
  rw [matchCount_eq_zero_iff hold]
  intro i hi
  exact hnone (exists_firstAt hi)

/-- Two matches begin at different positions. -/
lemma two_places (hold : edit.old ≠ "") (h : 1 < matchCount content edit.old) :
    ∃ i j, i ≠ j ∧ FoundAt edit.old content i ∧ FoundAt edit.old content j := by
  have hsome : matchCount content edit.old ≠ 0 := by omega
  obtain ⟨i, hi⟩ := exists_first hold hsome
  have hmore : ¬ ∀ j, FoundAt edit.old content j → j < i + edit.old.length := by
    rw [← matchCount_eq_one_iff hold hi]
    omega
  push Not at hmore
  obtain ⟨j, hj, hlate⟩ := hmore
  have hpos : 0 < edit.old.length := by
    rw [← String.length_toList]
    exact List.length_pos_iff.mpr (by simpa using hold)
  exact ⟨i, j, by omega, hi.occurs, hj⟩

/-- What is matched once occurs once, unless its occurrences overlap unseen. -/
lemma only_place (hold : edit.old ≠ "") (hone : matchCount content edit.old = 1)
    (hi : FirstAt edit.old.toList i content.toList) (h : Discernible edit.old content) (j : ℕ) :
    FoundAt edit.old content j ↔ j = i := by
  have hclose := (matchCount_eq_one_iff hold hi).mp hone
  constructor
  · intro hj
    by_contra hne
    have hle : i ≤ j := by
      by_contra hlt
      exact hi.first j (by omega) hj
    obtain ⟨k, hk, hlate⟩ := h i j hi hj (by omega) (hclose j hj)
    have hlt := hclose k hk
    omega
  · rintro rfl
    exact hi.occurs

end Places

/-- Find and replace in a file is unambiguous exactly if no occurrence hides behind the first
one. -/
theorem applyFindReplace_unambiguous_iff (hold : edit.old ≠ "")
    (hread : readOutcome t filePath = .ok content) :
    (∀ tr r t', Runs (perform env) (applyFindReplace edit filePath format done) t tr r t' →
      Unambiguous edit filePath content t r t') ↔ Discernible edit.old content := by
  constructor
  · intro hall i j hi hj hlt hclose
    by_contra hlast
    push Not at hlast
    have hone : matchCount content edit.old = 1 := (matchCount_eq_one_iff hold hi).mpr hlast
    obtain ⟨tr, b, t', run⟩ := exists_replacing_run env edit format done hold hread hone
    obtain ⟨before, after, _, honly, _⟩ := hall tr _ t' run
    have hibefore := (honly i).mp hi.occurs
    have hjbefore := (honly j).mp hj
    omega
  · intro hdisc tr r t' run
    obtain ⟨tr', hreplace⟩ := applyFindReplace_reads hread run
    by_cases hone : matchCount content edit.old = 1
    · obtain ⟨rfl, hfiles⟩ := replaceOnce_succeeds hold hread hone hreplace
      have hsome : matchCount content edit.old ≠ 0 := by omega
      obtain ⟨i, hi⟩ := exists_first hold hsome
      obtain ⟨before, after, rfl, hcontent, hnew⟩ := replaceFirst_firstAt hold hi
      rw [hnew] at hfiles ⊢
      exact ⟨before, after, hcontent, only_place hold hone hi hdisc, rfl, hfiles⟩
    · obtain ⟨e, rfl, rfl, hkind⟩ := replaceOnce_refuses hold hone hreplace
      refine ⟨rfl, ?_⟩
      rcases hkind with ⟨hkind, hzero⟩ | ⟨hkind, hmany⟩
      · exact Or.inl ⟨hkind, (matchCount_eq_zero_iff hold).mp hzero⟩
      · exact Or.inr ⟨hkind, two_places hold hmany⟩

/-- A file with one text below the directory `/w`. -/
def oneFile (content : String) : Files :=
  (eval (handle (fun _ => ⟨true, "", "", some 0, false, false⟩) fun _ => .ok "")
    (apply ⟨[⟨"a.txt", "", content⟩], .fullFile⟩ "/w") Files.empty).2.2

theorem applyFindReplace_unambiguous_iff_disjoint :
    ∃ tr backup t', Runs (perform ⟨fun t t' => t' = t, fun _ => True⟩)
        (applyFindReplace ⟨"a.txt", "aa", "b"⟩ "/w/a.txt" .jsonOldNew ⟨[], .jsonOldNew⟩)
        (oneFile "caa") tr (.ok backup) t' ∧
      Unambiguous ⟨"a.txt", "aa", "b"⟩ "/w/a.txt" "caa" (oneFile "caa") (.ok backup) t' := by
  have hdisc : Discernible "aa" "caa" := by
    intro i j hi hj hlt _
    have hlength := OccursAt.length_le hj (by decide)
    have hzero : i = 0 := by
      have hthree : "caa".toList.length = 3 := rfl
      have htwo : "aa".toList.length = 2 := rfl
      omega
    subst hzero
    exact absurd hi.occurs (by decide : ¬ "aa".toList <+: "caa".toList.drop 0)
  obtain ⟨tr, backup, t', run⟩ := exists_replacing_run
    ⟨fun t t' => t' = t, fun _ => True⟩ ⟨"a.txt", "aa", "b"⟩ .jsonOldNew ⟨[], .jsonOldNew⟩ (by decide)
    (by decide : readOutcome (oneFile "caa") "/w/a.txt" = .ok "caa") (by decide)
  exact ⟨tr, backup, t', run,
    (applyFindReplace_unambiguous_iff (by decide) (by decide)).mpr hdisc _ _ _ run⟩

/-- `aa` stands at two places of `aaa`, and the first of them is replaced. -/
theorem overlapping_replaced :
    FoundAt "aa" "aaa" 0 ∧ FoundAt "aa" "aaa" 1 ∧
      ∃ tr backup t', Runs (perform ⟨fun t t' => t' = t, fun _ => True⟩)
        (applyFindReplace ⟨"a.txt", "aa", "b"⟩ "/w/a.txt" .jsonOldNew ⟨[], .jsonOldNew⟩)
        (oneFile "aaa") tr (.ok backup) t' ∧
        ¬ Unambiguous ⟨"a.txt", "aa", "b"⟩ "/w/a.txt" "aaa" (oneFile "aaa") (.ok backup) t' := by
  have hzero : FoundAt "aa" "aaa" 0 := ⟨['a'], rfl⟩
  have hone : FoundAt "aa" "aaa" 1 := ⟨[], rfl⟩
  obtain ⟨tr, backup, t', run⟩ := exists_replacing_run
    ⟨fun t t' => t' = t, fun _ => True⟩ ⟨"a.txt", "aa", "b"⟩ .jsonOldNew ⟨[], .jsonOldNew⟩ (by decide)
    (by decide : readOutcome (oneFile "aaa") "/w/a.txt" = .ok "aaa") (by decide)
  refine ⟨hzero, hone, tr, backup, t', run, ?_⟩
  rintro ⟨before, after, _, honly, _⟩
  have hfirst := (honly 0).mp hzero
  have hsecond := (honly 1).mp hone
  omega

end Loker.FindReplace
