import Loker.MatchScan

/-! Words and runs of characters, the pieces that patterns are made of, on a text and on what it
shows. -/

namespace Loker.PatternRuns

open MatchScan

section Pieces

/-- How many characters of a class a text begins with. -/
def run (p : Char → Bool) (s : List Char) : ℕ := (s.takeWhile p).length

/-- The length of the word of a list that a text begins with, where `fold` makes cases equal. -/
def wordAt (fold : Char → Char) (words : List (List Char)) (s : List Char) : Option ℕ :=
  (words.find? fun w => w.isPrefixOf (s.map fold)).map List.length

variable {p : Char → Bool} {fold : Char → Char} {words : List (List Char)} {s : List Char}
  {c : Char} {i n : ℕ}

@[simp] lemma run_nil : run p [] = 0 := rfl

lemma run_cons_of_pos (h : p c = true) : run p (c :: s) = run p s + 1 := by
  rw [run, List.takeWhile_cons_of_pos h, List.length_cons, run]

lemma run_cons_of_neg (h : p c = false) : run p (c :: s) = 0 := by
  rw [run, List.takeWhile_cons_of_neg (by simp [h]), List.length_nil]

lemma run_le : run p s ≤ s.length := (List.takeWhile_prefix p).length_le

lemma lt_of_run_pos (h : 0 < run p (s.drop n)) : n < s.length := by
  have hle := run_le (p := p) (s := s.drop n)
  rw [List.length_drop] at hle
  omega

/-- A run has no other characters. -/
lemma run_all (h : i < run p s) : ∃ c, s[i]? = some c ∧ p c = true := by
  induction s generalizing i with
  | nil => cases h
  | cons c s ih =>
      cases hc : p c with
      | false =>
          rw [run_cons_of_neg hc] at h
          cases h
      | true =>
          rw [run_cons_of_pos hc] at h
          cases i with
          | zero => exact ⟨c, rfl, hc⟩
          | succ i => exact ih (by omega)

/-- A run stops at a character of another class. -/
lemma run_stops (h : s[run p s]? = some c) : p c = false := by
  induction s with
  | nil => cases h
  | cons d s ih =>
      cases hd : p d with
      | false =>
          rw [run_cons_of_neg hd] at h
          cases h
          exact hd
      | true =>
          rw [run_cons_of_pos hd] at h
          exact ih h

/-- A text that begins with `n` characters of a class begins with a run of as many. -/
lemma le_run (hn : n ≤ s.length) (h : ∀ i c, i < n → s[i]? = some c → p c = true) :
    n ≤ run p s := by
  by_contra hlt
  have hat : s[run p s]? = some s[run p s] := List.getElem?_eq_getElem (by omega)
  have hstop := run_stops hat
  rw [h _ _ (by omega) hat] at hstop
  cases hstop

/-- A text that agrees with another on a run's first characters has them in a run. -/
lemma le_run_congr {t : List Char} (hn : n ≤ run p s)
    (hagree : ∀ i < n, t[i]?.any p = s[i]?.any p) : n ≤ run p t := by
  have hin : ∀ i < n, ∃ c, t[i]? = some c ∧ p c = true := by
    intro i hi
    obtain ⟨c, hc, hp⟩ := run_all (Nat.lt_of_lt_of_le hi hn)
    have hany := hagree i hi
    rw [hc, Option.any_some, hp] at hany
    exact (Option.any_eq_true _ _).mp hany
  apply le_run
  · by_contra hlt
    obtain ⟨c, hc, _⟩ := hin t.length (by omega)
    rw [List.getElem?_eq_none le_rfl] at hc
    cases hc
  · intro i c hi hc
    obtain ⟨d, hd, hp⟩ := hin i hi
    rw [hc] at hd
    rwa [Option.some.inj hd]

/-- Runs are equal on texts that agree on the class up to the end of one. -/
lemma run_congr {t : List Char} (h : ∀ i ≤ run p s, t[i]?.any p = s[i]?.any p) :
    run p t = run p s := by
  induction s generalizing t with
  | nil =>
      have hhead := h 0 (Nat.zero_le _)
      cases t with
      | nil => rfl
      | cons d t => exact run_cons_of_neg hhead
  | cons c s ih =>
      have hhead := h 0 (Nat.zero_le _)
      cases hc : p c with
      | false =>
          rw [run_cons_of_neg hc]
          have hfalse : t[0]?.any p = false := hhead.trans hc
          cases t with
          | nil => rfl
          | cons d t => exact run_cons_of_neg hfalse
      | true =>
          have htrue : t[0]?.any p = true := hhead.trans hc
          rw [run_cons_of_pos hc] at h ⊢
          cases t with
          | nil => cases htrue
          | cons d t =>
              rw [run_cons_of_pos htrue, ih fun i hi => h (i + 1) (by omega)]

lemma wordAt_eq_some (h : wordAt fold words s = some n) :
    ∃ w ∈ words, w.length = n ∧ w <+: s.map fold := by
  rw [wordAt, Option.map_eq_some_iff] at h
  obtain ⟨w, hfind, hlength⟩ := h
  have hprefix := List.find?_some hfind
  exact ⟨w, List.mem_of_find?_eq_some hfind, hlength, List.isPrefixOf_iff_prefix.mp hprefix⟩

lemma wordAt_le (h : wordAt fold words s = some n) : n ≤ s.length := by
  obtain ⟨w, _, hlength, hprefix⟩ := wordAt_eq_some h
  have hle := hprefix.length_le
  rwa [hlength, List.length_map] at hle

/-- No word of a list begins another. -/
def PrefixFree (words : List (List Char)) : Bool :=
  words.all fun w => words.all fun w' => !w.isPrefixOf w' || w = w'

lemma wordAt_of_prefix {w : List Char} (hfree : PrefixFree words = true) (hw : w ∈ words)
    (h : w <+: s.map fold) : wordAt fold words s = some w.length := by
  cases hfind : words.find? fun w => w.isPrefixOf (s.map fold) with
  | none =>
      have hno := List.find?_eq_none.mp hfind w hw
      exact absurd (List.isPrefixOf_iff_prefix.mpr h) hno
  | some w' =>
      have hw' := List.mem_of_find?_eq_some hfind
      have hsome := List.find?_some hfind
      have h' : w' <+: s.map fold := List.isPrefixOf_iff_prefix.mp hsome
      have hapart : ∀ {a b}, a ∈ words → b ∈ words → a <+: b → a = b := by
        intro a b ha hb hab
        have hall := List.all_eq_true.mp (List.all_eq_true.mp hfree a ha) b hb
        rw [List.isPrefixOf_iff_prefix.mpr hab] at hall
        simpa using hall
      have heq : w' = w := by
        rcases List.prefix_or_prefix_of_prefix h h' with hab | hba
        · exact (hapart hw hw' hab).symm
        · exact hapart hw' hw hba
      rw [wordAt, hfind, heq]
      rfl

/-- The same word begins texts that agree as far as it goes. -/
lemma wordAt_congr {t : List Char} (hfree : PrefixFree words = true)
    (hagree : ∀ i < n, t[i]? = s[i]?) (h : wordAt fold words s = some n) :
    wordAt fold words t = some n := by
  obtain ⟨w, hw, rfl, hprefix⟩ := wordAt_eq_some h
  apply wordAt_of_prefix hfree hw
  have htake : (t.map fold).take w.length = (s.map fold).take w.length := by
    apply List.ext_getElem?
    intro i
    by_cases hi : i < w.length
    · rw [List.getElem?_take_of_lt hi, List.getElem?_take_of_lt hi, List.getElem?_map,
        List.getElem?_map, hagree i hi]
    · rw [List.getElem?_take_eq_none (by omega), List.getElem?_take_eq_none (by omega)]
  rw [List.prefix_iff_eq_take.mp hprefix, ← htake]
  exact List.take_prefix _ _

/-- The characters of a word, as they are folded. -/
lemma wordAt_char (cls : Char → Bool) (hcls : words.all (fun w => w.all cls) = true)
    (h : wordAt fold words s = some n) (hi : i < n) :
    ∃ c, s[i]? = some c ∧ cls (fold c) = true := by
  obtain ⟨w, hw, rfl, hprefix⟩ := wordAt_eq_some h
  have hat : (s.map fold)[i]? = some w[i] := by
    obtain ⟨rest, hrest⟩ := hprefix
    rw [← hrest, List.getElem?_append_left hi, List.getElem?_eq_getElem hi]
  rw [List.getElem?_map, Option.map_eq_some_iff] at hat
  obtain ⟨c, hc, hfold⟩ := hat
  refine ⟨c, hc, ?_⟩
  rw [hfold]
  exact List.all_eq_true.mp (List.all_eq_true.mp hcls w hw) _ (List.getElem_mem hi)

/-- No word begins strictly inside a word that other characters follow. -/
lemma wordAt_within (cls : Char → Bool) (hcls : words.all (fun w => w.all cls) = true)
    (hinside : words.all (fun w => w.tail.tails.all fun t =>
      words.all fun w' => !w'.isPrefixOf t) = true)
    (h : wordAt fold words s = some n) (hstop : ∀ c, s[n]? = some c → cls (fold c) = false)
    (hpos : 0 < i) (hi : i < n) : wordAt fold words (s.drop i) = none := by
  cases hword : wordAt fold words (s.drop i) with
  | none => rfl
  | some n' =>
      exfalso
      have hend : i + n' ≤ n := by
        by_contra hlt
        obtain ⟨c, hc, hin⟩ := wordAt_char cls hcls hword (i := n - i) (by omega)
        rw [List.getElem?_drop, Nat.add_sub_cancel' hi.le] at hc
        rw [hstop c hc] at hin
        cases hin
      obtain ⟨w, hw, rfl, hprefix⟩ := wordAt_eq_some h
      obtain ⟨w', hw', rfl, hprefix'⟩ := wordAt_eq_some hword
      have hinner : w' <+: w.drop i := by
        have hrest : w.drop i <+: (s.map fold).drop i := hprefix.drop i
        rw [List.map_drop] at hprefix'
        exact List.prefix_of_prefix_length_le hprefix' hrest (by rw [List.length_drop]; omega)
      have htail : w.drop i ∈ w.tail.tails := by
        obtain ⟨i, rfl⟩ := Nat.exists_eq_succ_of_ne_zero hpos.ne'
        rw [List.mem_tails, ← List.drop_one, Nat.succ_eq_one_add, ← List.drop_drop]
        exact List.drop_suffix i _
      have hall := List.all_eq_true.mp (List.all_eq_true.mp
        (List.all_eq_true.mp hinside w hw) _ htail) w' hw'
      rw [List.isPrefixOf_iff_prefix.mpr hinner] at hall
      cases hall

end Pieces

section Places

variable {α : Type} {k : Marking α} {S : List (Place α)} {x : α} {y : Place α} {n a b : ℕ}
  {p : Char → Bool} {fold : Char → Char} {words : List (List Char)} {w : List Char}

/-- The first places are items. -/
def Plain : ℕ → List (Place α) → Prop
  | 0, _ => True
  | n + 1, .item _ :: S => Plain n S
  | _ + 1, _ => False

lemma Plain.add (ha : Plain a S) (hb : Plain b (S.drop a)) : Plain (a + b) S := by
  induction a generalizing S with
  | zero => rwa [Nat.zero_add]
  | succ a ih =>
      cases S with
      | nil => exact ha.elim
      | cons y S =>
          cases y with
          | item x =>
              rw [Nat.succ_add]
              exact ih ha hb
          | mark => exact ha.elim
          | cont => exact ha.elim

lemma Plain.mono (h : Plain n S) (hle : a ≤ n) : Plain a S := by
  induction a generalizing S n with
  | zero => trivial
  | succ a ih =>
      cases n with
      | zero => cases hle
      | succ n =>
          cases S with
          | nil => exact h.elim
          | cons y S =>
              cases y with
              | item x => exact ih h (by omega)
              | mark => exact h.elim
              | cont => exact h.elim

lemma Plain.of_add (h : Plain (a + b) S) : Plain b (S.drop a) := by
  induction a generalizing S with
  | zero => rwa [Nat.zero_add] at h
  | succ a ih =>
      rw [Nat.succ_add] at h
      cases S with
      | nil => exact h.elim
      | cons y S =>
          cases y with
          | item x => exact ih h
          | mark => exact h.elim
          | cont => exact h.elim

lemma Plain.drop_render (h : Plain n S) : (k.render S).drop n = k.render (S.drop n) := by
  induction n generalizing S with
  | zero => rfl
  | succ n ih =>
      cases S with
      | nil => exact h.elim
      | cons y S =>
          cases y with
          | item x => exact ih h
          | mark => exact h.elim
          | cont => exact h.elim

lemma Plain.length_render (h : Plain n S) : (k.render (S.take n)).length = n := by
  induction n generalizing S with
  | zero => rfl
  | succ n ih =>
      cases S with
      | nil => exact h.elim
      | cons y S =>
          cases y with
          | item x =>
              rw [List.take_succ_cons, render_cons, shown_item, List.length_append, ih h,
                List.length_singleton, Nat.add_comm]
          | mark => exact h.elim
          | cont => exact h.elim

lemma Joined.tail (h : Joined (.item x :: S)) : Joined S := by
  refine ⟨h.1.tail, fun hhead => ?_⟩
  exact h.1.rel_head? hhead

lemma Joined.drop_plain (h : Joined S) (hplain : Plain n S) : Joined (S.drop n) := by
  induction n generalizing S with
  | zero => exact h
  | succ n ih =>
      cases S with
      | nil => exact hplain.elim
      | cons y S =>
          cases y with
          | item x => exact ih (Joined.tail h) hplain
          | mark => exact hplain.elim
          | cont => exact hplain.elim

/-- No mark shows or is seen as a character of the class where it begins. -/
structure Stopping (k : Marking α) (p : Char → Bool) : Prop where
  stop : p k.stop = false
  marker : ∃ y ys, k.marker = y :: ys ∧ p (k.view y) = false

/-- Marks are of the class throughout. -/
structure Passing (k : Marking α) (p : Char → Bool) : Prop where
  stop : p k.stop = true
  marker : ∀ y ∈ k.marker, p (k.view y) = true

/-- A run that stops at marks is of items, on the text and on what it shows. -/
lemma run_stopping (hp : Stopping k p) (h : Joined S) :
    run p ((k.render S).map k.view) = run p (k.chars S) ∧ Plain (run p (k.chars S)) S := by
  induction S with
  | nil => exact ⟨rfl, trivial⟩
  | cons y S ih =>
      cases y with
      | item x =>
          obtain ⟨hrun, hplain⟩ := ih (Joined.tail h)
          have hreal : (k.render (.item x :: S)).map k.view =
              k.view x :: (k.render S).map k.view := rfl
          have hchars : k.chars (.item x :: S) = k.view x :: k.chars S := rfl
          rw [hreal, hchars]
          cases hx : p (k.view x) with
          | false =>
              rw [run_cons_of_neg hx, run_cons_of_neg hx]
              exact ⟨rfl, trivial⟩
          | true =>
              rw [run_cons_of_pos hx, run_cons_of_pos hx, hrun]
              exact ⟨rfl, hplain⟩
      | mark =>
          obtain ⟨y, ys, hmarker, hy⟩ := hp.marker
          have hchars : k.chars (.mark :: S) = k.stop :: k.chars S := rfl
          rw [hchars, run_cons_of_neg hp.stop, render_cons, Marking.shown, hmarker,
            List.cons_append, List.map_cons, run_cons_of_neg hy]
          exact ⟨rfl, trivial⟩
      | cont => exact absurd rfl h.2

/-- A run that goes over marks takes what they show. -/
lemma run_passing (hp : Passing k p) :
    run p ((k.render S).map k.view) = (k.render (S.take (run p (k.chars S)))).length := by
  have hpass : ∀ (w t : List α), (∀ y ∈ w, p (k.view y) = true) →
      run p ((w ++ t).map k.view) = w.length + run p (t.map k.view) := by
    intro w t hw
    rw [run, List.map_append, List.takeWhile_append_of_pos, List.length_append, List.length_map,
      run]
    intro c hc
    obtain ⟨y, hy, rfl⟩ := List.mem_map.mp hc
    exact hw y hy
  induction S with
  | nil => rfl
  | cons y S ih =>
      have hchars : k.chars (y :: S) = k.char y :: k.chars S := rfl
      cases hy : p (k.char y) with
      | true =>
          have hshown : ∀ z ∈ k.shown y, p (k.view z) = true := by
            intro z hz
            cases y with
            | item x =>
                rw [List.mem_singleton.mp hz]
                exact hy
            | mark => exact hp.marker z hz
            | cont => cases hz
          rw [hchars, run_cons_of_pos hy, List.take_succ_cons, render_cons, render_cons,
            List.length_append, hpass _ _ hshown, ih]
      | false =>
          cases y with
          | item x =>
              have hx : p (k.view x) = false := hy
              have hreal : (k.render (.item x :: S)).map k.view =
                  k.view x :: (k.render S).map k.view := rfl
              rw [hchars, hreal, run_cons_of_neg hx, run_cons_of_neg hy]
              rfl
          | mark => exact absurd (hp.stop.symm.trans hy) (by decide)
          | cont => exact absurd (hp.stop.symm.trans hy) (by decide)

/-- The first character, where marks stop the class. -/
lemma head_stopping (hp : Stopping k p) (h : Joined S) :
    ((k.render S).map k.view).head?.any p = (k.chars S).head?.any p ∧
      ((k.chars S).head?.any p = true → Plain 1 S) := by
  cases S with
  | nil => exact ⟨rfl, fun hfalse => absurd hfalse Bool.false_ne_true⟩
  | cons y S =>
      cases y with
      | item x => exact ⟨rfl, fun _ => trivial⟩
      | mark =>
          obtain ⟨y, ys, hmarker, hy⟩ := hp.marker
          have hchars : (k.chars (.mark :: S)).head?.any p = p k.stop := rfl
          rw [hchars, hp.stop, render_cons, Marking.shown, hmarker]
          exact ⟨hy, fun hfalse => absurd hfalse Bool.false_ne_true⟩
      | cont => exact absurd rfl h.2

/-- Words without the characters that stand at marks. -/
structure Apart (k : Marking α) (fold : Char → Char) (w : List Char) : Prop where
  stop : fold k.stop ∉ w
  marker : ∃ y ys, k.marker = y :: ys ∧ fold (k.view y) ∉ w

lemma isPrefixOf_render (hw : Apart k fold w) (h : Joined S) :
    w.isPrefixOf (((k.render S).map k.view).map fold) = w.isPrefixOf ((k.chars S).map fold) ∧
      (w.isPrefixOf ((k.chars S).map fold) = true → Plain w.length S) := by
  induction w generalizing S with
  | nil => exact ⟨rfl, fun _ => trivial⟩
  | cons c w ih =>
      obtain ⟨y, ys, hmarker, hy⟩ := hw.marker
      have htail : Apart k fold w :=
        ⟨fun hmem => hw.stop (List.mem_cons_of_mem _ hmem), y, ys, hmarker,
          fun hmem => hy (List.mem_cons_of_mem _ hmem)⟩
      cases S with
      | nil => exact ⟨rfl, fun hfalse => absurd hfalse Bool.false_ne_true⟩
      | cons z S =>
          cases z with
          | item x =>
              obtain ⟨heq, hplain⟩ := ih htail (Joined.tail h)
              have hreal : ((k.render (.item x :: S)).map k.view).map fold =
                  fold (k.view x) :: ((k.render S).map k.view).map fold := rfl
              have hchars : (k.chars (.item x :: S)).map fold =
                  fold (k.view x) :: (k.chars S).map fold := rfl
              rw [hreal, hchars, List.isPrefixOf_cons_cons, List.isPrefixOf_cons_cons, heq]
              refine ⟨rfl, fun htrue => ?_⟩
              exact hplain (Bool.and_eq_true_iff.mp htrue).2
          | mark =>
              have hstop : (c == fold k.stop) = false :=
                beq_eq_false_iff_ne.mpr fun heq => hw.stop (heq ▸ List.mem_cons_self)
              have hfirst : (c == fold (k.view y)) = false :=
                beq_eq_false_iff_ne.mpr fun heq => hy (heq ▸ List.mem_cons_self)
              have hchars : (k.chars (.mark :: S)).map fold =
                  fold k.stop :: (k.chars S).map fold := rfl
              rw [hchars, render_cons, Marking.shown, hmarker, List.cons_append, List.map_cons,
                List.map_cons, List.isPrefixOf_cons_cons, List.isPrefixOf_cons_cons, hstop, hfirst]
              exact ⟨rfl, fun hfalse => absurd hfalse Bool.false_ne_true⟩
          | cont => exact absurd rfl h.2

/-- The same word is read from the text and from what it shows. -/
lemma wordAt_render (hw : ∀ w ∈ words, Apart k fold w) (h : Joined S) :
    wordAt fold words ((k.render S).map k.view) = wordAt fold words (k.chars S) := by
  have hfind : words.find? (fun w => w.isPrefixOf (((k.render S).map k.view).map fold)) =
      words.find? fun w => w.isPrefixOf ((k.chars S).map fold) := by
    induction words with
    | nil => rfl
    | cons w words ih =>
        have hrest := ih fun w' hw' => hw w' (List.mem_cons_of_mem _ hw')
        have hfirst := (isPrefixOf_render (hw w List.mem_cons_self) h).1
        rw [List.find?_cons, List.find?_cons, hfirst, hrest]
  rw [wordAt, hfind, wordAt]

lemma plain_of_wordAt (hw : ∀ w ∈ words, Apart k fold w) (h : Joined S)
    (hword : wordAt fold words (k.chars S) = some n) : Plain n S := by
  obtain ⟨w, hmem, rfl, hprefix⟩ := wordAt_eq_some hword
  exact (isPrefixOf_render (hw w hmem) h).2 (List.isPrefixOf_iff_prefix.mpr hprefix)

section Offset

/-- The text shown after the first items. -/
lemma drop_shown (hplain : Plain n S) : ((k.render S).map k.view).drop n =
    (k.render (S.drop n)).map k.view := by
  rw [← List.map_drop, hplain.drop_render]

variable (h : Joined S) (hplain : Plain n S)
include h hplain

lemma run_stopping_at (hp : Stopping k p) :
    run p (((k.render S).map k.view).drop n) = run p ((k.chars S).drop n) ∧
      Plain (n + run p ((k.chars S).drop n)) S := by
  obtain ⟨hrun, hitems⟩ := run_stopping hp (Joined.drop_plain h hplain)
  rw [drop_shown hplain, drop_chars, hrun]
  exact ⟨rfl, hplain.add hitems⟩

lemma head_stopping_at (hp : Stopping k p) :
    (((k.render S).map k.view).drop n).head?.any p = ((k.chars S).drop n).head?.any p ∧
      (((k.chars S).drop n).head?.any p = true → Plain (n + 1) S) := by
  obtain ⟨hhead, hitem⟩ := head_stopping hp (Joined.drop_plain h hplain)
  rw [drop_shown hplain, drop_chars, hhead]
  exact ⟨rfl, fun htrue => hplain.add (hitem htrue)⟩

omit h in
lemma run_passing_at (hp : Passing k p) : run p (((k.render S).map k.view).drop n) =
    (k.render ((S.drop n).take (run p ((k.chars S).drop n)))).length := by
  rw [drop_shown hplain, drop_chars, run_passing hp]

/-- What shows nothing is nothing, unless it begins with a continuation. -/
lemma length_render_pos (hmarker : k.marker ≠ []) (hb : 0 < b) (hlt : n < S.length) :
    0 < (k.render ((S.drop n).take b)).length := by
  have hjoined := Joined.drop_plain h hplain
  obtain ⟨b, rfl⟩ := Nat.exists_eq_succ_of_ne_zero (Nat.pos_iff_ne_zero.mp hb)
  rw [List.drop_eq_getElem_cons hlt] at hjoined ⊢
  rw [List.take_succ_cons, render_cons, List.length_append]
  cases hat : S[n] with
  | item x =>
      rw [shown_item, List.length_singleton]
      omega
  | mark =>
      have hpos : 0 < k.marker.length := List.length_pos_iff.mpr hmarker
      rw [Marking.shown]
      omega
  | cont =>
      rw [hat] at hjoined
      exact absurd rfl hjoined.2

end Offset

/-- A match whose value alone may hold marks. -/
lemma widened_lead {m : Match} (h : Plain (m.kept + m.passed) S) :
    k.widened S m =
      ⟨m.kept, m.passed, (k.render ((S.drop (m.kept + m.passed)).take m.value)).length⟩ := by
  have hkept : (k.render (S.take m.kept)).length = m.kept :=
    (h.mono (Nat.le_add_right _ _)).length_render
  have hpassed : (k.render ((S.drop m.kept).take m.passed)).length = m.passed :=
    h.of_add.length_render
  rw [Marking.widened, hkept, hpassed]

/-- A match among items is as long on what is shown. -/
lemma widened_plain {m : Match} (h : Plain m.length S) : k.widened S m = m := by
  have hlead : Plain (m.kept + m.passed) S := h.mono (by rw [Match.length]; omega)
  have hvalue : Plain m.value (S.drop (m.kept + m.passed)) := h.of_add
  rw [widened_lead hlead, hvalue.length_render]

end Places

end Loker.PatternRuns
