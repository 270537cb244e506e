import Loker.MarkerNames
import Loker.SpecFiles

/-! The blocks that the spec command takes from a model's output, and the files that it makes of
them, up to the values that the implement command reads back. -/

namespace Loker.SpecBlocks

open FileTree TextOps TomlText SpecFiles
open MarkerNames (dropPrefixes_append_iff trimEndMatches_append_iff)
open Summary (dropPrefixes trimEndMatches)

section Model

variable {α : Type} (tag : String) (decode : String → Option α)

def trimStartMatches (s pat : String) : String :=
  String.ofList (dropPrefixes pat.toList s.toList.length s.toList)

def opener : String := "[" ++ tag ++ "."

/-- The line begins a block. -/
def isHeader (line : String) : Bool :=
  startsWith (trim line) (opener tag) && endsWith (trim line) "]"

def isFence (line : String) : Bool := startsWith (trim line) "```"

def headerName (line : String) : String :=
  trimEndMatches (trimStartMatches (trim line) (opener tag)) "]"

structure Scan (α : Type) where
  entries : List (String × α)
  currentName : Option String
  currentBlock : String

/-- The entries with the one of the current block, when it can be decoded. -/
def Scan.close (s : Scan α) : List (String × α) :=
  match s.currentName with
  | some name =>
      match decode s.currentBlock with
      | some entry => s.entries ++ [(name, entry)]
      | none => s.entries
  | none => s.entries

def scanLine (s : Scan α) (line : String) : Scan α :=
  if isHeader tag line then ⟨s.close decode, some (headerName tag line), ""⟩
  else if s.currentName.isSome && !isFence line then
    { s with currentBlock := s.currentBlock ++ line ++ "\n" }
  else s

def scanBlocks (output : String) : List (String × α) :=
  ((lines output).foldl (scanLine tag decode) ⟨[], none, ""⟩).close decode

def decodeSpecEntry (t : Table) : Option SpecEntry := do
  let order ← defaulted asU32 t "order" 0
  let what ← required asString t "what"
  let why ← required asString t "why"
  let how ← optional asString t "how"
  let backup ← optional asString t "backup"
  let inputs ← optional asString t "inputs"
  let outputs ← optional asString t "outputs"
  let dependencies ← defaulted (asArray asString) t "dependencies" []
  let tests ← optional asString t "tests"
  pure ⟨order, what, why, how, backup, inputs, outputs, dependencies, tests⟩

def decodeSubtaskEntry (t : Table) : Option SubtaskEntry := do
  let order ← defaulted asU32 t "order" 0
  let file ← optional asString t "file"
  let what ← required asString t "what"
  let why ← optional asString t "why"
  let how ← optional asString t "how"
  let inputs ← optional asString t "inputs"
  let outputs ← optional asString t "outputs"
  let tests ← optional asString t "tests"
  pure ⟨order, file, what, why, how, inputs, outputs, tests⟩

def parseSingleSpec (lib : Library) (block : String) : Option SpecEntry :=
  load lib decodeSpecEntry block

def parseSingleSubtask (lib : Library) (block : String) : Option SubtaskEntry :=
  load lib decodeSubtaskEntry block

def parseSpecs (lib : Library) (output : String) : List (String × SpecEntry) :=
  scanBlocks "spec" (parseSingleSpec lib) output

def parseSubtasks (lib : Library) (output : String) : List (String × SubtaskEntry) :=
  scanBlocks "subtask" (parseSingleSubtask lib) output

end Model

section Blocks

def unlines : List String → String
  | [] => ""
  | line :: lines => line ++ "\n" ++ unlines lines

/-- A block of an output, with the lines between it and the next one. -/
structure Block where
  name : String
  header : String
  body : List String
  closing : List String

def Block.lines (b : Block) : List String := b.header :: (b.body ++ b.closing)

/-- What is TOML of the block; fences are not, blank lines are. -/
def Block.text (b : Block) : String :=
  unlines (b.body ++ b.closing.filter fun line => !isFence line)

structure Block.WellFormed (tag : String) (b : Block) : Prop where
  header : trim b.header = opener tag ++ b.name ++ "]"
  closing : ∀ line ∈ b.closing, isFence line = true ∨ trim line = ""

/-- The output consists of the blocks, after lines that begin none. -/
structure Consists (tag output : String) (before : List String) (blocks : List Block) : Prop where
  quiet : ∀ line ∈ before, isHeader tag line = false
  formed : ∀ b ∈ blocks, b.WellFormed tag
  lines : lines output = before ++ blocks.flatMap Block.lines

/-- The scanner takes nothing in the block for a header or a fence. -/
structure Block.Scannable (tag : String) (b : Block) : Prop where
  start : startsWith b.name (opener tag) = false
  stop : endsWith b.name "]" = false
  headers : ∀ line ∈ b.body, isHeader tag line = false
  fences : ∀ line ∈ b.body, isFence line = false

variable {α : Type} {tag output : String} {decode : String → Option α} {s : Scan α}
  {ls before : List String} {b : Block} {blocks : List Block}

lemma unlines_append (ls ls' : List String) : unlines (ls ++ ls') = unlines ls ++ unlines ls' := by
  induction ls with
  | nil => exact String.empty_append.symm
  | cons line ls ih =>
      rw [List.cons_append, unlines, ih, unlines]
      simp only [String.append_assoc]

lemma length_unlines_filter (p : String → Bool) (ls : List String) :
    (unlines (ls.filter p)).length + ls.countP (fun line => !p line) ≤ (unlines ls).length := by
  induction ls with
  | nil => exact Nat.le_refl _
  | cons line ls ih =>
      cases hline : p line with
      | true =>
          rw [List.filter_cons_of_pos hline, List.countP_cons_of_neg (by simp [hline])]
          simp only [unlines, String.length_append]
          omega
      | false =>
          rw [List.filter_cons_of_neg (by simp [hline]), List.countP_cons_of_pos (by simp [hline])]
          have hbreak : "\n".length = 1 := by decide
          simp only [unlines, String.length_append, hbreak]
          omega

/-- Nothing can be left out of the lines without the text getting shorter. -/
lemma filter_of_unlines {p : String → Bool} (h : unlines (ls.filter p) = unlines ls) :
    ∀ line ∈ ls, p line = true := by
  have hlength := length_unlines_filter p ls
  rw [h] at hlength
  have hzero : ls.countP (fun line => !p line) = 0 := by omega
  intro line hline
  have hnot := List.countP_eq_zero.mp hzero line hline
  simpa using hnot

lemma opener_toList (tag : String) : (opener tag).toList = '[' :: (tag.toList ++ ['.']) := by
  simp [opener]

lemma isHeader_of_trim {line name : String} (h : trim line = opener tag ++ name ++ "]") :
    isHeader tag line = true := by
  rw [isHeader, h, Bool.and_eq_true, startsWith, endsWith, List.isPrefixOf_iff_prefix,
    List.isSuffixOf_iff_suffix, String.toList_append, String.toList_append]
  constructor
  · rw [List.append_assoc]
    exact List.prefix_append _ _
  · exact List.suffix_append _ _

/-- A line that stands between blocks begins none. -/
lemma isHeader_of_closing {line : String} (h : isFence line = true ∨ trim line = "") :
    isHeader tag line = false := by
  rw [isHeader, Bool.and_eq_false_iff]
  left
  rw [startsWith, opener_toList]
  rcases h with hfence | hblank
  · rw [isFence, startsWith, List.isPrefixOf_iff_prefix] at hfence
    obtain ⟨rest, hrest⟩ := hfence
    rw [← hrest]
    rfl
  · rw [hblank]
    rfl

lemma length_dropPrefixes (pat : List Char) (fuel : ℕ) (cs : List Char) :
    (dropPrefixes pat fuel cs).length ≤ cs.length := by
  induction fuel generalizing cs with
  | zero => exact Nat.le_refl _
  | succ fuel ih =>
      rw [dropPrefixes]
      split
      · have hrest := ih (cs.drop pat.length)
        rw [List.length_drop] at hrest
        omega
      · exact Nat.le_refl _

lemma length_trimEndMatches (s pat : String) :
    (trimEndMatches s pat).toList.length ≤ s.toList.length := by
  rw [trimEndMatches, String.toList_ofList, List.length_reverse]
  have hdropped := length_dropPrefixes pat.toList.reverse s.toList.length s.toList.reverse
  rw [List.length_reverse] at hdropped
  exact hdropped

/-- The name is taken as it stands exactly when trimming takes no more than the header's own
brackets. -/
lemma headerName_eq_iff {line name : String} (h : trim line = opener tag ++ name ++ "]") :
    headerName tag line = name ↔
      startsWith name (opener tag) = false ∧ endsWith name "]" = false := by
  have hne : (opener tag).toList ≠ [] := by simp [opener_toList]
  have hchars : (trim line).toList = (opener tag).toList ++ (name.toList ++ [']']) := by
    rw [h, String.toList_append, String.toList_append, List.append_assoc]
    rfl
  obtain ⟨fuel, hfuel⟩ : ∃ fuel, (trim line).toList.length = fuel + 1 := by
    refine ⟨(trim line).toList.length - 1, ?_⟩
    rw [hchars]
    simp
    omega
  have hle : (name.toList ++ [']']).length ≤ fuel := by
    have hpos := List.length_pos_iff.mpr hne
    rw [hchars, List.length_append] at hfuel
    omega
  have hstart :
      (opener tag).toList <+: name.toList ++ [']'] ↔ (opener tag).toList <+: name.toList := by
    rw [List.prefix_concat_iff]
    constructor
    · rintro (heq | hpre)
      · have hlast : ('[' :: tag.toList) ++ ['.'] = name.toList ++ [']'] := by
          rw [← heq, opener_toList]
          rfl
        exact absurd (List.append_inj' hlast rfl).2 (by decide)
      · exact hpre
    · exact Or.inr
  rw [headerName, trimStartMatches, hfuel, hchars]
  by_cases hpre : (opener tag).toList <+: name.toList
  · have hstarts : startsWith name (opener tag) = true := by
      rw [startsWith, List.isPrefixOf_iff_prefix]
      exact hpre
    constructor
    · intro heq
      exfalso
      obtain ⟨rest, hrest⟩ := hpre
      have htwo : 2 ≤ (opener tag).toList.length := by
        rw [opener_toList]
        simp
      obtain ⟨fuel, rfl⟩ : ∃ k, fuel = k + 1 := by
        refine ⟨fuel - 1, ?_⟩
        rw [List.length_append, List.length_singleton] at hle
        omega
      have hfirst : (opener tag).toList.isPrefixOf
          ((opener tag).toList ++ (name.toList ++ [']'])) = true :=
        List.isPrefixOf_iff_prefix.mpr (List.prefix_append _ _)
      have hsecond : (opener tag).toList.isPrefixOf (name.toList ++ [']']) = true := by
        rw [List.isPrefixOf_iff_prefix, ← hrest, List.append_assoc]
        exact List.prefix_append _ _
      rw [dropPrefixes, if_pos hfirst, List.drop_left, dropPrefixes, if_pos hsecond, ← hrest,
        List.append_assoc, List.drop_left] at heq
      have hdropped := length_dropPrefixes (opener tag).toList fuel (rest ++ [']'])
      have htrimmed := length_trimEndMatches
        (String.ofList (dropPrefixes (opener tag).toList fuel (rest ++ [']']))) "]"
      have hname := congrArg List.length hrest
      rw [heq, String.toList_ofList] at htrimmed
      rw [List.length_append, List.length_singleton] at hdropped
      rw [List.length_append] at hname
      omega
    · rintro ⟨hfalse, _⟩
      rw [hstarts] at hfalse
      cases hfalse
  · have hstarts : startsWith name (opener tag) = false := by
      rw [startsWith, ← Bool.not_eq_true, List.isPrefixOf_iff_prefix]
      exact hpre
    have hname : String.ofList (name.toList ++ [']']) = name ++ "]" := by
      rw [String.ofList_append, String.ofList_toList]
    rw [(dropPrefixes_append_iff hne hle).mpr (hpre ∘ hstart.mp), hname,
      trimEndMatches_append_iff (by decide), hstarts]
    simp

end Blocks

section Scanning

variable {α : Type} {tag output : String} {decode : String → Option α} {s : Scan α}
  {ls before : List String} {b : Block} {blocks : List Block}

@[simp] lemma close_none (entries : List (String × α)) (block : String) :
    Scan.close decode ⟨entries, none, block⟩ = entries := rfl

lemma close_some (entries : List (String × α)) (name block : String) :
    Scan.close decode ⟨entries, some name, block⟩ =
      entries ++ ((decode block).map fun entry => (name, entry)).toList := by
  rw [Scan.close]
  cases decode block with
  | none => exact (List.append_nil entries).symm
  | some entry => rfl

/-- Before the first header nothing is kept. -/
lemma scan_before (h : ∀ line ∈ ls, isHeader tag line = false) :
    ls.foldl (scanLine tag decode) ⟨[], none, ""⟩ = ⟨[], none, ""⟩ := by
  induction ls with
  | nil => rfl
  | cons line ls ih =>
      obtain ⟨hline, hrest⟩ := List.forall_mem_cons.mp h
      rw [List.foldl_cons, scanLine, hline, if_neg nofun, if_neg nofun]
      exact ih hrest

/-- Lines without a header add up to the current block, the fences left out. -/
lemma scan_quiet (h : ∀ line ∈ ls, isHeader tag line = false) (entries : List (String × α))
    (name block : String) :
    ls.foldl (scanLine tag decode) ⟨entries, some name, block⟩ =
      ⟨entries, some name, block ++ unlines (ls.filter fun line => !isFence line)⟩ := by
  induction ls generalizing block with
  | nil => simp [unlines]
  | cons line ls ih =>
      obtain ⟨hline, hrest⟩ := List.forall_mem_cons.mp h
      rw [List.foldl_cons, scanLine, hline, if_neg nofun]
      cases hfence : isFence line with
      | true =>
          rw [List.filter_cons_of_neg (by simp [hfence])]
          exact ih hrest block
      | false =>
          rw [List.filter_cons_of_pos (by simp [hfence]), unlines]
          simp only [Option.isSome_some, Bool.not_false, Bool.and_self, if_true]
          rw [ih hrest]
          simp only [String.append_assoc]

/-- What the scanner takes for the text of the block. -/
def keptText (b : Block) : String :=
  unlines ((b.body ++ b.closing).filter fun line => !isFence line)

def found (tag : String) (decode : String → Option α) (b : Block) : Option (String × α) :=
  (decode (keptText b)).map fun entry => (headerName tag b.header, entry)

/-- The blocks of which no line is a header are found one after the other. -/
lemma close_blocks (hformed : ∀ b ∈ blocks, b.WellFormed tag)
    (hquiet : ∀ b ∈ blocks, ∀ line ∈ b.body, isHeader tag line = false) (s : Scan α) :
    ((blocks.flatMap Block.lines).foldl (scanLine tag decode) s).close decode =
      s.close decode ++ blocks.filterMap (found tag decode) := by
  induction blocks generalizing s with
  | nil => exact (List.append_nil _).symm
  | cons b blocks ih =>
      obtain ⟨hb, hformed⟩ := List.forall_mem_cons.mp hformed
      obtain ⟨hbody, hquiet⟩ := List.forall_mem_cons.mp hquiet
      have hlines : ∀ line ∈ b.body ++ b.closing, isHeader tag line = false := by
        intro line hline
        rcases List.mem_append.mp hline with hin | hclosing
        · exact hbody line hin
        · exact isHeader_of_closing (hb.closing line hclosing)
      have hheader : isHeader tag b.header = true := isHeader_of_trim hb.header
      have hblock : (b.lines.foldl (scanLine tag decode) s) =
          ⟨s.close decode, some (headerName tag b.header), keptText b⟩ := by
        rw [Block.lines, List.foldl_cons, scanLine, if_pos hheader, scan_quiet hlines,
          String.empty_append]
        rfl
      rw [List.flatMap_cons, List.foldl_append, hblock, ih hformed hquiet, close_some,
        List.append_assoc]
      congr 1
      rw [List.filterMap_cons, found]
      cases decode (keptText b) with
      | none => rfl
      | some entry => rfl

lemma keptText_of_scannable (h : b.Scannable tag) : keptText b = b.text := by
  have hbody : (b.body.filter fun line => !isFence line) = b.body := by
    rw [List.filter_eq_self]
    intro line hline
    rw [h.fences line hline]
    rfl
  rw [keptText, List.filter_append, hbody, Block.text]

/-- Only a block whose body has no fence is kept whole. -/
lemma fences_of_keptText (h : keptText b = b.text) : ∀ line ∈ b.body, isFence line = false := by
  rw [keptText, List.filter_append, Block.text, unlines_append, unlines_append,
    String.append_left_inj] at h
  intro line hline
  have hnot := filter_of_unlines h line hline
  simpa using hnot

/-- A decoder of every text finds as many entries as there are headers. -/
lemma length_close (htotal : ∀ text, (decode text).isSome = true) (ls : List String) (s : Scan α) :
    ((ls.foldl (scanLine tag decode) s).close decode).length =
      (s.close decode).length + ls.countP (isHeader tag) := by
  have hclose : ∀ (entries : List (String × α)) (name block : String),
      (Scan.close decode ⟨entries, some name, block⟩).length = entries.length + 1 := by
    intro entries name block
    obtain ⟨entry, hentry⟩ := Option.isSome_iff_exists.mp (htotal block)
    rw [close_some, hentry, List.length_append]
    rfl
  induction ls generalizing s with
  | nil => rfl
  | cons line ls ih =>
      rw [List.foldl_cons, ih]
      cases hline : isHeader tag line with
      | true =>
          rw [scanLine, if_pos hline, hclose, List.countP_cons_of_pos hline]
          omega
      | false =>
          have hsame : ((scanLine tag decode s line).close decode).length =
              (s.close decode).length := by
            obtain ⟨entries, name, block⟩ := s
            rw [scanLine, hline, if_neg nofun]
            cases name with
            | none => rfl
            | some name =>
                split
                · rw [hclose, hclose]
                · rfl
          rw [hsame, List.countP_cons_of_neg (by simp [hline])]

lemma countP_blocks (hformed : ∀ b ∈ blocks, b.WellFormed tag) :
    (blocks.flatMap Block.lines).countP (isHeader tag) =
      blocks.length + (blocks.flatMap Block.body).countP (isHeader tag) := by
  induction blocks with
  | nil => rfl
  | cons b blocks ih =>
      obtain ⟨hb, hformed⟩ := List.forall_mem_cons.mp hformed
      have hclosing : b.closing.countP (isHeader tag) = 0 := by
        rw [List.countP_eq_zero]
        intro line hline
        rw [isHeader_of_closing (hb.closing line hline)]
        exact nofun
      rw [List.flatMap_cons, List.flatMap_cons, List.countP_append, List.countP_append, ih hformed,
        Block.lines, List.countP_cons_of_pos (isHeader_of_trim hb.header), List.countP_append,
        hclosing, List.length_cons]
      omega

end Scanning

section Returned

variable {α : Type} {tag output : String} {before : List String} {blocks : List Block}

/-- Whatever the reader of TOML, when it makes an entry of every block, the entries are returned
under the names of the blocks and in their order. -/
def ReturnsEntries (parse : Library → String → List (String × α))
    (parseSingle : Library → String → Option α) (output : String) (blocks : List Block) : Prop :=
  ∀ (reader : Library) (entries : List α),
    blocks.map (fun b => parseSingle reader b.text) = entries.map some →
      parse reader output = (blocks.map Block.name).zip entries

lemma scanBlocks_consists {decode : String → Option α} (h : Consists tag output before blocks)
    (hquiet : ∀ b ∈ blocks, ∀ line ∈ b.body, isHeader tag line = false) :
    scanBlocks tag decode output = blocks.filterMap (found tag decode) := by
  rw [scanBlocks, h.lines, List.foldl_append, scan_before h.quiet, close_blocks h.formed hquiet]
  rfl

lemma found_of_scannable {decode : String → Option α} {b : Block} (hb : b.WellFormed tag)
    (h : b.Scannable tag) :
    found tag decode b = (decode b.text).map fun entry => (b.name, entry) := by
  rw [found, keptText_of_scannable h, (headerName_eq_iff hb.header).mpr ⟨h.start, h.stop⟩]

lemma filterMap_zip {decode : String → Option α} {entries : List α}
    (hentries : blocks.map (fun b => decode b.text) = entries.map some) :
    blocks.filterMap (fun b => (decode b.text).map fun entry => (b.name, entry)) =
      (blocks.map Block.name).zip entries := by
  induction blocks generalizing entries with
  | nil => rfl
  | cons b blocks ih =>
      cases entries with
      | nil => cases hentries
      | cons entry entries =>
          obtain ⟨hfirst, hrest⟩ := List.cons.inj hentries
          have hdecode : decode b.text = some entry := hfirst
          rw [List.filterMap_cons, hdecode, ih hrest]
          rfl

lemma returned_of_scannable {decode : String → Option α} {entries : List α}
    (h : Consists tag output before blocks) (hscan : ∀ b ∈ blocks, b.Scannable tag)
    (hentries : blocks.map (fun b => decode b.text) = entries.map some) :
    scanBlocks tag decode output = (blocks.map Block.name).zip entries := by
  rw [scanBlocks_consists h fun b hb => (hscan b hb).headers, ← filterMap_zip hentries]
  apply List.filterMap_congr
  intro b hb
  exact found_of_scannable (h.formed b hb) (hscan b hb)

/-- A decoder that tells all texts apart gets every block's own text only from blocks that can be
scanned: first the headers are counted, then the blocks are compared one by one. -/
lemma scannable_of_returned {entry : String → α} (hentry : Function.Injective entry)
    (h : Consists tag output before blocks)
    (hreturned : scanBlocks tag (fun text => some (entry text)) output =
      blocks.map fun b => (b.name, entry b.text)) :
    ∀ b ∈ blocks, b.Scannable tag := by
  have hcount : blocks.length = (lines output).countP (isHeader tag) := by
    have hlength : (scanBlocks tag (fun text => some (entry text)) output).length =
        0 + (lines output).countP (isHeader tag) :=
      length_close (fun _ => rfl) (lines output) ⟨[], none, ""⟩
    rw [hreturned, List.length_map, Nat.zero_add] at hlength
    exact hlength
  have hbefore : before.countP (isHeader tag) = 0 := by
    rw [List.countP_eq_zero]
    intro line hline
    rw [h.quiet line hline]
    exact nofun
  rw [h.lines, List.countP_append, hbefore, countP_blocks h.formed] at hcount
  have hzero : (blocks.flatMap Block.body).countP (isHeader tag) = 0 := by omega
  have hquiet : ∀ b ∈ blocks, ∀ line ∈ b.body, isHeader tag line = false := by
    intro b hb line hline
    have hnot := List.countP_eq_zero.mp hzero line (List.mem_flatMap.mpr ⟨b, hb, hline⟩)
    simpa using hnot
  rw [scanBlocks_consists h hquiet] at hreturned
  have hmap : blocks.filterMap (found tag fun text => some (entry text)) =
      blocks.map fun b => (headerName tag b.header, entry (keptText b)) := by
    rw [← List.filterMap_eq_map]
    rfl
  rw [hmap, List.map_inj_left] at hreturned
  intro b hb
  obtain ⟨hname, htext⟩ := Prod.mk.inj (hreturned b hb)
  obtain ⟨hstart, hstop⟩ := (headerName_eq_iff (h.formed b hb).header).mp hname
  exact ⟨hstart, hstop, hquiet b hb, fences_of_keptText (hentry htext)⟩

/-- A reader to which every text is the document that says so. -/
def echo : Library where
  fromStr text := .ok fun key =>
    if key = "what" then some (.string text) else if key = "why" then some (.string "") else none

lemma parseSingleSpec_echo (text : String) : parseSingleSpec echo text =
    some ⟨0, text, "", none, none, none, none, [], none⟩ := by
  simp [parseSingleSpec, load, echo, decodeSpecEntry, defaulted, SpecFiles.optional, required,
    asString]

lemma parseSingleSubtask_echo (text : String) : parseSingleSubtask echo text =
    some ⟨0, none, text, some "", none, none, none, none⟩ := by
  simp [parseSingleSubtask, load, echo, decodeSubtaskEntry, defaulted, SpecFiles.optional, required,
    asString]

/-- For a parser that scans, one reader that tells all texts apart decides. -/
lemma returnsEntries_iff {parse : Library → String → List (String × α)}
    {parseSingle : Library → String → Option α} {entry : String → α}
    (hparse : ∀ reader, parse reader output = scanBlocks tag (parseSingle reader) output)
    (hecho : ∀ text, parseSingle echo text = some (entry text)) (hentry : Function.Injective entry)
    (h : Consists tag output before blocks) :
    ReturnsEntries parse parseSingle output blocks ↔ ∀ b ∈ blocks, b.Scannable tag := by
  constructor
  · intro hreturns
    apply scannable_of_returned hentry h
    have hentries : blocks.map (fun b => parseSingle echo b.text) =
        (blocks.map fun b => entry b.text).map some := by
      rw [List.map_map]
      exact List.map_congr_left fun b _ => hecho b.text
    have hall := hreturns echo _ hentries
    have hdecode : parseSingle echo = fun text => some (entry text) := funext hecho
    rw [hparse, hdecode] at hall
    rw [hall]
    exact List.zip_map'
  · intro hscan reader entries hentries
    rw [hparse]
    exact returned_of_scannable h hscan hentries

lemma parseSpecs_returns_iff (h : Consists "spec" output before blocks) :
    ReturnsEntries parseSpecs parseSingleSpec output blocks ↔
      ∀ b ∈ blocks, b.Scannable "spec" := by
  refine returnsEntries_iff (fun _ => rfl) parseSingleSpec_echo ?_ h
  intro text text' heq
  exact congrArg SpecEntry.what heq

lemma parseSubtasks_returns_iff (h : Consists "subtask" output before blocks) :
    ReturnsEntries parseSubtasks parseSingleSubtask output blocks ↔
      ∀ b ∈ blocks, b.Scannable "subtask" := by
  refine returnsEntries_iff (fun _ => rfl) parseSingleSubtask_echo ?_ h
  intro text text' heq
  exact congrArg SubtaskEntry.what heq

end Returned

section RoundTrip

variable {tables : CharTables} {lib : Library}

/-- The files of a plan are read back with what the two commands share. -/
structure FilesReadBack (tables : CharTables) (lib : Library) (task : String)
    (specs : List (String × SpecEntry)) (subtasks : List (String × SubtaskEntry)) : Prop where
  roadmap : load lib decodeRoadmap (formatRoadmap tables task specs) = some (roadmapOf task specs)
  specs : ∀ spec ∈ specs,
    load lib decodeStepSpec (formatSpec tables spec.2) = some (stepSpecOf spec.2)
  subtasks : ∀ subtask ∈ subtasks,
    load lib decodeSubtaskSpec (formatSubtask tables subtask.2) = some (subtaskSpecOf subtask.2)

/-- Every string has only characters that the debug form leaves to TOML, and every name can stand
in quotes. -/
structure PlainPlan (tables : CharTables) (task : String) (specs : List (String × SpecEntry))
    (subtasks : List (String × SubtaskEntry)) : Prop where
  task : plain tables task = true
  names : ∀ spec ∈ specs, plain tables spec.1 = true ∧ quotable spec.1
  specs : ∀ spec ∈ specs, spec.2.plain tables = true
  subtasks : ∀ subtask ∈ subtasks, subtask.2.plain tables = true

lemma filesReadBack_iff (hlib : lib.ReadsToml) (task : String) (specs : List (String × SpecEntry))
    (subtasks : List (String × SubtaskEntry)) :
    FilesReadBack tables lib task specs subtasks ↔ PlainPlan tables task specs subtasks := by
  constructor
  · intro h
    obtain ⟨htask, hsteps⟩ := (load_formatRoadmap hlib task specs).mp h.roadmap
    refine ⟨htask, fun spec hspec => ⟨(hsteps spec hspec).name, (hsteps spec hspec).quotable⟩,
      fun spec hspec => ?_, fun subtask hsubtask => ?_⟩
    · have hload := h.specs spec hspec
      rw [load_formatSpec hlib] at hload
      by_contra hplain
      rw [if_neg hplain] at hload
      cases hload
    · have hload := h.subtasks subtask hsubtask
      rw [load_formatSubtask hlib] at hload
      by_contra hplain
      rw [if_neg hplain] at hload
      cases hload
  · intro h
    refine ⟨(load_formatRoadmap hlib task specs).mpr ⟨h.task, fun spec hspec => ?_⟩,
      fun spec hspec => ?_, fun subtask hsubtask => ?_⟩
    · obtain ⟨hname, hquotable⟩ := h.names spec hspec
      have hplain := h.specs spec hspec
      simp only [SpecEntry.plain, Bool.and_eq_true] at hplain
      exact ⟨hname, hquotable, hplain.1.1.1.1.1.1.1, hplain.1.2⟩
    · rw [load_formatSpec hlib, if_pos (h.specs spec hspec)]
    · rw [load_formatSubtask hlib, if_pos (h.subtasks subtask hsubtask)]

/-- A plan goes through its files and its blocks are all taken exactly when the plan is plain and
no block has a line, or a name, that the scanner takes for something else. -/
theorem plan_roundTrip_iff (hlib : lib.ReadsToml) (task : String)
    (specs : List (String × SpecEntry)) (subtasks : List (String × SubtaskEntry))
    {specOutput subtaskOutput : String} {before before' : List String}
    {specBlocks subtaskBlocks : List Block}
    (hspecs : Consists "spec" specOutput before specBlocks)
    (hsubtasks : Consists "subtask" subtaskOutput before' subtaskBlocks) :
    FilesReadBack tables lib task specs subtasks ∧
        ReturnsEntries parseSpecs parseSingleSpec specOutput specBlocks ∧
        ReturnsEntries parseSubtasks parseSingleSubtask subtaskOutput subtaskBlocks ↔
      PlainPlan tables task specs subtasks ∧ (∀ b ∈ specBlocks, b.Scannable "spec") ∧
        ∀ b ∈ subtaskBlocks, b.Scannable "subtask" := by
  rw [filesReadBack_iff hlib, parseSpecs_returns_iff hspecs, parseSubtasks_returns_iff hsubtasks]

/-- The tables for the characters up to the combining accents. -/
def latinTables : CharTables where
  isPrintable c := (32 ≤ c.toNat && c.toNat < 127) || (161 ≤ c.toNat && c.toNat ≠ 173)
  isGraphemeExtended c := 768 ≤ c.toNat && c.toNat < 880
  not_control := by
    intro c h
    have hrange : ¬ c.toNat < 32 ∧ c.toNat ≠ 127 := by
      simp only [Bool.or_eq_true, Bool.and_eq_true, decide_eq_true_eq] at h
      omega
    simp [isControl, hrange]

/-- A reader of the part of TOML that the commands write. -/
def plainReader : Library where
  fromStr text :=
    match TomlText.read text with
    | .complete d => .ok d.assemble
    | .malformed => .error "malformed"
    | .stopped _ => .error "not written so"

lemma plainReader_reads : plainReader.ReadsToml where
  complete := by
    intro text d h
    simp only [plainReader, h]
  malformed := by
    intro text h
    simp only [plainReader, h]
    exact ⟨_, rfl⟩
  stopped := by
    intro text d doc h hdoc
    simp only [plainReader, h] at hdoc
    cases hdoc

def loginSpec : SpecEntry :=
  ⟨1, "Login form", "Users have accounts", some "Post \"name\" and\n\"token\"", none, none, none,
    ["database"], none⟩

def loginSubtask : SubtaskEntry :=
  ⟨1, some "src/login.rs", "The handler", none, none, none, none, none⟩

def specAnswer : String := "```toml\n[spec.login]\nwhat = \"Login form\"\nwhy = \"Accounts\"\n```\n"

def subtaskAnswer : String := "[subtask.handler]\nwhat = \"The handler\"\n"

theorem plan_roundTrip_login :
    FilesReadBack latinTables plainReader "Add accounts" [("login", loginSpec)]
        [("handler", loginSubtask)] ∧
      ReturnsEntries parseSpecs parseSingleSpec specAnswer
        [⟨"login", "[spec.login]", ["what = \"Login form\"", "why = \"Accounts\""], ["```"]⟩] ∧
      ReturnsEntries parseSubtasks parseSingleSubtask subtaskAnswer
        [⟨"handler", "[subtask.handler]", ["what = \"The handler\""], []⟩] := by
  have hspecs : Consists "spec" specAnswer ["```toml"]
      [⟨"login", "[spec.login]", ["what = \"Login form\"", "why = \"Accounts\""], ["```"]⟩] := by
    refine ⟨List.forall_mem_singleton.mpr rfl, List.forall_mem_singleton.mpr ⟨rfl, ?_⟩,
      by decide +kernel⟩
    exact List.forall_mem_singleton.mpr (Or.inl rfl)
  have hsubtasks : Consists "subtask" subtaskAnswer []
      [⟨"handler", "[subtask.handler]", ["what = \"The handler\""], []⟩] :=
    ⟨nofun, List.forall_mem_singleton.mpr ⟨rfl, nofun⟩, by decide +kernel⟩
  rw [plan_roundTrip_iff plainReader_reads "Add accounts" [("login", loginSpec)]
    [("handler", loginSubtask)] hspecs hsubtasks]
  refine ⟨⟨by decide, ?_, ?_, ?_⟩, ?_, ?_⟩
  · exact List.forall_mem_singleton.mpr ⟨by decide, by decide⟩
  · exact List.forall_mem_singleton.mpr (by decide)
  · exact List.forall_mem_singleton.mpr (by decide)
  · exact List.forall_mem_singleton.mpr ⟨by decide, by decide, by decide, by decide⟩
  · exact List.forall_mem_singleton.mpr ⟨by decide, by decide, by decide, by decide⟩

def fencedBlock : Block :=
  ⟨"usage", "[spec.usage]",
    ["what = \"Usage\"", "why = \"\"\"", "```", "lok run", "```", "\"\"\""], []⟩

/-- An accent of its own in the task, a quote in a name, and a fence inside a string. -/
theorem plans_not_read_back :
    plainReader.ReadsToml ∧
      ¬ FilesReadBack latinTables plainReader "Rename cafe\u0301" [] [] ∧
      ¬ FilesReadBack latinTables plainReader "Add accounts" [("\"log.in\"", loginSpec)] [] ∧
      Consists "spec" (unlines fencedBlock.lines) [] [fencedBlock] ∧
      ¬ ReturnsEntries parseSpecs parseSingleSpec (unlines fencedBlock.lines) [fencedBlock] := by
  have hconsists : Consists "spec" (unlines fencedBlock.lines) [] [fencedBlock] :=
    ⟨nofun, List.forall_mem_singleton.mpr ⟨rfl, nofun⟩, by decide +kernel⟩
  refine ⟨plainReader_reads, fun h => ?_, fun h => ?_, hconsists, fun h => ?_⟩
  · have hplain := (filesReadBack_iff plainReader_reads _ _ _).mp h
    exact absurd hplain.task (by decide)
  · have hplain := (filesReadBack_iff plainReader_reads _ _ _).mp h
    exact absurd (hplain.names _ List.mem_cons_self).2 (by decide)
  · have hscan := (parseSpecs_returns_iff hconsists).mp h fencedBlock List.mem_cons_self
    exact absurd (hscan.fences "```" (by simp [fencedBlock])) (by decide)

/-- The lines of a string that look like fences are dropped from it. -/
example : scanBlocks "spec" some (unlines fencedBlock.lines) =
    [("usage", "what = \"Usage\"\nwhy = \"\"\"\nlok run\n\"\"\"\n")] := by
  decide +kernel

end RoundTrip

end Loker.SpecBlocks
