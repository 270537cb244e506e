import Loker.ByteLines
import Loker.TextOps

/-! The trace of a run on its detail page and in the event stream that follows it: rendering,
reading from an offset, and the connections of one viewer. -/

namespace Loker.TraceStream

open ByteLines TextOps

section Reader

/-- `str::trim` leaves nothing of the text. -/
def isBlank : Bytes → Bool
  | [] => true
  | 0xC2 :: b :: bs => (b = 0x85 || b = 0xA0) && isBlank bs
  | 0xE1 :: b :: c :: bs => (b = 0x9A && c = 0x80) && isBlank bs
  | 0xE2 :: b :: c :: bs =>
      ((b = 0x80 && (c ≤ 0x8A || c = 0xA8 || c = 0xA9 || c = 0xAF)) || (b = 0x81 && c = 0x9F)) &&
        isBlank bs
  | 0xE3 :: b :: c :: bs => (b = 0x80 && c = 0x80) && isBlank bs
  | b :: bs => ((9 ≤ b && b ≤ 13) || b = 32) && isBlank bs

/-- The JSON values of a trace and what is read of them. -/
class TraceJson (J : Type) where
  fromStr : Bytes → Option J
  get : J → String → Option J
  asStr : J → Option String
  toText : J → String
  fromStr_blank : ∀ text, isBlank text = true → fromStr text = none
  fromStr_return : ∀ text, fromStr (text ++ [13]) = fromStr text

structure TraceEventDisplay where
  timestamp : String
  eventType : String
  summary : String
  deriving DecidableEq, Repr

def byteLength (s : String) : ℕ := (s.toList.map Char.utf8Size).sum

/-- `&s[..120]` with an ellipsis; nothing stands for a panic inside a character. -/
def shortened (s : String) : Option String :=
  if 120 < byteLength s then
    if byteLength (truncateUtf8 s 120) = 120 then some (truncateUtf8 s 120 ++ "…") else none
  else some s

variable {J : Type} [TraceJson J]

/-- The value of the first key or, without it, of the second one. -/
def getOr (json : J) (key other : String) : Option J :=
  (TraceJson.get json key).or (TraceJson.get json other)

/-- What a trace event looks like on the page. -/
def display (json : J) : Option TraceEventDisplay :=
  let timestamp := ((getOr json "timestamp" "time").bind TraceJson.asStr).getD ""
  let eventType := ((getOr json "event_type" "type").bind TraceJson.asStr).getD "event"
  match getOr json "summary" "message" with
  | some value => some ⟨timestamp, eventType, (TraceJson.asStr value).getD ""⟩
  | none => (shortened (TraceJson.toText json)).map fun summary => ⟨timestamp, eventType, summary⟩

/-- The outer nothing is a panic. -/
def parseTraceLine (J : Type) [TraceJson J] (line : Bytes) : Option (Option TraceEventDisplay) :=
  if isBlank line then some none
  else
    match (TraceJson.fromStr line : Option J) with
    | none => some none
    | some json => (display json).map some

/-- A line without the carriage return before its newline. -/
def stripReturn (line : Bytes) : Bytes := if line.getLast? = some 13 then line.dropLast else line

/-- `str::lines`: a last line needs no newline. -/
def textLines (content : Bytes) : List Bytes :=
  (completeLines content).map stripReturn ++
    if partialLine content = [] then [] else [partialLine content]

/-- The last `n` lines that are JSON; nothing stands for a panic. -/
def parseTraceLines (J : Type) [TraceJson J] (content : Bytes) (n : ℕ) :
    Option (List TraceEventDisplay) :=
  let lines := textLines content
  ((lines.drop (lines.length - n)).mapM (parseTraceLine J)).map (·.filterMap id)

/-- The place of the last newline. -/
def lastNewline : Bytes → Option ℕ
  | [] => none
  | b :: bs =>
      match lastNewline bs with
      | some pos => some (pos + 1)
      | none => if b = newline then some 0 else none

/-- The loop over the complete part, with the beginning of the current line. -/
def collectLines : ℕ → Bytes → Bytes → List (ℕ × Bytes) × ℕ
  | start, _, [] => ([], start)
  | start, line, b :: bs =>
      if b = newline then
        let rest := collectLines (start + line.length + 1) [] bs
        (if isBlank (fromUtf8Lossy line) then rest.1 else (start, fromUtf8Lossy line) :: rest.1,
          rest.2)
      else collectLines start (line ++ [b]) bs

def readFromOffset (file : Bytes) (offset : ℕ) : List (ℕ × Bytes) × ℕ :=
  if file.length ≤ offset then ([], offset)
  else
    let buffer := file.drop offset
    match lastNewline buffer with
    | some pos => collectLines offset [] (buffer.take (pos + 1))
    | none => ([], offset)

end Reader

section Routes

variable {J : Type} [TraceJson J]

/-- The events and the offset of the detail page; text that is not UTF-8 counts as none, and a
panic leaves the defaults. -/
def runDetail (J : Type) [TraceJson J] (n : ℕ) (file : Bytes) : List TraceEventDisplay × ℕ :=
  let content := if isUtf8 file then file else []
  match parseTraceLines J content n with
  | some events => (events, ((lastNewline content).map (· + 1)).getD 0)
  | none => ([], 0)

structure TraceSseEvent (J : Type) where
  eventId : String
  data : J
  deriving DecidableEq

def formatLineAsSse (eventId : String) (line : Bytes) : Option (TraceSseEvent J) :=
  if isBlank line then none else (TraceJson.fromStr line).map (⟨eventId, ·⟩)

/-- What the stream sends: an event, the text for a line that is no JSON, or the end. -/
inductive Message (J : Type) where
  | trace (event : TraceSseEvent J)
  | unparsed
  | finished
  deriving DecidableEq

/-- A stream connection: whether a watcher follows the file, how far it has been read and what is
on its way to the viewer. -/
structure Connection (J : Type) where
  watching : Bool
  offset : ℕ
  queue : List (Message J)

/-- `str::parse::<u64>`. -/
def parseU64 (s : String) : Option ℕ := do
  let digits := if s.toList.head? = some '+' then s.toList.tail else s.toList
  let values ← digits.mapM digitValue
  let n := values.foldl (fun acc d => 10 * acc + d) 0
  if values ≠ [] ∧ n < 2 ^ 64 then some n else none

/-- The query parameter first, then the id of the last event, then the end of the file. -/
def initialOffset (query : Option ℕ) (lastEventId : Option String) (length : ℕ) : ℕ :=
  match query with
  | some offset => offset
  | none => (lastEventId.bind parseU64).getD length

def liveMessage (x : ℕ × Bytes) : Message J :=
  match formatLineAsSse x.1.repr x.2 with
  | some event => .trace event
  | none => .unparsed

def pendingMessage (x : ℕ × Bytes) : Option (Message J) :=
  (formatLineAsSse x.1.repr x.2).map .trace

/-- A new connection; that of a finished run gets what is there and the end. -/
def runTraceSse (file : Bytes) (terminal : Bool) (query : Option ℕ) (lastEventId : Option String) :
    Connection J :=
  let offset := initialOffset query lastEventId file.length
  if terminal then
    let pending := readFromOffset file offset
    ⟨false, pending.2, pending.1.filterMap pendingMessage ++ [.finished]⟩
  else ⟨true, offset, []⟩

/-- One round of the watcher. -/
def watch (file : Bytes) (connection : Connection J) : Connection J :=
  let found := readFromOffset file connection.offset
  { connection with
    offset := found.2
    queue := connection.queue ++ found.1.map liveMessage }

end Routes

section Session

variable {J : Type} [TraceJson J]

/-- The detail page that one viewer loads: the file as it was read, and, once the page is rendered,
whether the run had a summary by then. -/
structure Page where
  content : Bytes
  isTerminal : Option Bool

/-- The trace file, whether the run has a summary, and one viewer. -/
structure Session (J : Type) where
  file : Bytes
  terminal : Bool
  page : Option Page
  connection : Option (Connection J)
  received : List (TraceSseEvent J)
  lastEventId : Option String
  closed : Bool

inductive Action where
  | append (chunk : Bytes)
  | finish
  | load
  | render
  | connect
  | read
  | receive
  | disconnect
  deriving DecidableEq

/-- The viewer's side of a message; after the end the page closes the stream. -/
def receiveMessage (s : Session J) (connection : Connection J) (rest : List (Message J)) :
    Message J → Session J
  | .trace event =>
      { s with
        connection := some { connection with queue := rest }
        received := s.received ++ [event]
        lastEventId := some event.eventId }
  | .unparsed => { s with connection := some { connection with queue := rest } }
  | .finished => { s with connection := none, closed := true }

/-- The page opens a stream unless the run was finished; every connection has its address. -/
def step (n : ℕ) (s : Session J) : Action → Option (Session J)
  | .append chunk => some { s with file := s.file ++ chunk }
  | .finish => some { s with terminal := true }
  | .load => if s.page.isSome then none else some { s with page := some ⟨s.file, none⟩ }
  | .render =>
      match s.page with
      | none => none
      | some page =>
          if page.isTerminal.isSome then none
          else some { s with page := some { page with isTerminal := some s.terminal } }
  | .connect =>
      match s.page with
      | none => none
      | some page =>
          if page.isTerminal ≠ some false ∨ s.connection ≠ none ∨ s.closed = true then none
          else some { s with
            connection := some (runTraceSse s.file s.terminal
              (some (runDetail J n page.content).2) s.lastEventId) }
  | .read =>
      match s.connection with
      | some connection =>
          if connection.watching then
            some { s with connection := some (watch s.file connection) }
          else none
      | none => none
  | .receive =>
      match s.connection with
      | some connection =>
          match connection.queue with
          | [] => none
          | message :: rest => some (receiveMessage s connection rest message)
      | none => none
  | .disconnect => some { s with connection := none }

def initial (J : Type) (file : Bytes) : Session J := ⟨file, false, none, none, [], none, false⟩

/-- The states after actions that the condition admits in the state before them. -/
inductive Reached (n : ℕ) (admits : Session J → Action → Prop) : Session J → Prop
  | start (file : Bytes) : Reached n admits (initial J file)
  | step {s s' : Session J} {a : Action} (before : Reached n admits s) (admitted : admits s a)
      (next : step n s a = some s') : Reached n admits s'

end Session

section Shown

variable (J : Type) [TraceJson J]

/-- The JSON value of a line. -/
def lineJson (line : Bytes) : Option J := TraceJson.fromStr (fromUtf8Lossy line)

/-- The event for a line at its position, if it is JSON. -/
def eventAt (x : ℕ × Bytes) : Option (TraceSseEvent J) := (lineJson J x.2).map (⟨x.1.repr, ·⟩)

def jsonEvents (start : ℕ) (lines : List Bytes) : List (TraceSseEvent J) :=
  (placed start lines).filterMap (eventAt J)

/-- The values of the complete JSON lines among the last `n` lines. -/
def tailValues (n : ℕ) (content : Bytes) : List J :=
  ((completeLines content).drop ((textLines content).length - n)).filterMap (lineJson J)

/-- The events for the JSON lines that were not complete when the page was rendered. -/
def laterEvents (content file : Bytes) : List (TraceSseEvent J) :=
  jsonEvents J (completeLength content) (completeLines (file.drop (completeLength content)))

variable {J}

/-- The page shows the complete lines of its tail; the events received are those of the later
lines in their order, each once, and all of them when the connection has nothing left to read or
to deliver, and when nothing more comes because the run is over for the page. -/
structure ShownOnce (n : ℕ) (s : Session J) : Prop where
  unloaded : s.page = none → s.received = []
  rendered : ∀ page, s.page = some page →
    (runDetail J n page.content).1.map some = (tailValues J n page.content).map display
  streamed : ∀ page, s.page = some page → s.received <+: laterEvents J page.content s.file
  once : (s.received.map TraceSseEvent.eventId).Nodup
  caughtUp : ∀ page connection, s.page = some page → s.connection = some connection →
    connection.offset = completeLength s.file → (∀ e, .trace e ∉ connection.queue) →
      s.received = laterEvents J page.content s.file
  ended : ∀ page, s.page = some page → page.isTerminal = some true ∨ s.closed = true →
    s.received = laterEvents J page.content s.file

variable (J)

/-- The page can be rendered: the file is UTF-8, and no shown line is cut inside a character. -/
def Readable (n : ℕ) (content : Bytes) : Prop :=
  isUtf8 content = true ∧
    ∀ line ∈ (textLines content).drop ((textLines content).length - n), parseTraceLine J line ≠ none

/-- The partial line is no JSON, and a page that cannot be rendered misses no JSON line. -/
structure PageSafe (n : ℕ) (content : Bytes) : Prop where
  unfinished : Readable J n content →
    n = 0 ∨ (TraceJson.fromStr (partialLine content) : Option J) = none
  unread : ¬ Readable J n content → ∀ line ∈ completeLines content, lineJson J line = none

variable {J}

/-- The run is over for the viewer: the page was rendered so, or a stream of the finished run was
opened. -/
def OverFor (s : Session J) : Prop :=
  (∃ page, s.page = some page ∧ page.isTerminal = some true) ∨ s.closed = true ∨
    ∃ connection, s.connection = some connection ∧ connection.watching = false

/-- The page is read at a safe moment; it is not rendered as that of a finished run when it misses a
line; no connection is opened after an event came; and no line is completed once the run is over for
the viewer. -/
def Admitted (n : ℕ) (s : Session J) : Action → Prop
  | .append chunk => OverFor s →
      ∀ line ∈ completeLines (partialLine s.file ++ chunk), lineJson J line = none
  | .load => PageSafe J n s.file
  | .render => s.terminal = true →
      ∀ page, s.page = some page → laterEvents J page.content s.file = []
  | .connect => s.received = []
  | _ => True

end Shown

section Reading

variable {J : Type} [TraceJson J]

lemma lastNewline_append (a b : Bytes) :
    lastNewline (a ++ b) =
      match lastNewline b with
      | some pos => some (a.length + pos)
      | none => lastNewline a := by
  induction a with
  | nil => cases hb : lastNewline b <;> simp [lastNewline, hb]
  | cons c a ih =>
      rw [List.cons_append, lastNewline, ih]
      cases lastNewline b with
      | some pos =>
          simp only [List.length_cons, Option.some.injEq]
          omega
      | none => rfl

lemma lastNewline_eq (bytes : Bytes) :
    lastNewline bytes =
      if completeLines bytes = [] then none else some (completeLength bytes - 1) := by
  have hfree : ∀ line, newline ∉ line → lastNewline line = none := by
    intro line h
    induction line with
    | nil => rfl
    | cons b line ih =>
        have hb : b ≠ newline := fun heq => h (heq ▸ List.mem_cons_self)
        rw [lastNewline, ih fun hmem => h (List.mem_cons_of_mem _ hmem), if_neg hb]
  induction bytes using lines_induction with
  | unfinished line h => rw [hfree line h, completeLines_unfinished h, if_pos rfl]
  | line line bytes h ih =>
      rw [lastNewline_append, lastNewline, ih, completeLines_line h, completeLength_line h]
      by_cases hnone : completeLines bytes = []
      · have hzero : completeLength bytes = 0 := by rw [completeLength_eq, hnone]; rfl
        simp [hnone, hzero]
      · have hpos := completeLength_pos hnone
        simp only [hnone, if_false, if_neg (List.cons_ne_nil _ _), Option.some.injEq]
        omega

/-- The offset of the page is the end of its last complete line. -/
lemma lastNewline_getD (bytes : Bytes) :
    ((lastNewline bytes).map (· + 1)).getD 0 = completeLength bytes := by
  rw [lastNewline_eq]
  by_cases hnone : completeLines bytes = []
  · rw [if_pos hnone, completeLength_eq, hnone]
    rfl
  · have hpos := completeLength_pos hnone
    rw [if_neg hnone, Option.map_some, Option.getD_some]
    omega

/-- What the reader keeps of a line. -/
def kept (x : ℕ × Bytes) : Option (ℕ × Bytes) :=
  if isBlank (fromUtf8Lossy x.2) then none else some (x.1, fromUtf8Lossy x.2)

lemma collectLines_eq {line : Bytes} (h : newline ∉ line) (start : ℕ) (bytes : Bytes) :
    collectLines start line bytes =
      ((placed start (completeLines (line ++ bytes))).filterMap kept,
        start + completeLength (line ++ bytes)) := by
  induction bytes generalizing start line with
  | nil =>
      rw [List.append_nil, completeLines_unfinished h, completeLength_unfinished h]
      rfl
  | cons b bs ih =>
      rw [collectLines]
      by_cases hb : b = newline
      · subst hb
        have hrest : collectLines (start + line.length + 1) [] bs =
            ((placed (start + line.length + 1) (completeLines bs)).filterMap kept,
              start + line.length + 1 + completeLength bs) := ih List.not_mem_nil _
        rw [if_pos rfl, completeLines_line h, completeLength_line h, hrest, placed]
        refine Prod.ext ?_ (by simp only; omega)
        by_cases hblank : isBlank (fromUtf8Lossy line) = true
        · have hkept : kept (start, line) = none := if_pos hblank
          simp only [hblank, if_true, List.filterMap_cons_none hkept]
        · have hkept : kept (start, line) = some (start, fromUtf8Lossy line) := if_neg hblank
          simp only [hblank, List.filterMap_cons_some hkept]
          rfl
      · have hline : newline ∉ line ++ [b] := by
          simp [h, Ne.symm hb]
        rw [if_neg hb, ih hline, List.append_assoc, List.singleton_append]

/-- Reading gives the complete lines from the offset on and ends behind them. -/
lemma readFromOffset_eq (file : Bytes) (offset : ℕ) :
    readFromOffset file offset =
      ((placed offset (completeLines (file.drop offset))).filterMap kept,
        offset + completeLength (file.drop offset)) := by
  have hnothing : completeLines (file.drop offset) = [] →
      ((placed offset (completeLines (file.drop offset))).filterMap kept,
        offset + completeLength (file.drop offset)) = ([], offset) := by
    intro hnone
    rw [completeLength_eq, hnone]
    rfl
  unfold readFromOffset
  split
  · next hend =>
    rw [hnothing]
    rw [List.drop_eq_nil_of_le hend, completeLines_nil]
  · dsimp only
    rw [lastNewline_eq]
    by_cases hnone : completeLines (file.drop offset) = []
    · rw [if_pos hnone, hnothing hnone]
    · have hpos := completeLength_pos hnone
      have hlength : completeLength (file.drop offset) - 1 + 1 =
          completeLength (file.drop offset) := by omega
      have hlines := newline_not_mem_completeLines (file.drop offset)
      rw [if_neg hnone]
      dsimp only
      rw [hlength, take_completeLength, collectLines_eq (List.not_mem_nil), List.nil_append,
        completeLines_unlines hlines, completeLength_eq, completeLength_eq,
        completeLines_unlines hlines]

end Reading

section Rendering

variable {J : Type} [TraceJson J] {n : ℕ} {content file : Bytes}

lemma lineJson_of_utf8 {line : Bytes} (h : isUtf8 line = true) :
    lineJson J line = TraceJson.fromStr line := by
  rw [lineJson, fromUtf8Lossy_eq h]

lemma fromStr_stripReturn (line : Bytes) :
    (TraceJson.fromStr (stripReturn line) : Option J) = TraceJson.fromStr line := by
  unfold stripReturn
  split
  · next hlast =>
    have hline : line.dropLast ++ [13] = line := List.dropLast_append_getLast? 13 hlast
    conv_rhs => rw [← hline, TraceJson.fromStr_return]
  · rfl

/-- A line on the page is its JSON value, displayed. -/
lemma parseTraceLine_eq (line : Bytes) :
    parseTraceLine J line =
      match (TraceJson.fromStr line : Option J) with
      | none => some none
      | some json => (display json).map some := by
  unfold parseTraceLine
  split
  · next hblank => rw [TraceJson.fromStr_blank line hblank]
  · rfl

lemma mapM_parse {lines : List Bytes} (h : ∀ line ∈ lines, parseTraceLine J line ≠ none) :
    ∃ events, (lines.mapM (parseTraceLine J)).map (·.filterMap id) = some events ∧
      events.map some = (lines.filterMap (TraceJson.fromStr : Bytes → Option J)).map display := by
  induction lines with
  | nil => exact ⟨[], rfl, rfl⟩
  | cons line lines ih =>
      obtain ⟨hline, hlines⟩ := List.forall_mem_cons.mp h
      obtain ⟨events, hevents, hmap⟩ := ih hlines
      obtain ⟨found, hfound, rfl⟩ := Option.map_eq_some_iff.mp hevents
      obtain ⟨shown, hshown⟩ := Option.ne_none_iff_exists'.mp hline
      refine ⟨(shown :: found).filterMap id, ?_, ?_⟩
      · rw [List.mapM_cons, hshown, hfound]
        rfl
      · rw [parseTraceLine_eq] at hshown
        cases hjson : (TraceJson.fromStr line : Option J) with
        | none =>
            simp only [hjson, Option.some.injEq] at hshown
            subst hshown
            rw [List.filterMap_cons_none rfl, List.filterMap_cons_none hjson, hmap]
        | some json =>
            simp only [hjson] at hshown
            obtain ⟨event, hevent, rfl⟩ := Option.map_eq_some_iff.mp hshown
            have hcons : (some event :: found).filterMap id = event :: found.filterMap id := rfl
            rw [hcons, List.filterMap_cons_some hjson, List.map_cons, List.map_cons, hmap, hevent]

/-- What is shown of the last lines. -/
lemma parseTraceLines_eq (hread : Readable J n content) :
    ∃ events, parseTraceLines J content n = some events ∧
      events.map some = (((textLines content).drop ((textLines content).length - n)).filterMap
        (TraceJson.fromStr : Bytes → Option J)).map display :=
  mapM_parse hread.2

/-- Without a JSON partial line the page's tail has the values of its complete lines. -/
lemma tailValues_eq (hread : Readable J n content) (hsafe : PageSafe J n content) :
    ((textLines content).drop ((textLines content).length - n)).filterMap
      (TraceJson.fromStr : Bytes → Option J) = tailValues J n content := by
  obtain ⟨hlines, -⟩ := isUtf8_lines hread.1
  have hcomplete : ∀ lines : List Bytes, (∀ line ∈ lines, isUtf8 line = true) →
      (lines.map stripReturn).filterMap (TraceJson.fromStr : Bytes → Option J) =
        lines.filterMap (lineJson J) := by
    intro lines h
    rw [List.filterMap_map]
    refine List.filterMap_congr fun line hline => ?_
    rw [Function.comp_apply, fromStr_stripReturn, lineJson_of_utf8 (h line hline)]
  rcases hsafe.unfinished hread with rfl | hpartial
  · have hle : (completeLines content).length ≤ (textLines content).length - 0 := by
      simp [textLines]
    rw [tailValues, List.drop_eq_nil_of_le (by simp), List.drop_eq_nil_of_le hle]
    rfl
  · have hrest : (if partialLine content = [] then [] else [partialLine content]).filterMap
        (TraceJson.fromStr : Bytes → Option J) = [] := by
      split
      · rfl
      · rw [List.filterMap_cons_none hpartial, List.filterMap_nil]
    have hdropped : ∀ k, ((if partialLine content = [] then [] else [partialLine content]).drop
        k).filterMap (TraceJson.fromStr : Bytes → Option J) = [] := by
      intro k
      rw [List.filterMap_eq_nil_iff] at hrest ⊢
      exact fun line hline => hrest line (List.mem_of_mem_drop hline)
    generalize hk : (textLines content).length - n = k
    rw [tailValues, hk, textLines, List.drop_append, List.filterMap_append, hdropped,
      List.append_nil, ← List.map_drop]
    exact hcomplete _ fun line hline => hlines line (List.mem_of_mem_drop hline)

lemma mapM_parse_none {lines : List Bytes} (h : ∃ line ∈ lines, parseTraceLine J line = none) :
    lines.mapM (parseTraceLine J) = none := by
  obtain ⟨line, hmem, hnone⟩ := h
  induction lines with
  | nil => cases hmem
  | cons first lines ih =>
      rw [List.mapM_cons]
      rcases List.mem_cons.mp hmem with rfl | hmem
      · rw [hnone]
        rfl
      · rw [ih hmem]
        cases parseTraceLine J first <;> rfl

lemma runDetail_unread (h : ¬ Readable J n content) : runDetail J n content = ([], 0) := by
  unfold runDetail
  by_cases hutf8 : isUtf8 content = true
  · have hpanic : ∃ line ∈ (textLines content).drop ((textLines content).length - n),
        parseTraceLine J line = none := by
      by_contra hnone
      exact h ⟨hutf8, fun line hline hpanic => hnone ⟨line, hline, hpanic⟩⟩
    simp only [hutf8, if_true, parseTraceLines, mapM_parse_none hpanic, Option.map_none]
  · have hnothing : parseTraceLines J [] n = some [] := by simp [parseTraceLines, textLines]
    simp [hutf8, hnothing, lastNewline]

/-- A page loaded at a safe moment shows the complete lines of its tail. -/
lemma rendered_of_safe (hsafe : PageSafe J n content) :
    (runDetail J n content).1.map some = (tailValues J n content).map display := by
  by_cases hread : Readable J n content
  · obtain ⟨events, hparse, hevents⟩ := parseTraceLines_eq hread
    have hrun : (runDetail J n content).1 = events := by
      simp only [runDetail, hread.1, if_true, hparse]
    rw [hrun, hevents, tailValues_eq hread hsafe]
  · have hnone : tailValues J n content = [] := by
      rw [tailValues, List.filterMap_eq_nil_iff]
      exact fun line hline => hsafe.unread hread line (List.mem_of_mem_drop hline)
    rw [runDetail_unread hread, hnone]
    rfl

lemma offset_of_readable (hread : Readable J n content) :
    (runDetail J n content).2 = completeLength content := by
  obtain ⟨events, hparse, -⟩ := parseTraceLines_eq hread
  simp only [runDetail, hread.1, if_true, hparse, lastNewline_getD]

lemma jsonEvents_append (start : ℕ) (lines lines' : List Bytes) :
    jsonEvents J start (lines ++ lines') =
      jsonEvents J start lines ++ jsonEvents J (start + (unlines lines).length) lines' := by
  rw [jsonEvents, placed_append, List.filterMap_append]
  rfl

/-- Every complete JSON line of the file was complete when the page was rendered or is a later
one. -/
lemma jsonEvents_split (h : content <+: file) :
    jsonEvents J 0 (completeLines file) =
      jsonEvents J 0 (completeLines content) ++ laterEvents J content file := by
  obtain ⟨rest, rfl⟩ := h
  have hdrop : (content ++ rest).drop (completeLength content) = partialLine content ++ rest := by
    rw [List.drop_append_of_le_length (completeLength_le content), drop_completeLength]
  rw [laterEvents, hdrop, completeLines_append, jsonEvents_append, ← completeLength_eq, Nat.zero_add]

lemma jsonEvents_of_noJson {lines : List Bytes} (start : ℕ)
    (h : ∀ line ∈ lines, lineJson J line = none) : jsonEvents J start lines = [] := by
  induction lines generalizing start with
  | nil => rfl
  | cons line lines ih =>
      obtain ⟨hline, hrest⟩ := List.forall_mem_cons.mp h
      have hevent : eventAt J (start, line) = none := by simp [eventAt, hline]
      rw [jsonEvents, placed, List.filterMap_cons_none hevent]
      exact ih _ hrest

/-- From the offset of a page loaded at a safe moment on, the stream has the later lines. -/
lemma events_from_offset (hsafe : PageSafe J n content) (h : content <+: file) :
    jsonEvents J (runDetail J n content).2 (completeLines (file.drop (runDetail J n content).2)) =
      laterEvents J content file := by
  by_cases hread : Readable J n content
  · rw [offset_of_readable hread]
    rfl
  · have hnone : jsonEvents J 0 (completeLines content) = [] :=
      jsonEvents_of_noJson 0 (hsafe.unread hread)
    rw [runDetail_unread hread, List.drop_zero, jsonEvents_split h, hnone, List.nil_append]

lemma offset_le (content : Bytes) : (runDetail J n content).2 ≤ content.length := by
  by_cases hread : Readable J n content
  · rw [offset_of_readable hread]
    exact completeLength_le content
  · rw [runDetail_unread hread]
    exact Nat.zero_le _

end Rendering

section Following

variable {J : Type} [TraceJson J] {n : ℕ} {file : Bytes} {start stop : ℕ}

/-- The events among the messages. -/
def traces (queue : List (Message J)) : List (TraceSseEvent J) :=
  queue.filterMap fun
    | .trace event => some event
    | _ => none

omit [TraceJson J] in
lemma traces_append (queue queue' : List (Message J)) :
    traces (queue ++ queue') = traces queue ++ traces queue' := List.filterMap_append

/-- A line that the reader drops is no JSON. -/
lemma eventAt_of_not_kept {x : ℕ × Bytes} (h : kept x = none) : eventAt J x = none := by
  unfold kept at h
  split at h
  · next hblank =>
    have hjson : lineJson J x.2 = none := TraceJson.fromStr_blank _ hblank
    simp [eventAt, hjson]
  · cases h

lemma formatLineAsSse_of_kept {x y : ℕ × Bytes} (h : kept x = some y) :
    formatLineAsSse y.1.repr y.2 = eventAt J x := by
  unfold kept at h
  split at h
  · cases h
  · next hblank =>
    cases h
    simp only [formatLineAsSse, hblank]
    rfl

/-- What the watcher sends of the lines it read. -/
lemma traces_live (start : ℕ) (lines : List Bytes) :
    traces (((placed start lines).filterMap kept).map liveMessage) = jsonEvents J start lines := by
  unfold jsonEvents
  induction placed start lines with
  | nil => rfl
  | cons x places ih =>
      cases hkept : kept x with
      | none =>
          rw [List.filterMap_cons_none hkept, List.filterMap_cons_none (eventAt_of_not_kept hkept), ih]
      | some y =>
          have hformat := formatLineAsSse_of_kept (J := J) hkept
          rw [List.filterMap_cons_some hkept, List.map_cons, liveMessage, hformat]
          cases hevent : eventAt J x with
          | none =>
              rw [List.filterMap_cons_none hevent, ← ih]
              rfl
          | some event =>
              rw [List.filterMap_cons_some hevent, ← ih]
              rfl

/-- What a finished run's stream sends of them. -/
lemma traces_pending (start : ℕ) (lines : List Bytes) :
    traces (((placed start lines).filterMap kept).filterMap pendingMessage) =
      jsonEvents J start lines := by
  rw [← traces_live, traces, traces, List.filterMap_filterMap, List.filterMap_map]
  refine List.filterMap_congr fun x _ => ?_
  simp only [pendingMessage, liveMessage, Function.comp_apply]
  cases (formatLineAsSse x.1.repr x.2 : Option (TraceSseEvent J)) <;> rfl

/-- The bytes from `start` up to `stop`. -/
def between (file : Bytes) (start stop : ℕ) : Bytes := (file.drop start).take (stop - start)

/-- The connection has read whole lines from `start` on, and their events have come or are on
their way. -/
structure Following (file : Bytes) (start : ℕ) (received : List (TraceSseEvent J))
    (connection : Connection J) : Prop where
  started : start ≤ connection.offset
  inside : connection.offset ≤ file.length
  whole : partialLine (between file start connection.offset) = []
  events : received ++ traces connection.queue =
    jsonEvents J start (completeLines (between file start connection.offset))

lemma between_append (h : stop ≤ file.length) (chunk : Bytes) :
    between (file ++ chunk) start stop = between file start stop := by
  unfold between
  by_cases hle : start ≤ file.length
  · rw [List.drop_append_of_le_length hle, List.take_append_of_le_length]
    rw [List.length_drop]
    omega
  · have hzero : stop - start = 0 := by omega
    rw [hzero, List.take_zero, List.take_zero]

lemma drop_between (h : start ≤ stop) :
    between file start stop ++ file.drop stop = file.drop start := by
  have hdrop : file.drop stop = (file.drop start).drop (stop - start) := by
    rw [List.drop_drop]
    congr 1
    omega
  rw [hdrop, between, List.take_append_drop]

lemma length_between (h : start ≤ stop) (hstop : stop ≤ file.length) :
    (between file start stop).length = stop - start := by
  rw [between, List.length_take, List.length_drop]
  omega

/-- What was read up to a line's end and what is read from there on. -/
lemma jsonEvents_between (h : start ≤ stop) (hstop : stop ≤ file.length)
    (hwhole : partialLine (between file start stop) = []) (rest : Bytes) :
    jsonEvents J start (completeLines (between file start stop ++ rest)) =
      jsonEvents J start (completeLines (between file start stop)) ++
        jsonEvents J stop (completeLines rest) := by
  have hlength : start + (unlines (completeLines (between file start stop))).length = stop := by
    have hsplit := unlines_completeLines (between file start stop)
    rw [hwhole, List.append_nil] at hsplit
    rw [hsplit, length_between h hstop]
    omega
  rw [completeLines_append, hwhole, List.nil_append, jsonEvents_append, hlength]

lemma Following.append {received : List (TraceSseEvent J)} {connection : Connection J}
    (h : Following file start received connection) (chunk : Bytes) :
    Following (file ++ chunk) start received connection := by
  have hsame : between (file ++ chunk) start connection.offset =
      between file start connection.offset := between_append h.inside chunk
  refine ⟨h.started, ?_, by rw [hsame, h.whole], by rw [hsame, h.events]⟩
  rw [List.length_append]
  exact h.inside.trans (Nat.le_add_right _ _)

/-- One more read: the complete lines after the offset. -/
lemma following_read (file : Bytes) (hstart : start ≤ stop) :
    between file start (stop + completeLength (file.drop stop)) =
      between file start stop ++ unlines (completeLines (file.drop stop)) := by
  have htake : (file.drop start).take (stop - start + completeLength (file.drop stop)) =
      between file start stop ++
        ((file.drop start).drop (stop - start)).take (completeLength (file.drop stop)) := by
    rw [between, List.take_add]
  have hdrop : (file.drop start).drop (stop - start) = file.drop stop := by
    rw [List.drop_drop]
    congr 1
    omega
  have hsub : stop + completeLength (file.drop stop) - start =
      stop - start + completeLength (file.drop stop) := by omega
  rw [between, hsub, htake, hdrop, take_completeLength]

lemma Following.read {received : List (TraceSseEvent J)} {connection : Connection J}
    {queue : List (Message J)} {watching : Bool}
    (h : Following file start received connection)
    (hqueue : traces queue = jsonEvents J connection.offset
      (completeLines (file.drop connection.offset))) :
    Following file start received
      ⟨watching, connection.offset + completeLength (file.drop connection.offset),
        connection.queue ++ queue⟩ := by
  have hlines := newline_not_mem_completeLines (file.drop connection.offset)
  have hread := following_read file h.started
  refine ⟨h.started.trans (Nat.le_add_right _ _), ?_, ?_, ?_⟩
  · have hle := completeLength_le (file.drop connection.offset)
    rw [List.length_drop] at hle
    have hinside := h.inside
    show connection.offset + completeLength (file.drop connection.offset) ≤ file.length
    omega
  · rw [hread, partialLine_append, h.whole, List.nil_append, partialLine_unlines hlines]
  · rw [hread, jsonEvents_between h.started h.inside h.whole, completeLines_unlines hlines,
      traces_append, ← List.append_assoc, h.events, hqueue]

/-- The events that have come are the first ones of all that the file has. -/
lemma Following.prefix_ {received : List (TraceSseEvent J)} {connection : Connection J}
    (h : Following file start received connection) :
    received ++ traces connection.queue <+: jsonEvents J start (completeLines (file.drop start)) := by
  rw [← drop_between h.started, jsonEvents_between h.started h.inside h.whole, h.events]
  exact List.prefix_append _ _

/-- With everything read and delivered they are all. -/
lemma Following.all {received : List (TraceSseEvent J)} {connection : Connection J}
    (h : Following file start received connection)
    (hend : connection.offset = completeLength file) (hqueue : traces connection.queue = []) :
    received = jsonEvents J start (completeLines (file.drop start)) := by
  have hevents := h.events
  rw [hqueue, List.append_nil] at hevents
  have hnothing : completeLines (file.drop connection.offset) = [] := by
    rw [hend, drop_completeLength, completeLines_unfinished (newline_not_mem_partialLine file)]
  rw [← drop_between h.started, jsonEvents_between h.started h.inside h.whole, hnothing, hevents]
  exact (List.append_nil _).symm

end Following

section Runs

variable {J : Type} [TraceJson J] {n : ℕ} {s s' : Session J} {content file : Bytes}

lemma laterEvents_append (h : content <+: file) (chunk : Bytes) :
    laterEvents J content file <+: laterEvents J content (file ++ chunk) := by
  have hle := (completeLength_le content).trans h.length_le
  rw [laterEvents, laterEvents, List.drop_append_of_le_length hle, completeLines_append,
    jsonEvents_append]
  exact List.prefix_append _ _

lemma laterEvents_append_noJson (h : content <+: file) {chunk : Bytes}
    (hchunk : ∀ line ∈ completeLines (partialLine file ++ chunk), lineJson J line = none) :
    laterEvents J content (file ++ chunk) = laterEvents J content file := by
  have hle := (completeLength_le content).trans h.length_le
  have hpartial : partialLine (file.drop (completeLength content)) = partialLine file := by
    obtain ⟨rest, rfl⟩ := h
    rw [List.drop_append_of_le_length (completeLength_le content), drop_completeLength]
    exact (partialLine_append _ _).symm
  rw [laterEvents, laterEvents, List.drop_append_of_le_length hle, completeLines_append,
    jsonEvents_append, hpartial, jsonEvents_of_noJson _ hchunk, List.append_nil]

/-- No two lines have the same id. -/
lemma ids_nodup (start : ℕ) (lines : List Bytes) :
    ((jsonEvents J start lines).map TraceSseEvent.eventId).Nodup := by
  have hids : ∀ {x : ℕ × Bytes} {event : TraceSseEvent J}, eventAt J x = some event →
      event.eventId = x.1.repr := by
    intro x event h
    obtain ⟨json, -, rfl⟩ := Option.map_eq_some_iff.mp h
    rfl
  have hapart : (jsonEvents J start lines).Pairwise fun e e' => e.eventId ≠ e'.eventId := by
    refine (placed_pairwise start lines).filterMap _ fun x y hlt e he e' he' heq => ?_
    rw [hids he, hids he'] at heq
    exact absurd (repr_inj heq) (Nat.ne_of_lt hlt)
  exact List.pairwise_map.mpr hapart

/-- What holds along a run whose page was loaded at a safe moment and whose viewer never opened a
connection after an event. -/
structure Invariant (n : ℕ) (s : Session J) : Prop where
  unloaded : s.page = none → s.received = [] ∧ s.closed = false
  safe : ∀ page, s.page = some page → PageSafe J n page.content
  grown : ∀ page, s.page = some page → page.content <+: s.file
  streamed : ∀ page, s.page = some page → s.received <+: laterEvents J page.content s.file
  following : ∀ page connection, s.page = some page → s.connection = some connection →
    Following s.file (runDetail J n page.content).2 s.received connection
  live : ∀ connection, s.connection = some connection →
    (∃ page, s.page = some page ∧ page.isTerminal = some false) ∧ s.closed = false
  watched : ∀ connection, s.connection = some connection → connection.watching = true →
    .finished ∉ connection.queue
  closing : ∀ page connection, s.page = some page → s.connection = some connection →
    connection.watching = false → (∃ queue, connection.queue = queue ++ [.finished] ∧
      .finished ∉ queue) ∧ s.received ++ traces connection.queue = laterEvents J page.content s.file
  ended : ∀ page, s.page = some page → page.isTerminal = some true ∨ s.closed = true →
    s.received = laterEvents J page.content s.file

lemma invariant_initial (file : Bytes) : Invariant n (initial J file) where
  unloaded _ := ⟨rfl, rfl⟩
  safe page hpage := by cases hpage
  grown page hpage := by cases hpage
  streamed page hpage := by cases hpage
  following page connection hpage := by cases hpage
  live connection hopen := by cases hopen
  watched connection hopen := by cases hopen
  closing page connection hpage := by cases hpage
  ended page hpage := by cases hpage

/-- What a connection has delivered is a beginning of the later events. -/
lemma Invariant.delivered (h : Invariant n s) {page : Page} {connection : Connection J}
    (hpage : s.page = some page) (hconnection : s.connection = some connection) :
    s.received ++ traces connection.queue <+: laterEvents J page.content s.file := by
  have hprefix := (h.following page connection hpage hconnection).prefix_
  rwa [events_from_offset (h.safe page hpage) (h.grown page hpage)] at hprefix

lemma Invariant.append (h : Invariant n s) {chunk : Bytes} (ha : Admitted n s (.append chunk)) :
    Invariant n { s with file := s.file ++ chunk } where
  unloaded := h.unloaded
  safe := h.safe
  grown page hpage := (h.grown page hpage).trans (List.prefix_append _ _)
  streamed page hpage := (h.streamed page hpage).trans (laterEvents_append (h.grown page hpage) chunk)
  following page connection hpage hconnection :=
    (h.following page connection hpage hconnection).append chunk
  live := h.live
  watched := h.watched
  closing page connection hpage hconnection hclosing := by
    have hover : OverFor s := Or.inr (Or.inr ⟨connection, hconnection, hclosing⟩)
    obtain ⟨hqueue, hall⟩ := h.closing page connection hpage hconnection hclosing
    exact ⟨hqueue, hall.trans (laterEvents_append_noJson (h.grown page hpage) (ha hover)).symm⟩
  ended page hpage hended := by
    have hover : OverFor s := by
      rcases hended with hterminal | hclosed
      · exact Or.inl ⟨page, hpage, hterminal⟩
      · exact Or.inr (Or.inl hclosed)
    rw [laterEvents_append_noJson (h.grown page hpage) (ha hover)]
    exact h.ended page hpage hended

/-- Before the page is loaded and until it is rendered there is no connection. -/
lemma Invariant.idle (h : Invariant n s)
    (hpage : ∀ page, s.page = some page → page.isTerminal ≠ some false) : s.connection = none := by
  cases hconnection : s.connection with
  | none => rfl
  | some connection =>
      obtain ⟨⟨page, hloaded, hlive⟩, -⟩ := h.live connection hconnection
      exact absurd hlive (hpage page hloaded)

lemma Invariant.load (h : Invariant n s) (hpage : s.page = none) (hsafe : PageSafe J n s.file) :
    Invariant n { s with page := some ⟨s.file, none⟩ } := by
  have hidle : s.connection = none := h.idle (by simp [hpage])
  obtain ⟨hreceived, hopen⟩ := h.unloaded hpage
  have hunopened : ∀ connection, s.connection ≠ some connection := by simp [hidle]
  refine ⟨by simp, fun page hloaded => ?_, fun page hloaded => ?_, fun page hloaded => ?_,
    fun _ connection _ hconnection => absurd hconnection (hunopened connection),
    fun connection hconnection => absurd hconnection (hunopened connection),
    fun connection hconnection => absurd hconnection (hunopened connection),
    fun _ connection _ hconnection => absurd hconnection (hunopened connection),
    fun page hloaded hended => ?_⟩
  · cases hloaded
    exact hsafe
  · cases hloaded
    exact List.prefix_refl _
  · show s.received <+: _
    rw [hreceived]
    exact List.nil_prefix
  · cases hloaded
    simp [hopen] at hended

/-- Rendering finds the run unfinished, or finished with nothing missed. -/
lemma Invariant.render (h : Invariant n s) {page : Page} (hpage : s.page = some page)
    (hunrendered : page.isTerminal = none) (ha : Admitted n s .render) :
    Invariant n { s with page := some { page with isTerminal := some s.terminal } } := by
  have hidle : s.connection = none := by
    refine h.idle fun page' hpage' => ?_
    obtain rfl : page = page' := Option.some.inj (hpage.symm.trans hpage')
    simp [hunrendered]
  have hunopened : ∀ connection, s.connection ≠ some connection := by simp [hidle]
  refine ⟨by simp, fun page' hloaded => ?_, fun page' hloaded => ?_, fun page' hloaded => ?_,
    fun _ connection _ hconnection => absurd hconnection (hunopened connection),
    fun connection hconnection => absurd hconnection (hunopened connection),
    fun connection hconnection => absurd hconnection (hunopened connection),
    fun _ connection _ hconnection => absurd hconnection (hunopened connection),
    fun page' hloaded hended => ?_⟩
  · cases hloaded
    exact h.safe page hpage
  · cases hloaded
    exact h.grown page hpage
  · cases hloaded
    exact h.streamed page hpage
  · cases hloaded
    rcases hended with hterminal | hclosed
    · have hnothing : laterEvents J page.content s.file = [] :=
        ha (Option.some.inj hterminal) page hpage
      have hnone : s.received = [] :=
        List.prefix_nil.mp (hnothing ▸ h.streamed page hpage)
      exact hnone.trans hnothing.symm
    · exact h.ended page hpage (Or.inr hclosed)

/-- A new connection follows the file from the page's offset on. -/
lemma following_new {start : ℕ} (hstart : start ≤ file.length) (terminal : Bool)
    (lastEventId : Option String) :
    Following file start [] (runTraceSse (J := J) file terminal (some start) lastEventId) := by
  have hnothing : between file start start = [] := by simp [between]
  have hlive : Following (J := J) file start [] ⟨true, start, []⟩ :=
    ⟨le_rfl, hstart, by rw [hnothing, partialLine_nil], by rw [hnothing]; rfl⟩
  cases terminal with
  | false => exact hlive
  | true =>
      have hread := readFromOffset_eq file start
      have hpending : traces (((readFromOffset file start).1.filterMap pendingMessage) ++
          [.finished]) = jsonEvents J start (completeLines (file.drop start)) := by
        rw [hread, traces_append, traces_pending]
        exact List.append_nil _
      have hafter : Following file start [] ⟨false, start + completeLength (file.drop start),
          [] ++ ((readFromOffset file start).1.filterMap pendingMessage ++ [.finished])⟩ :=
        hlive.read hpending
      have hnew : runTraceSse (J := J) file true (some start) lastEventId =
          ⟨false, start + completeLength (file.drop start),
            [] ++ ((readFromOffset file start).1.filterMap pendingMessage ++ [.finished])⟩ := by
        simp only [runTraceSse, initialOffset, if_true, hread, List.nil_append]
      rw [hnew]
      exact hafter

/-- The end comes last in the stream of a finished run, and never while a watcher follows the file. -/
lemma finished_not_mem_pending (lines : List (ℕ × Bytes)) :
    (.finished : Message J) ∉ lines.filterMap pendingMessage := by
  rw [List.mem_filterMap]
  rintro ⟨x, -, hx⟩
  obtain ⟨event, -, hevent⟩ := Option.map_eq_some_iff.mp hx
  cases hevent

lemma finished_not_mem_live (lines : List (ℕ × Bytes)) :
    (.finished : Message J) ∉ lines.map liveMessage := by
  rw [List.mem_map]
  rintro ⟨x, -, hx⟩
  unfold liveMessage at hx
  split at hx
  · cases hx
  · cases hx

lemma Invariant.connect (h : Invariant n s) {page : Page} (hpage : s.page = some page)
    (hlive : page.isTerminal = some false) (hopen : s.closed = false) (hnone : s.received = [])
    (terminal : Bool) :
    Invariant n { s with connection := some (runTraceSse s.file terminal
      (some (runDetail J n page.content).2) s.lastEventId) } := by
  have hsame : ∀ page', s.page = some page' → page' = page :=
    fun page' hpage' => Option.some.inj (hpage'.symm.trans hpage)
  have hfollowing := following_new (J := J) ((offset_le (J := J) (n := n) page.content).trans
    (h.grown page hpage).length_le) terminal s.lastEventId
  have hevents := events_from_offset (h.safe page hpage) (h.grown page hpage)
  refine ⟨h.unloaded, h.safe, h.grown, h.streamed, fun page' connection hpage' hconnection => ?_,
    fun _ _ => ⟨⟨page, hpage, hlive⟩, hopen⟩, fun connection hconnection hwatching => ?_,
    fun page' connection hpage' hconnection hclosing => ?_, h.ended⟩
  · obtain rfl := hsame page' hpage'
    cases hconnection
    show Following s.file _ s.received _
    rw [hnone]
    exact hfollowing
  · cases hconnection
    cases terminal with
    | false => simp [runTraceSse]
    | true => cases hwatching
  · obtain rfl := hsame page' hpage'
    cases hconnection
    cases terminal with
    | false => cases hclosing
    | true =>
        refine ⟨⟨_, rfl, finished_not_mem_pending _⟩, ?_⟩
        have hqueue : traces (((readFromOffset s.file (runDetail J n page'.content).2).1.filterMap
            pendingMessage) ++ [.finished]) = laterEvents J page'.content s.file := by
          rw [readFromOffset_eq, traces_append, traces_pending, hevents]
          exact List.append_nil _
        show s.received ++ _ = _
        rw [hnone, List.nil_append]
        exact hqueue

lemma Invariant.watch (h : Invariant n s) {connection : Connection J}
    (hconnection : s.connection = some connection) (hwatching : connection.watching = true) :
    Invariant n { s with connection := some (watch s.file connection) } := by
  refine ⟨h.unloaded, h.safe, h.grown, h.streamed, fun page connection' hpage hopen => ?_,
    fun _ _ => h.live connection hconnection, fun connection' hopen _ => ?_,
    fun page connection' hpage hopen hclosing => ?_, h.ended⟩
  · cases hopen
    have hread := readFromOffset_eq s.file connection.offset
    have hqueue : traces ((readFromOffset s.file connection.offset).1.map liveMessage) =
        jsonEvents J connection.offset (completeLines (s.file.drop connection.offset)) := by
      rw [hread, traces_live]
    have hafter : Following s.file (runDetail J n page.content).2 s.received
        ⟨connection.watching, connection.offset + completeLength (s.file.drop connection.offset),
          connection.queue ++ (readFromOffset s.file connection.offset).1.map liveMessage⟩ :=
      (h.following page connection hpage hconnection).read hqueue
    simp only [TraceStream.watch, hread] at hafter ⊢
    exact hafter
  · cases hopen
    have hbefore := h.watched connection hconnection hwatching
    simp only [TraceStream.watch, List.mem_append, not_or]
    exact ⟨hbefore, finished_not_mem_live _⟩
  · cases hopen
    rw [show connection.watching = false from hclosing] at hwatching
    cases hwatching

/-- Taking a message off the queue that is not the end. -/
lemma Invariant.deliver (h : Invariant n s) {connection : Connection J} {message : Message J}
    {rest : List (Message J)} (hconnection : s.connection = some connection)
    (hqueue : connection.queue = message :: rest) (hmessage : message ≠ .finished) {s' : Session J}
    (hreceived : s'.received = s.received ++ traces [message])
    (hsame : s' = { s with
      connection := some { connection with queue := rest }
      received := s'.received
      lastEventId := s'.lastEventId }) : Invariant n s' := by
  obtain ⟨⟨page, hpage, hterminal⟩, hopen⟩ := h.live connection hconnection
  have hpages : ∀ page', s.page = some page' → page' = page :=
    fun page' hpage' => Option.some.inj (hpage'.symm.trans hpage)
  have htraces : ∀ received : List (TraceSseEvent J),
      (received ++ traces [message]) ++ traces rest = received ++ traces connection.queue := by
    intro received
    rw [hqueue, show message :: rest = [message] ++ rest from rfl, traces_append, List.append_assoc]
  have hrest : (.finished : Message J) ∉ connection.queue → (.finished : Message J) ∉ rest := by
    intro hnot hmem
    exact hnot (hqueue ▸ List.mem_cons_of_mem _ hmem)
  rw [hsame]
  refine ⟨?_, h.safe, h.grown, fun page' hpage' => ?_, fun page' connection' hpage' hopened => ?_,
    fun _ _ => ⟨⟨page, hpage, hterminal⟩, hopen⟩, fun connection' hopened hwatching => ?_,
    fun page' connection' hpage' hopened hclosing => ?_, fun page' hpage' hended => ?_⟩
  · intro hunloaded
    rw [show s.page = none from hunloaded] at hpage
    cases hpage
  · show s'.received <+: _
    rw [hreceived]
    refine List.IsPrefix.trans ?_ (h.delivered hpage' hconnection)
    rw [← htraces]
    exact List.prefix_append _ _
  · cases hopened
    obtain ⟨hstarted, hinside, hwhole, hevents⟩ := h.following page' connection hpage' hconnection
    refine ⟨hstarted, hinside, hwhole, ?_⟩
    show s'.received ++ traces rest = _
    rw [hreceived, htraces, hevents]
  · cases hopened
    exact hrest (h.watched connection hconnection hwatching)
  · cases hopened
    obtain ⟨⟨queue, hends, hnot⟩, hall⟩ := h.closing page' connection hpage' hconnection hclosing
    refine ⟨?_, ?_⟩
    · cases queue with
      | nil =>
          rw [hends, List.nil_append] at hqueue
          exact absurd (List.cons.inj hqueue).1.symm hmessage
      | cons first queue =>
          rw [hends, List.cons_append] at hqueue
          exact ⟨queue, (List.cons.inj hqueue).2.symm, fun hmem => hnot (List.mem_cons_of_mem _ hmem)⟩
    · show s'.received ++ traces rest = _
      rw [hreceived, htraces, hall]
  · obtain rfl := hpages page' hpage'
    have hnotended : ¬ (page'.isTerminal = some true ∨ s.closed = true) := by
      simp [hterminal, hopen]
    exact absurd hended hnotended

/-- The end comes only to a viewer that has had every event. -/
lemma Invariant.finished (h : Invariant n s) {connection : Connection J} {rest : List (Message J)}
    (hconnection : s.connection = some connection) (hqueue : connection.queue = .finished :: rest) :
    Invariant n { s with connection := none, closed := true } := by
  obtain ⟨⟨page, hpage, -⟩, -⟩ := h.live connection hconnection
  have hclosing : connection.watching = false := by
    cases hwatching : connection.watching with
    | false => rfl
    | true => exact absurd (hqueue ▸ List.mem_cons_self) (h.watched connection hconnection hwatching)
  refine ⟨?_, h.safe, h.grown, h.streamed, fun _ connection' _ hopened => ?_,
    fun connection' hopened => ?_, fun connection' hopened => ?_, fun _ connection' _ hopened => ?_,
    fun page' hpage' _ => ?_⟩
  · intro hunloaded
    rw [show s.page = none from hunloaded] at hpage
    cases hpage
  all_goals try cases hopened
  obtain ⟨⟨queue, hends, hnot⟩, hall⟩ := h.closing page' connection hpage' hconnection hclosing
  have hempty : queue = [] := by
    cases queue with
    | nil => rfl
    | cons first queue =>
        rw [hends, List.cons_append] at hqueue
        exact absurd ((List.cons.inj hqueue).1 ▸ List.mem_cons_self) hnot
  rw [hends, hempty] at hall
  exact (List.append_nil _).symm.trans hall

lemma Invariant.receive (h : Invariant n s) {connection : Connection J} {message : Message J}
    {rest : List (Message J)} (hconnection : s.connection = some connection)
    (hqueue : connection.queue = message :: rest) :
    Invariant n (receiveMessage s connection rest message) := by
  cases message with
  | trace event => exact h.deliver hconnection hqueue (by simp) rfl rfl
  | unparsed => exact h.deliver hconnection hqueue (by simp) (List.append_nil _).symm rfl
  | finished => exact h.finished hconnection hqueue

lemma Invariant.disconnect (h : Invariant n s) : Invariant n { s with connection := none } where
  unloaded := h.unloaded
  safe := h.safe
  grown := h.grown
  streamed := h.streamed
  following page connection _ hopened := by cases hopened
  live connection hopened := by cases hopened
  watched connection hopened := by cases hopened
  closing page connection _ hopened := by cases hopened
  ended := h.ended

lemma Invariant.step (h : Invariant n s) {a : Action} (ha : Admitted n s a)
    (hstep : step n s a = some s') : Invariant n s' := by
  cases a with
  | append chunk =>
      cases hstep
      exact h.append ha
  | finish =>
      cases hstep
      exact ⟨h.unloaded, h.safe, h.grown, h.streamed, h.following, h.live, h.watched, h.closing, h.ended⟩
  | load =>
      rw [TraceStream.step] at hstep
      split at hstep
      · cases hstep
      · next hpage =>
        cases hstep
        exact h.load (by simpa using hpage) ha
  | render =>
      rw [TraceStream.step] at hstep
      split at hstep
      · cases hstep
      next page hpage =>
      split at hstep
      · cases hstep
      · next hunrendered =>
        cases hstep
        exact h.render hpage (by simpa using hunrendered) ha
  | connect =>
      rw [TraceStream.step] at hstep
      split at hstep
      · cases hstep
      next page hpage =>
      split at hstep
      · cases hstep
      · next hopen =>
        cases hstep
        simp only [not_or, ne_eq, not_not, Bool.not_eq_true] at hopen
        exact h.connect hpage hopen.1 hopen.2.2 ha s.terminal
  | read =>
      rw [TraceStream.step] at hstep
      split at hstep
      · next connection hconnection =>
        split at hstep
        · next hwatching =>
          cases hstep
          exact h.watch hconnection hwatching
        · cases hstep
      · cases hstep
  | receive =>
      rw [TraceStream.step] at hstep
      split at hstep
      · next connection hconnection =>
        split at hstep
        · cases hstep
        · next message rest hqueue =>
          cases hstep
          exact h.receive hconnection hqueue
      · cases hstep
  | disconnect =>
      cases hstep
      exact h.disconnect

lemma Reached.invariant (h : Reached n (Admitted n) s) : Invariant n s := by
  induction h with
  | start file => exact invariant_initial file
  | step _ admitted next ih => exact ih.step admitted next

lemma partialLine_take_offset (h : content <+: file) :
    partialLine (file.take (runDetail J n content).2) = [] := by
  by_cases hread : Readable J n content
  · obtain ⟨rest, rfl⟩ := h
    rw [offset_of_readable hread, List.take_append_of_le_length (completeLength_le content),
      take_completeLength, partialLine_unlines (newline_not_mem_completeLines content)]
  · rw [runDetail_unread hread, List.take_zero, partialLine_nil]

/-- A read catches up with the file. -/
theorem Reached.read_catchesUp (h : Reached n (Admitted n) s) (hstep : TraceStream.step n s .read = some s') :
    ∃ connection, s'.connection = some connection ∧
      connection.offset = completeLength s'.file := by
  have hs := h.invariant
  rw [TraceStream.step] at hstep
  split at hstep
  swap
  · cases hstep
  next connection hconnection =>
  split at hstep
  swap
  · cases hstep
  cases hstep
  refine ⟨_, rfl, ?_⟩
  obtain ⟨⟨page, hpage, -⟩, -⟩ := hs.live connection hconnection
  have hfollow := hs.following page connection hpage hconnection
  have hwhole : partialLine (s.file.take connection.offset) = [] := by
    have hsplit : s.file.take connection.offset =
        s.file.take (runDetail J n page.content).2 ++
          between s.file (runDetail J n page.content).2 connection.offset := by
      have hsum : (runDetail J n page.content).2 +
          (connection.offset - (runDetail J n page.content).2) = connection.offset := by
        have hle := hfollow.started
        omega
      rw [between, ← List.take_add, hsum]
    rw [hsplit, partialLine_append, partialLine_take_offset (hs.grown page hpage),
      List.nil_append, hfollow.whole]
  have hlength := completeLength_append hwhole (s.file.drop connection.offset)
  rw [List.take_append_drop, List.length_take, Nat.min_eq_left hfollow.inside] at hlength
  rw [hlength, TraceStream.watch, readFromOffset_eq]

/-- In every run whose page is loaded at a safe moment and misses no line of a finished run, whose
viewer opens no connection after an event, and whose trace has ended when the run is over for the
viewer, every complete JSON line is shown once, on the page or by the stream. -/
theorem reached_shownOnce (h : Reached n (Admitted n) s) : ShownOnce n s := by
  have hs := h.invariant
  refine ⟨fun hnone => (hs.unloaded hnone).1, fun page hpage => rendered_of_safe (hs.safe page hpage),
    hs.streamed, ?_, fun page connection hpage hconnection hend hqueue => ?_, hs.ended⟩
  · cases hpage : s.page with
    | none =>
        rw [(hs.unloaded hpage).1]
        exact List.nodup_nil
    | some page =>
        have hids := ids_nodup (J := J) (completeLength page.content)
          (completeLines (s.file.drop (completeLength page.content)))
        exact ((hs.streamed page hpage).sublist.map _).nodup hids
  · have hnone : traces connection.queue = [] := by
      rw [traces, List.filterMap_eq_nil_iff]
      intro message hmessage
      cases message with
      | trace event => exact absurd hmessage (hqueue event)
      | unparsed => rfl
      | finished => rfl
    rw [(hs.following page connection hpage hconnection).all hend hnone,
      events_from_offset (hs.safe page hpage) (hs.grown page hpage)]

end Runs

section Numbers

/-- A text of decimal digits, with carriage returns behind it. -/
def numberOf (text : Bytes) : Option ℕ :=
  let body := (text.reverse.dropWhile (· = 13)).reverse
  if !body.isEmpty && body.all fun b => 48 ≤ b && b ≤ 57 then
    some (body.foldl (fun acc b => 10 * acc + (b.toNat - 48)) 0)
  else none

lemma isBlank_digit {b : UInt8} (h : 48 ≤ b ∧ b ≤ 57) (bs : Bytes) :
    isBlank (b :: bs) = false := by
  obtain ⟨hlow, hhigh⟩ := h
  have hspace : ((9 ≤ b && b ≤ 13) || b = 32) = false := by
    have hle : ¬ b ≤ 13 := fun hle => absurd (UInt8.le_trans hlow hle) (by decide)
    have hne : ¬ b = 32 := fun heq => absurd (heq ▸ hlow) (by decide)
    simp [hle, hne]
  unfold isBlank
  split
  · next heq => cases heq
  · next heq =>
    cases heq
    exact absurd hhigh (by decide)
  · next heq =>
    cases heq
    exact absurd hhigh (by decide)
  · next heq =>
    cases heq
    exact absurd hhigh (by decide)
  · next heq =>
    cases heq
    exact absurd hhigh (by decide)
  · next heq =>
    cases heq
    rw [hspace, Bool.false_and]

/-- Traces of numbers. -/
instance : TraceJson ℕ where
  fromStr := numberOf
  get _ _ := none
  asStr _ := none
  toText n := n.repr
  fromStr_blank text h := by
    unfold numberOf
    refine if_neg ?_
    rw [Bool.and_eq_true, Bool.not_eq_true', List.isEmpty_eq_false_iff, List.all_eq_true]
    rintro ⟨hne, hdigits⟩
    have hprefix : (text.reverse.dropWhile (· = 13)).reverse <+: text := by
      have hsuffix := (List.dropWhile_suffix (l := text.reverse) (· = 13)).reverse
      rwa [List.reverse_reverse] at hsuffix
    obtain ⟨b, bs, hbody⟩ := List.exists_cons_of_ne_nil hne
    obtain ⟨rest, hrest⟩ := hprefix
    have hb : 48 ≤ b ∧ b ≤ 57 := by
      have hdigit := hdigits b (hbody ▸ List.mem_cons_self)
      rwa [Bool.and_eq_true, decide_eq_true_eq, decide_eq_true_eq] at hdigit
    rw [← hrest, hbody, List.cons_append, isBlank_digit hb] at h
    cases h
  fromStr_return text := by simp [numberOf]

/-- The trace holds 1 when the page is loaded; 2 comes in two chunks, between which the viewer
reconnects. -/
def followed : List Action :=
  [.load, .render, .connect, .append [50], .read, .disconnect, .connect, .append [10, 51], .read,
    .receive]

/-- After the event for 2 the viewer reconnects, and the stream sends it again. -/
def reconnected : List Action := followed ++ [.disconnect, .connect, .read, .receive]

/-- The page is loaded when the line with 10 has come to its first digit. -/
def splitLine : List Action := [.load, .render, .connect, .append [48, 10], .read, .receive]

/-- The page is read before the last line comes, and rendered after the run has finished. -/
def readEarly : List Action := [.load, .append [50, 10], .finish, .render]

def runActions (n : ℕ) (s : Session ℕ) : List Action → Option (Session ℕ)
  | [] => some s
  | a :: actions => (step n s a).bind (runActions n · actions)

lemma reached_runActions {n : ℕ} {admits : Session ℕ → Action → Prop} {actions : List Action}
    {s s' : Session ℕ} (h : Reached n admits s) (hrun : runActions n s actions = some s')
    (hadmits : ∀ a ∈ actions, ∀ s, admits s a) : Reached n admits s' := by
  induction actions generalizing s with
  | nil =>
      cases hrun
      exact h
  | cons a actions ih =>
      obtain ⟨next, hnext, hrest⟩ := Option.bind_eq_some_iff.mp hrun
      obtain ⟨ha, hactions⟩ := List.forall_mem_cons.mp hadmits
      exact ih (h.step (ha s) hnext) hrest hactions

lemma append_admitted {n : ℕ} {s : Session ℕ} {page : Page} {connection : Connection ℕ}
    (hpage : s.page = some page) (hterminal : page.isTerminal = some false)
    (hclosed : s.closed = false) (hconnection : s.connection = some connection)
    (hwatching : connection.watching = true) (chunk : Bytes) : Admitted n s (.append chunk) := by
  rintro (⟨page', hpage', hover⟩ | hover | ⟨connection', hconnection', hover⟩)
  · obtain rfl : page = page' := Option.some.inj (hpage.symm.trans hpage')
    simp [hterminal] at hover
  · simp [hclosed] at hover
  · obtain rfl : connection = connection' := Option.some.inj (hconnection.symm.trans hconnection')
    simp [hwatching] at hover

lemma pageSafe_one : PageSafe ℕ 50 [49, 10] where
  unfinished _ := Or.inr (by decide)
  unread h := absurd ⟨by decide, by decide⟩ h

theorem reached_shownOnce_followed :
    ∃ s : Session ℕ, Reached 50 (Admitted 50) s ∧ s.received = [⟨"2", 2⟩] ∧ ShownOnce 50 s := by
  have hstart : Reached 50 (Admitted 50) (initial ℕ [49, 10]) := .start _
  have hloaded := hstart.step (a := .load) pageSafe_one rfl
  have hrendered := hloaded.step (a := .render) (by simp [Admitted, initial]) rfl
  have hfirst := hrendered.step (a := .connect) rfl rfl
  have hdigit := hfirst.step (a := .append [50]) (append_admitted rfl rfl rfl rfl rfl _) rfl
  have hread := hdigit.step (a := .read) trivial rfl
  have hclosed := hread.step (a := .disconnect) trivial rfl
  have hagain := hclosed.step (a := .connect) rfl rfl
  have hline := hagain.step (a := .append [10, 51]) (append_admitted rfl rfl rfl rfl rfl _) rfl
  have hqueued := hline.step (a := .read) trivial rfl
  have hreceived := hqueued.step (a := .receive) trivial rfl
  exact ⟨_, hreceived, by decide, reached_shownOnce hreceived⟩

/-- An event comes twice to a viewer who reconnects, a partial line is shown, and a page read before
the last line shows it never. -/
theorem reconnect_repeats_and_partial_shown :
    (∃ s : Session ℕ, Reached 50 (fun _ _ => True) s ∧ s.received = [⟨"2", 2⟩, ⟨"2", 2⟩] ∧
      ¬ ShownOnce 50 s) ∧
    (∃ s : Session ℕ, Reached 50 (fun _ _ => True) s ∧ s.received = [⟨"0", 10⟩] ∧
      (s.page.map fun page => (runDetail ℕ 50 page.content).1) = some [⟨"", "event", "1"⟩] ∧
        ¬ ShownOnce 50 s) ∧
    ∃ s : Session ℕ, Reached 50 (fun _ _ => True) s ∧ s.file = [49, 10, 50, 10] ∧ s.terminal = true ∧
      s.page = some ⟨[49, 10], some true⟩ ∧ step 50 s .connect = none ∧ ¬ ShownOnce 50 s := by
  have hreached : ∀ file actions s', runActions 50 (initial ℕ file) actions = some s' →
      Reached 50 (fun _ _ => True) s' := by
    intro file actions s' hrun
    exact reached_runActions (.start file) hrun fun _ _ _ => trivial
  refine ⟨?_, ?_, ?_⟩
  · refine ⟨_, hreached [49, 10] reconnected _ rfl, by decide, fun h => ?_⟩
    exact absurd h.once (by decide)
  · refine ⟨_, hreached [49] splitLine _ rfl, by decide, by decide, fun h => ?_⟩
    exact absurd (h.rendered _ rfl) (by decide)
  · refine ⟨_, hreached [49, 10] readEarly _ rfl, rfl, rfl, rfl, rfl, fun h => ?_⟩
    exact absurd (h.ended _ rfl (Or.inl rfl)) (by decide)

end Numbers

end Loker.TraceStream
