import Loker.PhaseLock
import Loker.Programs
import Loker.RunFiles

/-! The human verifier: a request is put to a person through a pending file, and the answer comes
back in a response file. -/

namespace Loker.HumanGate

open TextOps PhaseLock Programs RunFiles

section Requests

inductive HumanSeverity where
  | low
  | medium
  | high
  deriving DecidableEq, Repr, Encodable

def HumanSeverity.asStr : HumanSeverity → String
  | .low => "low"
  | .medium => "medium"
  | .high => "high"

inductive HumanTimeoutAction where
  | autoApprove
  | autoFail
  | block
  deriving DecidableEq, Repr

/-- Durations and times are in nanoseconds. -/
structure HumanTimeoutRule where
  timeout : Option ℤ
  onTimeout : HumanTimeoutAction
  deriving DecidableEq, Repr

structure HumanTimeoutPolicy where
  low : HumanTimeoutRule
  medium : HumanTimeoutRule
  high : HumanTimeoutRule
  deriving DecidableEq, Repr

def hours (n : ℤ) : ℤ := n * 3600 * 1000000000

def HumanTimeoutPolicy.default : HumanTimeoutPolicy where
  low := ⟨some (hours 1), .autoApprove⟩
  medium := ⟨some (hours 24), .autoFail⟩
  high := ⟨none, .block⟩

def HumanTimeoutPolicy.ruleFor (policy : HumanTimeoutPolicy) : HumanSeverity → HumanTimeoutRule
  | .low => policy.low
  | .medium => policy.medium
  | .high => policy.high

inductive HumanDecision where
  | approve
  | reject
  | commentOnly
  deriving DecidableEq, Repr, Encodable

structure PendingArtefact where
  path : String
  kind : String
  previewLines : ℕ
  deriving DecidableEq, Repr, Encodable

structure PendingContext where
  precededBy : List String
  nextPhase : Option String
  promptSummary : String
  deriving DecidableEq, Repr, Encodable

structure PendingRequest where
  schemaVersion : ℕ
  runId : String
  workflow : String
  phase : String
  severity : HumanSeverity
  openedAt : String
  timeoutAt : Option String
  artefact : PendingArtefact
  context : PendingContext
  decisionOptions : List HumanDecision
  deriving DecidableEq, Repr, Encodable

structure HumanResponse where
  schemaVersion : ℕ
  phase : String
  claimedBy : String
  decidedAt : String
  decision : HumanDecision
  globalComment : Option String
  inlineCommentsPath : Option String
  deriving DecidableEq, Repr, Encodable

/-- The texts of requests, responses and times, and their parsers. -/
class GateFormat where
  printRequest : PendingRequest → String
  parseRequest : String → Except String PendingRequest
  printResponse : HumanResponse → String
  parseResponse : String → Except String HumanResponse
  toRfc3339 : ℤ → String
  parseRfc3339 : String → Except String ℤ
  parseRequest_print : ∀ r, parseRequest (printRequest r) = .ok r
  parseResponse_print : ∀ r, parseResponse (printResponse r) = .ok r
  parseRfc3339_to : ∀ t, parseRfc3339 (toRfc3339 t) = .ok t

end Requests

section Verifier

def schemaVersion : ℕ := 1

/-- A verifier is only made with options to decide between. -/
structure HumanVerifierConfig where
  runDir : String
  runId : String
  workflow : String
  phase : String
  artefactName : String
  artefactKind : Kind
  severity : HumanSeverity
  decisionOptions : List HumanDecision
  options_ne : decisionOptions ≠ []
  timeoutPolicy : HumanTimeoutPolicy
  fallbackServer : Bool

/-- The files `pending/<phase>.json` and `responses/<phase>.json`. -/
structure GateFiles where
  pending : Option Bytes
  response : Option Bytes
  deriving DecidableEq, Repr

inductive Call where
  | readResponse
  | readPending
  | createPending
  | writePending
  | createArchive
  | rename
  deriving DecidableEq, Repr

/-- What a pass sees of the system: the clock when it makes a request and when it looks at the
deadline, and the calls that fail. -/
structure PassEnv where
  created : ℤ
  now : ℤ
  error : Call → Option String

inductive HumanTimeoutOutcome where
  | notTimedOut
  | autoApproved
  | autoFailed
  | blocking
  deriving DecidableEq, Repr

structure HumanVerifyReport where
  severity : HumanSeverity
  timeoutAt : Option String
  timeoutAction : HumanTimeoutAction
  timeoutOutcome : HumanTimeoutOutcome
  deriving DecidableEq, Repr

inductive VerifyResult where
  | pass
  | fail (reason : String)
  deriving DecidableEq, Repr

/-- A pass ends the verification, or it starts the server and waits. -/
inductive Pass where
  | done (result : VerifyResult) (report : HumanVerifyReport)
  | serve (payload : PendingRequest) (rule : HumanTimeoutRule)
  deriving DecidableEq, Repr

def kindStr : Kind → String
  | .designMd | .reviewMd | .planMd | .otherMd _ => "text/markdown"
  | .verifyJson | .phaseResultJson | .pendingJson | .responseJson | .summaryJson
  | .traceJsonl => "application/json"
  | .changesDir => "application/directory"

variable [GateFormat] (cfg : HumanVerifierConfig) (stdout : String) (env : PassEnv)

def pendingPath : String := cfg.runDir ++ "/pending/" ++ cfg.phase ++ ".json"

def responsePath : String := cfg.runDir ++ "/responses/" ++ cfg.phase ++ ".json"

def callOk (call : Call) : Except String Unit :=
  match env.error call with
  | some message => .error message
  | none => .ok ()

def readFile (call : Call) (bytes : Bytes) : Except String String := do
  callOk env call
  match readToString bytes with
  | none => .error "stream did not contain valid UTF-8"
  | some text => .ok text

/-- The text in front of an error. -/
def during {α : Type} (what : String) (x : Except String α) : Except String α :=
  x.mapError fun message => what ++ ": " ++ message

def newRequest (created : ℤ) : PendingRequest where
  schemaVersion := schemaVersion
  runId := cfg.runId
  workflow := cfg.workflow
  phase := cfg.phase
  severity := cfg.severity
  openedAt := GateFormat.toRfc3339 created
  timeoutAt := (cfg.timeoutPolicy.ruleFor cfg.severity).timeout.map fun timeout =>
    GateFormat.toRfc3339 (created + timeout)
  artefact := ⟨cfg.artefactName, kindStr cfg.artefactKind, min (lines stdout).length (2 ^ 32 - 1)⟩
  context := ⟨[], none, String.ofList (stdout.toList.take 160)⟩
  decisionOptions := cfg.decisionOptions

/-- A request that is there is taken up again. -/
def pendingPayload (files : GateFiles) : Except String PendingRequest :=
  match files.pending with
  | some bytes => do
      let text ← during ("failed to read pending request " ++ pendingPath cfg)
        (readFile env .readPending bytes)
      let payload ← during ("failed to parse pending request " ++ pendingPath cfg)
        (GateFormat.parseRequest text)
      if payload.schemaVersion ≠ schemaVersion then
        .error ("unsupported pending schema version for phase " ++ cfg.phase ++ ": expected " ++
          schemaVersion.repr ++ ", got " ++ payload.schemaVersion.repr)
      else .ok payload
  | none => .ok (newRequest cfg stdout env.created)

def ensurePendingFile (payload : PendingRequest) (files : GateFiles) : Except String GateFiles :=
  match files.pending with
  | some _ => .ok files
  | none => do
      during ("failed to create pending directory for phase " ++ cfg.phase)
        (callOk env .createPending)
      during ("failed to write pending request for phase " ++ cfg.phase) (callOk env .writePending)
      pure { files with pending := some (textBytes (GateFormat.printRequest payload)) }

def openRequest (files : GateFiles) : Except String (PendingRequest × GateFiles) := do
  let payload ← pendingPayload cfg stdout env files
  let files ← ensurePendingFile cfg env payload files
  pure (payload, files)

def existingPendingTimeoutAt (files : GateFiles) : Option String := do
  let bytes ← files.pending
  let text ← (readFile env .readPending bytes).toOption
  let payload ← (GateFormat.parseRequest text).toOption
  if payload.schemaVersion = schemaVersion then payload.timeoutAt else none

def parseResponse (files : GateFiles) : Except String (Option HumanResponse) :=
  match files.response with
  | none => .ok none
  | some bytes => do
      let text ← during ("failed to read response file " ++ responsePath cfg)
        (readFile env .readResponse bytes)
      let response ← during ("failed to parse response file " ++ responsePath cfg)
        (GateFormat.parseResponse text)
      if response.schemaVersion ≠ schemaVersion then
        .error ("unsupported schema version: expected " ++ schemaVersion.repr ++ ", got " ++
          response.schemaVersion.repr)
      else .ok (some response)

/-- The response file is renamed. -/
def consumeResponse (files : GateFiles) : Except String GateFiles :=
  match files.response with
  | none => .ok files
  | some _ => do
      during ("failed to prepare response archive dir " ++ cfg.runDir ++ "/responses")
        (callOk env .createArchive)
      during ("failed to consume response for " ++ cfg.phase) (callOk env .rename)
      pure { files with response := none }

def defaultReport (timeoutAt : Option String) : HumanVerifyReport :=
  ⟨cfg.severity, timeoutAt, (cfg.timeoutPolicy.ruleFor cfg.severity).onTimeout, .notTimedOut⟩

def decisionResult (response : HumanResponse) : VerifyResult :=
  match response.decision with
  | .approve => .pass
  | .reject =>
      .fail ("human rejected phase " ++ cfg.phase ++ ": " ++ response.globalComment.getD "")
  | .commentOnly => .fail "human comment_only is not treated as approval"

def timedOut (payload : PendingRequest) (now : ℤ) : Except String Bool :=
  match payload.timeoutAt with
  | none => .ok false
  | some raw => (GateFormat.parseRfc3339 raw).map fun deadline => deadline ≤ now

def timeoutOutcome : HumanTimeoutAction → HumanTimeoutOutcome
  | .autoApprove => .autoApproved
  | .autoFail => .autoFailed
  | .block => .blocking

def outcomeResult (severity : HumanSeverity) : HumanTimeoutOutcome → VerifyResult
  | .autoApproved => .pass
  | .autoFailed =>
      .fail ("human review timed out for " ++ cfg.phase ++ " with severity " ++ severity.asStr)
  | .notTimedOut | .blocking => .fail ("waiting for human review on " ++ cfg.phase)

/-- What a request comes to that has no response. -/
def awaitResponse (payload : PendingRequest) : Pass :=
  let rule := cfg.timeoutPolicy.ruleFor payload.severity
  match timedOut payload env.now with
  | .error message =>
      .done (.fail ("invalid human review timeout_at for " ++ cfg.phase ++ ": " ++ message))
        ⟨payload.severity, payload.timeoutAt, rule.onTimeout, .notTimedOut⟩
  | .ok late =>
      if cfg.fallbackServer ∧ late = false then .serve payload rule
      else
        let outcome := if late then timeoutOutcome rule.onTimeout else .notTimedOut
        .done (outcomeResult cfg payload.severity outcome)
          ⟨payload.severity, payload.timeoutAt, rule.onTimeout, outcome⟩

/-- The rest of a pass once the response has been looked for. On an error the files stay. -/
def finish (looked : Except String (Option HumanResponse)) (files : GateFiles) :
    Except String (Pass × GateFiles) :=
  match looked with
  | .error message => do
      let (payload, files) ← openRequest cfg stdout env files
      pure (.done (.fail ("malformed or missing human response for " ++ cfg.phase ++ ": " ++ message))
        (defaultReport cfg payload.timeoutAt), files)
  | .ok (some response) =>
      if response.phase ≠ cfg.phase then do
        let (payload, files) ← openRequest cfg stdout env files
        pure (.done (.fail ("response phase mismatch for " ++ cfg.phase ++ ": expected " ++
          cfg.phase ++ ", got " ++ response.phase)) (defaultReport cfg payload.timeoutAt), files)
      else do
        let files ← consumeResponse cfg env files
        pure (.done (decisionResult cfg response)
          (defaultReport cfg (existingPendingTimeoutAt env files)), files)
  | .ok none => do
      let (payload, files) ← openRequest cfg stdout env files
      pure (awaitResponse cfg env payload, files)

def pass (files : GateFiles) : Except String (Pass × GateFiles) :=
  finish cfg stdout env (parseResponse cfg env files) files

inductive ServerOutcome where
  | decided
  | timedOut
  | cancelled
  | startError (message : String)
  deriving DecidableEq, Repr

/-- The files and the system as one pass finds them, and what comes of the server if it starts
one. -/
structure Visit where
  files : GateFiles
  env : PassEnv
  served : ServerOutcome

/-- A decision and a timeout of the server lead to another pass; `none` is a verification that has
not ended with the passes so far. -/
def verifyWithReport : List Visit → Option (Except String (VerifyResult × HumanVerifyReport))
  | [] => none
  | v :: rest =>
      match pass cfg stdout v.env v.files with
      | .error message => some (.error message)
      | .ok (.done result report, _) => some (.ok (result, report))
      | .ok (.serve payload rule, _) =>
          let report : HumanVerifyReport :=
            ⟨payload.severity, payload.timeoutAt, rule.onTimeout, .blocking⟩
          match v.served with
          | .decided | .timedOut => verifyWithReport rest
          | .cancelled =>
              some (.ok (.fail ("HITL server for " ++ cfg.phase ++ " was cancelled"), report))
          | .startError message =>
              some (.ok (.fail ("failed to start HITL server: " ++ message), report))

end Verifier

section Soundness

variable [GateFormat] {cfg : HumanVerifierConfig} {stdout : String} {env : PassEnv}
  {files files' : GateFiles}

/-- The bytes are an approval of the phase in the supported schema. -/
def Approves (cfg : HumanVerifierConfig) (response : Option Bytes) : Prop :=
  ∃ bytes text r, response = some bytes ∧ readToString bytes = some text ∧
    GateFormat.parseResponse text = .ok r ∧ r.schemaVersion = schemaVersion ∧
    r.phase = cfg.phase ∧ r.decision = .approve

/-- The request that is in the pending file, or the one that is made when there is none. -/
def Requests (cfg : HumanVerifierConfig) (stdout : String) (created : ℤ) (pending : Option Bytes)
    (payload : PendingRequest) : Prop :=
  match pending with
  | some bytes => ∃ text, readToString bytes = some text ∧
      GateFormat.parseRequest text = .ok payload ∧ payload.schemaVersion = schemaVersion
  | none => payload = newRequest cfg stdout created

def DeadlinePassed (payload : PendingRequest) (now : ℤ) : Prop :=
  ∃ raw deadline, payload.timeoutAt = some raw ∧ GateFormat.parseRfc3339 raw = .ok deadline ∧
    deadline ≤ now

/-- What may let the artefact through: an approval that was one of the options, or a deadline that
has passed when the configured timeout approves. -/
def Justified (cfg : HumanVerifierConfig) (stdout : String) (v : Visit) : Prop :=
  (Approves cfg v.files.response ∧ .approve ∈ cfg.decisionOptions) ∨
    ((∃ payload, Requests cfg stdout v.env.created v.files.pending payload ∧
      DeadlinePassed payload v.env.now) ∧
        (cfg.timeoutPolicy.ruleFor cfg.severity).onTimeout = .autoApprove)

/-- The request in the pending file has a deadline, and its own severity approves after it. -/
def ApprovesLate (cfg : HumanVerifierConfig) (pending : Option Bytes) : Prop :=
  ∃ bytes text payload raw deadline, pending = some bytes ∧ readToString bytes = some text ∧
    GateFormat.parseRequest text = .ok payload ∧ payload.schemaVersion = schemaVersion ∧
    payload.timeoutAt = some raw ∧ GateFormat.parseRfc3339 raw = .ok deadline ∧
    (cfg.timeoutPolicy.ruleFor payload.severity).onTimeout = .autoApprove

omit [GateFormat] in
lemma during_ok {α : Type} {what : String} {x : Except String α} {a : α}
    (h : during what x = .ok a) : x = .ok a := by
  cases x with
  | error message => cases h
  | ok b => exact h

omit [GateFormat] in
lemma readFile_ok {call : Call} {bytes : Bytes} {text : String}
    (h : readFile env call bytes = .ok text) : readToString bytes = some text := by
  obtain ⟨-, -, hread⟩ := bind_eq_ok h
  split at hread
  · cases hread
  · next hsome =>
    cases hread
    exact hsome

lemma pendingPayload_ok {payload : PendingRequest}
    (h : pendingPayload cfg stdout env files = .ok payload) :
    Requests cfg stdout env.created files.pending payload := by
  unfold pendingPayload at h
  unfold Requests
  split at h
  · next bytes hbytes =>
    obtain ⟨text, htext, h⟩ := bind_eq_ok h
    obtain ⟨request, hrequest, h⟩ := bind_eq_ok h
    split at h
    · cases h
    · next hschema =>
      cases h
      exact ⟨text, readFile_ok (during_ok htext), during_ok hrequest, of_not_not hschema⟩
  · cases h
    rfl

lemma openRequest_ok {payload : PendingRequest}
    (h : openRequest cfg stdout env files = .ok (payload, files')) :
    Requests cfg stdout env.created files.pending payload := by
  obtain ⟨request, hrequest, h⟩ := bind_eq_ok h
  obtain ⟨ensured, -, h⟩ := bind_eq_ok h
  cases h
  exact pendingPayload_ok hrequest

/-- A response that is parsed is in the file, in the supported schema. -/
lemma parseResponse_ok {r : HumanResponse} (h : parseResponse cfg env files = .ok (some r)) :
    ∃ bytes text, files.response = some bytes ∧ readToString bytes = some text ∧
      GateFormat.parseResponse text = .ok r ∧ r.schemaVersion = schemaVersion := by
  unfold parseResponse at h
  split at h
  · cases h
  · next bytes hbytes =>
    obtain ⟨text, htext, h⟩ := bind_eq_ok h
    obtain ⟨response, hresponse, h⟩ := bind_eq_ok h
    split at h
    · cases h
    · next hschema =>
      cases h
      exact ⟨bytes, text, hbytes, readFile_ok (during_ok htext), during_ok hresponse,
        of_not_not hschema⟩

lemma timedOut_true {payload : PendingRequest} {now : ℤ} (h : timedOut payload now = .ok true) :
    DeadlinePassed payload now := by
  unfold timedOut at h
  split at h
  · cases h
  · next raw hraw =>
    cases hparse : GateFormat.parseRfc3339 raw with
    | error message =>
        rw [hparse] at h
        cases h
    | ok deadline =>
        rw [hparse] at h
        exact ⟨raw, deadline, hraw, hparse, of_decide_eq_true (Except.ok.inj h)⟩

/-- Without a response only the timeout passes. -/
lemma awaitResponse_pass {payload : PendingRequest} {report : HumanVerifyReport}
    (h : awaitResponse cfg env payload = .done .pass report) :
    DeadlinePassed payload env.now ∧
      (cfg.timeoutPolicy.ruleFor payload.severity).onTimeout = .autoApprove := by
  unfold awaitResponse at h
  dsimp only at h
  split at h
  · cases h
  · next late hlate =>
    split at h
    · cases h
    · cases late with
      | false => simp [outcomeResult] at h
      | true =>
          refine ⟨timedOut_true hlate, ?_⟩
          cases haction : (cfg.timeoutPolicy.ruleFor payload.severity).onTimeout with
          | autoApprove => rfl
          | autoFail => simp [haction, timeoutOutcome, outcomeResult] at h
          | block => simp [haction, timeoutOutcome, outcomeResult] at h

lemma parseResponse_none (h : parseResponse cfg env files = .ok none) : files.response = none := by
  unfold parseResponse at h
  split at h
  · next hnone => exact hnone
  · next bytes hbytes =>
    obtain ⟨text, -, h⟩ := bind_eq_ok h
    obtain ⟨response, -, h⟩ := bind_eq_ok h
    split at h
    · cases h
    · cases h

/-- A pass lets the artefact through after an approval, or without a response after a timeout that
approves. -/
lemma pass_passes {report : HumanVerifyReport}
    (h : pass cfg stdout env files = .ok (.done .pass report, files')) :
    Approves cfg files.response ∨ files.response = none ∧
      ∃ payload, Requests cfg stdout env.created files.pending payload ∧
        DeadlinePassed payload env.now ∧
        (cfg.timeoutPolicy.ruleFor payload.severity).onTimeout = .autoApprove := by
  unfold pass finish at h
  split at h
  · obtain ⟨⟨payload, opened⟩, -, h⟩ := bind_eq_ok h
    cases h
  · next response hlooked =>
    split at h
    · obtain ⟨⟨payload, opened⟩, -, h⟩ := bind_eq_ok h
      cases h
    · next hphase =>
      obtain ⟨consumed, -, h⟩ := bind_eq_ok h
      left
      obtain ⟨bytes, text, hbytes, htext, hparse, hschema⟩ := parseResponse_ok hlooked
      refine ⟨bytes, text, response, hbytes, htext, hparse, hschema, of_not_not hphase, ?_⟩
      have hresult : decisionResult cfg response = .pass := by
        injection h with h
        injection h with h
        injection h
      cases hdecision : response.decision with
      | approve => rfl
      | reject => simp [decisionResult, hdecision] at hresult
      | commentOnly => simp [decisionResult, hdecision] at hresult
  · next hlooked =>
    obtain ⟨⟨payload, opened⟩, hopen, h⟩ := bind_eq_ok h
    refine Or.inr ⟨parseResponse_none hlooked, ?_⟩
    have hawait : awaitResponse cfg env payload = .done .pass report := by
      injection h with h
      injection h
    exact ⟨payload, openRequest_ok hopen, awaitResponse_pass hawait⟩

/-- The last pass of a verification is the one that lets the artefact through. -/
lemma verifyWithReport_passes {visits : List Visit} {v : Visit} {report : HumanVerifyReport}
    (hwaits : verifyWithReport cfg stdout visits = none)
    (h : verifyWithReport cfg stdout (visits ++ [v]) = some (.ok (.pass, report))) :
    ∃ files', pass cfg stdout v.env v.files = .ok (.done .pass report, files') := by
  induction visits with
  | nil =>
      simp only [List.nil_append, verifyWithReport] at h
      split at h
      · cases h
      · next hpass =>
        cases h
        exact ⟨_, hpass⟩
      · split at h
        all_goals cases h
  | cons first rest ih =>
      simp only [List.cons_append, verifyWithReport] at h hwaits
      split at h
      · cases h
      · next hpass => simp [hpass] at hwaits
      · next hpass =>
        simp only [hpass] at hwaits
        split at h
        · next hserved => exact ih (by simpa [hserved] using hwaits) h
        · next hserved => exact ih (by simpa [hserved] using hwaits) h
        all_goals cases h

/-- No call fails. -/
def calmPass (now : ℤ) : PassEnv := ⟨now, now, fun _ => none⟩

/-- No call fails, and the two looks at the clock are given. -/
def calmEnv (created now : ℤ) : PassEnv := ⟨created, now, fun _ => none⟩

lemma parseResponse_of {bytes : Bytes} {text : String} {r : HumanResponse} {created now : ℤ}
    (hbytes : files.response = some bytes) (htext : readToString bytes = some text)
    (hparse : GateFormat.parseResponse text = .ok r) (hschema : r.schemaVersion = schemaVersion) :
    parseResponse cfg (calmEnv created now) files = .ok (some r) := by
  have hread : readFile (calmEnv created now) .readResponse bytes = .ok text := by
    simp only [readFile, htext]
    rfl
  unfold parseResponse
  rw [hbytes]
  simp only [hread, during, Except.mapError]
  simp [bind, Except.bind, hparse, hschema]

/-- An approval passes, whatever the options are. -/
lemma verify_of_approves (stdout : String) (created now : ℤ) (served : ServerOutcome)
    (h : Approves cfg files.response) :
    ∃ report, verifyWithReport cfg stdout [⟨files, calmEnv created now, served⟩] =
      some (.ok (.pass, report)) := by
  obtain ⟨bytes, text, r, hbytes, htext, hparse, hschema, hphase, hdecision⟩ := h
  have hconsume : consumeResponse cfg (calmEnv created now) files =
      .ok { files with response := none } := by
    unfold consumeResponse
    rw [hbytes]
    rfl
  have hresult : decisionResult cfg r = .pass := by simp [decisionResult, hdecision]
  obtain ⟨report, hpass⟩ : ∃ report, pass cfg stdout (calmEnv created now) files =
      .ok (.done .pass report, { files with response := none }) := by
    simp only [pass, parseResponse_of hbytes htext hparse hschema, finish, hphase, hconsume, hresult]
    simp [bind, Except.bind, pure, Except.pure]
  exact ⟨report, by simp only [verifyWithReport, hpass]⟩

lemma approves_print {r : HumanResponse} (hschema : r.schemaVersion = schemaVersion)
    (hphase : r.phase = cfg.phase) (hdecision : r.decision = .approve) :
    Approves cfg (some (textBytes (GateFormat.printResponse r))) :=
  ⟨_, _, r, rfl, readToString_textBytes _, GateFormat.parseResponse_print r, hschema, hphase,
    hdecision⟩

lemma approvesLate_print (cfg : HumanVerifierConfig) (payload : PendingRequest) (deadline : ℤ)
    (hschema : payload.schemaVersion = schemaVersion)
    (hdeadline : payload.timeoutAt = some (GateFormat.toRfc3339 deadline))
    (haction : (cfg.timeoutPolicy.ruleFor payload.severity).onTimeout = .autoApprove) :
    ApprovesLate cfg (some (textBytes (GateFormat.printRequest payload))) :=
  ⟨_, _, payload, _, deadline, rfl, readToString_textBytes _, GateFormat.parseRequest_print payload,
    hschema, hdeadline, GateFormat.parseRfc3339_to deadline, haction⟩

lemma requests_print {created : ℤ} {request payload : PendingRequest}
    (h : Requests cfg stdout created (some (textBytes (GateFormat.printRequest request))) payload) :
    payload = request := by
  obtain ⟨text, htext, hparse, -⟩ := h
  rw [readToString_textBytes] at htext
  obtain rfl := Option.some.inj htext
  rw [GateFormat.parseRequest_print] at hparse
  exact (Except.ok.inj hparse).symm

lemma requests_unique {created : ℤ} {pending : Option Bytes} {request payload : PendingRequest}
    (hrequest : Requests cfg stdout created pending request)
    (hpayload : Requests cfg stdout created pending payload) : payload = request := by
  cases pending with
  | none => exact Eq.trans hpayload (Eq.symm hrequest)
  | some bytes =>
      obtain ⟨text, htext, hparse, -⟩ := hrequest
      obtain ⟨text', htext', hparse', -⟩ := hpayload
      rw [htext] at htext'
      obtain rfl := Option.some.inj htext'
      rw [hparse] at hparse'
      exact (Except.ok.inj hparse').symm

/-- The clock can be early enough for the deadline of any request. -/
lemma exists_early (cfg : HumanVerifierConfig) (stdout : String) (pending : Option Bytes) :
    ∃ now, ¬ ∃ payload, Requests cfg stdout 0 pending payload ∧ DeadlinePassed payload now := by
  by_cases h : ∃ payload raw deadline, Requests cfg stdout 0 pending payload ∧
      payload.timeoutAt = some raw ∧ GateFormat.parseRfc3339 raw = .ok deadline
  · obtain ⟨payload, raw, deadline, hrequest, hraw, hdeadline⟩ := h
    refine ⟨deadline - 1, ?_⟩
    rintro ⟨payload', hrequest', raw', deadline', hraw', hdeadline', hle⟩
    obtain rfl := requests_unique hrequest hrequest'
    rw [hraw] at hraw'
    obtain rfl := Option.some.inj hraw'
    rw [hdeadline] at hdeadline'
    obtain rfl := Except.ok.inj hdeadline'
    omega
  · refine ⟨0, ?_⟩
    rintro ⟨payload, hrequest, raw, deadline, hraw, hdeadline, -⟩
    exact h ⟨payload, raw, deadline, hrequest, hraw, hdeadline⟩

/-- Without a response a request passes when its deadline has gone by and its own severity approves. -/
lemma verify_of_late (stdout : String) (served : ServerOutcome) (h : ApprovesLate cfg files.pending)
    (hnone : files.response = none) :
    ∃ now report, verifyWithReport cfg stdout [⟨files, calmEnv now now, served⟩] =
      some (.ok (.pass, report)) := by
  obtain ⟨bytes, text, payload, raw, deadline, hbytes, htext, hparse, hschema, hraw, hdeadline,
    haction⟩ := h
  have hread : readFile (calmEnv deadline deadline) .readPending bytes = .ok text := by
    simp only [readFile, htext]
    rfl
  have hpayload : pendingPayload cfg stdout (calmEnv deadline deadline) files = .ok payload := by
    unfold pendingPayload
    rw [hbytes]
    simp only [hread, during, Except.mapError]
    simp [bind, Except.bind, hparse, hschema]
  have hopen : openRequest cfg stdout (calmEnv deadline deadline) files = .ok (payload, files) := by
    simp only [openRequest, hpayload, ensurePendingFile, hbytes]
    rfl
  have hlate : timedOut payload (calmEnv deadline deadline).now = .ok true := by
    unfold timedOut
    rw [hraw]
    simp [hdeadline, calmEnv, Except.map]
  have hlooked : parseResponse cfg (calmEnv deadline deadline) files = .ok none := by
    unfold parseResponse
    rw [hnone]
  obtain ⟨report, hawait⟩ : ∃ report, awaitResponse cfg (calmEnv deadline deadline) payload =
      .done .pass report := by
    simp [awaitResponse, hlate, haction, timeoutOutcome, outcomeResult]
  have hpass : pass cfg stdout (calmEnv deadline deadline) files =
      .ok (.done .pass report, files) := by
    simp only [pass, hlooked, finish, hopen, bind, Except.bind, hawait]
    rfl
  exact ⟨deadline, report, by simp only [verifyWithReport, hpass]⟩

/-- A timeout that passes is that of the pending file's severity, or of a new request. -/
lemma late_cases {created now : ℤ} {payload : PendingRequest}
    (hrequest : Requests cfg stdout created files.pending payload) (hpassed : DeadlinePassed payload now)
    (haction : (cfg.timeoutPolicy.ruleFor payload.severity).onTimeout = .autoApprove) :
    ApprovesLate cfg files.pending ∨
      (cfg.timeoutPolicy.ruleFor cfg.severity).onTimeout = .autoApprove := by
  unfold Requests at hrequest
  split at hrequest
  · next bytes hbytes =>
    obtain ⟨text, htext, hparse, hschema⟩ := hrequest
    obtain ⟨raw, deadline, hraw, hdeadline, -⟩ := hpassed
    exact Or.inl ⟨bytes, text, payload, raw, deadline, hbytes, htext, hparse, hschema, hraw, hdeadline,
      haction⟩
  · subst hrequest
    exact Or.inr haction

/-- Whatever the system is like, what the verifier lets through is justified exactly when an approval
in the response file is one of the configured options, and without a response file no request in the
pending file approves late by its own severity while the configured one does not. -/
theorem decision_sound_iff (cfg : HumanVerifierConfig) (files : GateFiles) :
    (∀ stdout visits v report, v.files = files →
      verifyWithReport cfg stdout visits = none →
      verifyWithReport cfg stdout (visits ++ [v]) = some (.ok (.pass, report)) →
      Justified cfg stdout v) ↔
    (Approves cfg files.response → .approve ∈ cfg.decisionOptions) ∧
      (files.response = none → ApprovesLate cfg files.pending →
        (cfg.timeoutPolicy.ruleFor cfg.severity).onTimeout = .autoApprove) := by
  constructor
  · intro h
    constructor
    · intro happroves
      obtain ⟨now, hearly⟩ := exists_early cfg "" files.pending
      obtain ⟨report, hverify⟩ := verify_of_approves "" 0 now .cancelled happroves
      rcases h "" [] ⟨files, calmEnv 0 now, .cancelled⟩ report rfl rfl hverify with
        ⟨-, hoffered⟩ | ⟨hpassed, -⟩
      · exact hoffered
      · exact absurd hpassed hearly
    · intro hnone hlate
      obtain ⟨now, report, hverify⟩ := verify_of_late "" .cancelled hlate hnone
      rcases h "" [] ⟨files, calmEnv now now, .cancelled⟩ report rfl rfl hverify with
        ⟨⟨bytes, -, -, hbytes, -⟩, -⟩ | ⟨-, haction⟩
      · rw [hnone] at hbytes
        cases hbytes
      · exact haction
  · rintro ⟨hoffered, hseverity⟩ stdout visits v report rfl hwaits hpasses
    obtain ⟨files', hpass⟩ := verifyWithReport_passes hwaits hpasses
    rcases pass_passes hpass with happroves | ⟨hnone, payload, hrequest, hpassed, haction⟩
    · exact Or.inl ⟨happroves, hoffered happroves⟩
    · refine Or.inr ⟨⟨payload, hrequest, hpassed⟩, ?_⟩
      rcases late_cases hrequest hpassed haction with hlate | hconfigured
      · exact hseverity hnone hlate
      · exact hconfigured

end Soundness

section Unoffered

@[irreducible] def tallied {α : Type} [Encodable α] (a : α) : String := String.ofList (tally (Encodable.encode a))

@[irreducible] def untallied {α : Type} [Encodable α] (s : String) : Except String α :=
  match Encodable.decode s.toList.length with
  | some a => .ok a
  | none => .error "expected value"

lemma untallied_tallied {α : Type} [Encodable α] (a : α) : untallied (tallied a) = .ok a := by
  simp [untallied, tallied, tally]

/-- One way to write requests, responses and times. -/
@[reducible] def talliedFormat : GateFormat where
  printRequest := tallied
  parseRequest := untallied
  printResponse := tallied
  parseResponse := untallied
  toRfc3339 := tallied
  parseRfc3339 := untallied
  parseRequest_print := untallied_tallied
  parseResponse_print := untallied_tallied
  parseRfc3339_to := untallied_tallied

attribute [local instance] talliedFormat

/-- A person is asked to reject the review or to comment on it. -/
def commenting : HumanVerifierConfig where
  runDir := "runs/run"
  runId := "run"
  workflow := "review"
  phase := "review"
  artefactName := "review.md"
  artefactKind := .reviewMd
  severity := .high
  decisionOptions := [.reject, .commentOnly]
  options_ne := by simp
  timeoutPolicy := .default
  fallbackServer := false

def approval : HumanResponse where
  schemaVersion := 1
  phase := "review"
  claimedBy := "human"
  decidedAt := ""
  decision := .approve
  globalComment := none
  inlineCommentsPath := none

def approved : GateFiles :=
  ⟨some (textBytes (GateFormat.printRequest (newRequest commenting "" 0))),
    some (textBytes (GateFormat.printResponse approval))⟩

/-- A request of low severity whose deadline is at the time zero. -/
def lowRequest : PendingRequest :=
  { newRequest commenting "" 0 with severity := .low, timeoutAt := some (GateFormat.toRfc3339 0) }

def lowPending : GateFiles := ⟨some (textBytes (GateFormat.printRequest lowRequest)), none⟩

/-- An approval that was not offered passes, and no deadline stands behind it; and with no response a
request of low severity in the pending file passes late, though the configured severity blocks. -/
theorem unoffered_approval_passes :
    ((∃ report, verifyWithReport commenting "" [⟨approved, calmEnv 0 0, .cancelled⟩] =
        some (.ok (.pass, report))) ∧
      ¬ Justified commenting "" ⟨approved, calmEnv 0 0, .cancelled⟩) ∧
    ∃ now, (∃ report, verifyWithReport commenting "" [⟨lowPending, calmEnv now now, .cancelled⟩] =
        some (.ok (.pass, report))) ∧
      ¬ Justified commenting "" ⟨lowPending, calmEnv now now, .cancelled⟩ := by
  have happroves : Approves commenting approved.response := approves_print rfl rfl rfl
  have hlate : ApprovesLate commenting lowPending.pending :=
    approvesLate_print commenting lowRequest 0 rfl rfl rfl
  have hblocks : (commenting.timeoutPolicy.ruleFor commenting.severity).onTimeout ≠ .autoApprove := by
    simp [commenting, HumanTimeoutPolicy.default, HumanTimeoutPolicy.ruleFor]
  have hnone : lowPending.response = none := rfl
  obtain ⟨now, report, hlow⟩ := verify_of_late "" .cancelled hlate hnone
  refine ⟨⟨verify_of_approves "" 0 0 .cancelled happroves, ?_⟩, now, ⟨report, hlow⟩, ?_⟩
  · rintro (⟨-, hoffered⟩ | ⟨-, haction⟩)
    · simp [commenting] at hoffered
    · exact hblocks haction
  · rintro (⟨⟨bytes, -, -, hbytes, -⟩, -⟩ | ⟨-, haction⟩)
    · simp [hnone] at hbytes
    · exact hblocks haction

end Unoffered

end Loker.HumanGate
