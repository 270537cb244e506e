import Loker.HumanGate

/-! The history of one human-verified phase: passes of the verifier, posted decisions, timeouts and
restarts, over the files that the requests and the responses leave behind. -/

namespace Loker.GateHistory

open TextOps PhaseLock Programs HumanGate Transitions

section Model

inductive Server where
  | oneShot
  | daemon
  deriving DecidableEq, Repr

def Server.claimedBy : Server → String
  | .oneShot => "hitl_server"
  | .daemon => "loker_ui_daemon"

structure Post where
  server : Server
  decision : HumanDecision
  comment : Option String
  deriving DecidableEq, Repr

/-- What happens to the requests of the phase. A request is opened when its file is made; it is
asked when a pass finds no response and leaves it to wait. -/
inductive Event where
  | opened (time : ℤ)
  | asked (time : ℤ)
  | posted (response : HumanResponse)
  | consumed (response : HumanResponse)
  | autoDecided (outcome : HumanTimeoutOutcome) (time : ℤ)
  deriving DecidableEq, Repr

/-- `looked` is what the current pass has found in place of a response, `posting` the decision that
is posted under the lock of the phase and has found no response. The newest event of the log comes
first. -/
structure Gate where
  files : GateFiles
  clock : ℤ
  looked : Option (Except String (Option HumanResponse))
  posting : Option Post
  log : List Event

inductive Act where
  | look (error : Call → Option String)
  | finish (stdout : String) (env : PassEnv)
  | restart
  | postCheck (post : Post)
  | postWrite (decidedAt : String)
  | postFail
  | respond (bytes : Bytes)

variable [GateFormat] (cfg : HumanVerifierConfig)

def postResponse (post : Post) (decidedAt : String) : HumanResponse where
  schemaVersion := 1
  phase := cfg.phase
  claimedBy := post.server.claimedBy
  decidedAt := decidedAt
  decision := post.decision
  globalComment := post.comment
  inlineCommentsPath := none

def openedEvents (files files' : GateFiles) (created : ℤ) : List Event :=
  if files.pending.isNone ∧ files'.pending.isSome then [.opened created] else []

def passEvents (looked : Except String (Option HumanResponse)) (p : Pass) (now : ℤ) : List Event :=
  match p with
  | .serve _ _ => [.asked now]
  | .done _ report =>
      match report.timeoutOutcome with
      | .autoApproved | .autoFailed => [.autoDecided report.timeoutOutcome now]
      | .notTimedOut | .blocking =>
          match looked with
          | .ok none => [.asked now]
          | .ok (some response) => if response.phase = cfg.phase then [.consumed response] else []
          | .error _ => []

/-- The second half of a pass, after the response has been looked for. -/
def Gate.finished (g : Gate) (stdout : String) (env : PassEnv)
    (looked : Except String (Option HumanResponse)) : Gate :=
  match finish cfg stdout env looked g.files with
  | .error _ => { g with clock := env.now, looked := none }
  | .ok (p, files) =>
      { g with
        files
        clock := env.now
        looked := none
        log := passEvents cfg looked p env.now ++ (openedEvents g.files files env.created ++ g.log) }

/-- A restart ends a pass between its halves. A post holds the lock from its look at the response to
its end, and other posts are refused meanwhile; the verifier does not take the lock. -/
def step (g : Gate) : Act → Option Gate
  | .look error =>
      if g.looked.isNone then
        some { g with looked := some (parseResponse cfg ⟨g.clock, g.clock, error⟩ g.files) }
      else none
  | .finish stdout env =>
      match g.looked with
      | none => none
      | some looked =>
          if g.clock ≤ env.created ∧ env.created ≤ env.now then
            some (g.finished cfg stdout env looked)
          else none
  | .restart => some { g with looked := none }
  | .postCheck post =>
      if g.posting.isSome ∨ g.files.response.isSome then some g
      else some { g with posting := some post }
  | .postWrite decidedAt =>
      g.posting.map fun post =>
        let response := postResponse cfg post decidedAt
        { g with
          files := { g.files with
            response := some (textBytes (GateFormat.printResponse response)) }
          posting := none
          log := .posted response :: g.log }
  | .postFail => some { g with posting := none }
  | .respond bytes => some { g with files := { g.files with response := some bytes } }

/-- Nothing has been asked in the phase. -/
def start (clock : ℤ) : Gate := ⟨⟨none, none⟩, clock, none, none, []⟩

end Model

section Passes

variable [GateFormat] {cfg : HumanVerifierConfig} {stdout : String} {env : PassEnv}
  {files files' : GateFiles} {looked : Except String (Option HumanResponse)} {p : Pass}

/-- A request that is opened is the one in the file or a new one, and is in the file afterwards. -/
lemma openRequest_files {payload : PendingRequest}
    (h : openRequest cfg stdout env files = .ok (payload, files')) :
    files'.response = files.response ∧
      (files.pending.isSome ∧ files' = files ∨
        files.pending = none ∧ payload = newRequest cfg stdout env.created ∧
          files'.pending = some (textBytes (GateFormat.printRequest payload))) := by
  obtain ⟨request, hrequest, h⟩ := bind_eq_ok h
  obtain ⟨ensured, hensured, h⟩ := bind_eq_ok h
  cases h
  unfold pendingPayload at hrequest
  unfold ensurePendingFile at hensured
  split at hensured
  · next bytes hbytes =>
    cases hensured
    exact ⟨rfl, Or.inl ⟨by rw [hbytes]; rfl, rfl⟩⟩
  · next hnone =>
    rw [hnone] at hrequest
    obtain ⟨-, -, hensured⟩ := bind_eq_ok hensured
    obtain ⟨-, -, hensured⟩ := bind_eq_ok hensured
    cases hensured
    cases hrequest
    exact ⟨rfl, Or.inr ⟨hnone, rfl, rfl⟩⟩

omit [GateFormat] in
lemma consumeResponse_files (h : consumeResponse cfg env files = .ok files') :
    files'.pending = files.pending ∧ files'.response = none := by
  unfold consumeResponse at h
  split at h
  · next hnone =>
    cases h
    exact ⟨rfl, hnone⟩
  · obtain ⟨-, -, h⟩ := bind_eq_ok h
    obtain ⟨-, -, h⟩ := bind_eq_ok h
    cases h
    exact ⟨rfl, rfl⟩

/-- What the second half of a pass comes to. -/
lemma finish_cases (h : finish cfg stdout env looked files = .ok (p, files')) :
    (looked = .ok none ∧ ∃ payload, openRequest cfg stdout env files = .ok (payload, files') ∧
      p = awaitResponse cfg env payload) ∨
    (∃ response result timeoutAt, looked = .ok (some response) ∧ response.phase = cfg.phase ∧
      consumeResponse cfg env files = .ok files' ∧ p = .done result (defaultReport cfg timeoutAt)) ∨
    ((∀ response, looked = .ok (some response) → response.phase ≠ cfg.phase) ∧ looked ≠ .ok none ∧
      ∃ payload result timeoutAt, openRequest cfg stdout env files = .ok (payload, files') ∧
        p = .done result (defaultReport cfg timeoutAt)) := by
  unfold finish at h
  split at h
  · obtain ⟨⟨payload, opened⟩, hopen, h⟩ := bind_eq_ok h
    cases h
    exact Or.inr (Or.inr ⟨nofun, nofun, payload, _, _, hopen, rfl⟩)
  · next response =>
    split at h
    · next hphase =>
      obtain ⟨⟨payload, opened⟩, hopen, h⟩ := bind_eq_ok h
      cases h
      refine Or.inr (Or.inr ⟨fun r hr => ?_, nofun, payload, _, _, hopen, rfl⟩)
      obtain rfl : response = r := Option.some.inj (Except.ok.inj hr)
      exact hphase
    · next hphase =>
      obtain ⟨consumed, hconsume, h⟩ := bind_eq_ok h
      cases h
      exact Or.inr (Or.inl ⟨response, _, _, rfl, of_not_not hphase, hconsume, rfl⟩)
  · obtain ⟨⟨payload, opened⟩, hopen, h⟩ := bind_eq_ok h
    cases h
    exact Or.inl ⟨rfl, payload, hopen, rfl⟩

lemma finish_pending (h : finish cfg stdout env looked files = .ok (p, files')) :
    files'.pending = files.pending ∨ files.pending = none ∧
      files'.pending = some (textBytes (GateFormat.printRequest (newRequest cfg stdout env.created))) := by
  have hopened : ∀ payload, openRequest cfg stdout env files = .ok (payload, files') →
      files'.pending = files.pending ∨ files.pending = none ∧ files'.pending =
        some (textBytes (GateFormat.printRequest (newRequest cfg stdout env.created))) := by
    intro payload hopen
    rcases (openRequest_files hopen).2 with ⟨-, rfl⟩ | ⟨hnone, rfl, hnew⟩
    · exact Or.inl rfl
    · exact Or.inr ⟨hnone, hnew⟩
  rcases finish_cases h with ⟨-, payload, hopen, -⟩ | ⟨_, _, _, -, -, hconsume, -⟩ |
    ⟨-, -, payload, _, _, hopen, -⟩
  · exact hopened payload hopen
  · exact Or.inl (consumeResponse_files hconsume).1
  · exact hopened payload hopen

omit [GateFormat] in
lemma passEvents_cases (cfg : HumanVerifierConfig) (looked : Except String (Option HumanResponse))
    (p : Pass) (now : ℤ) :
    passEvents cfg looked p now = [] ∨ passEvents cfg looked p now = [.asked now] ∨
      (∃ outcome, passEvents cfg looked p now = [.autoDecided outcome now]) ∨
      ∃ r, looked = .ok (some r) ∧ r.phase = cfg.phase ∧
        passEvents cfg looked p now = [.consumed r] := by
  unfold passEvents
  split
  · exact Or.inr (Or.inl rfl)
  · split
    · exact Or.inr (Or.inr (Or.inl ⟨_, rfl⟩))
    · exact Or.inr (Or.inr (Or.inl ⟨_, rfl⟩))
    all_goals
      split
      · exact Or.inr (Or.inl rfl)
      · next r =>
        split
        · next hphase => exact Or.inr (Or.inr (Or.inr ⟨r, rfl, hphase, rfl⟩))
        · exact Or.inl rfl
      · exact Or.inl rfl

lemma awaitResponse_auto {payload : PendingRequest} {result : VerifyResult}
    {report : HumanVerifyReport} (h : awaitResponse cfg env payload = .done result report)
    (hauto : report.timeoutOutcome = .autoApproved ∨ report.timeoutOutcome = .autoFailed) :
    DeadlinePassed payload env.now ∧
      (cfg.timeoutPolicy.ruleFor payload.severity).onTimeout ≠ .block := by
  unfold awaitResponse at h
  dsimp only at h
  split at h
  · cases h
    simp at hauto
  · next late hlate =>
    split at h
    · cases h
    · cases h
      cases late with
      | false => simp at hauto
      | true =>
          refine ⟨timedOut_true hlate, fun hblock => ?_⟩
          simp [hblock, timeoutOutcome] at hauto

/-- Only a pass without a response decides by itself, on a request whose deadline has passed. -/
lemma passEvents_auto {outcome : HumanTimeoutOutcome} {time : ℤ}
    (h : finish cfg stdout env looked files = .ok (p, files'))
    (hmem : .autoDecided outcome time ∈ passEvents cfg looked p env.now) :
    looked = .ok none ∧ time = env.now ∧ ∃ payload,
      openRequest cfg stdout env files = .ok (payload, files') ∧ DeadlinePassed payload env.now ∧
      (cfg.timeoutPolicy.ruleFor payload.severity).onTimeout ≠ .block := by
  have hdone : ∃ result report, p = .done result report ∧ time = env.now ∧
      (report.timeoutOutcome = .autoApproved ∨ report.timeoutOutcome = .autoFailed) := by
    unfold passEvents at hmem
    split at hmem
    · simp at hmem
    · next result report =>
      split at hmem
      · next hauto =>
        simp only [List.mem_singleton, Event.autoDecided.injEq] at hmem
        exact ⟨result, report, rfl, hmem.2, Or.inl hauto⟩
      · next hauto =>
        simp only [List.mem_singleton, Event.autoDecided.injEq] at hmem
        exact ⟨result, report, rfl, hmem.2, Or.inr hauto⟩
      all_goals
        exfalso
        split at hmem
        · simp at hmem
        · split at hmem
          all_goals simp at hmem
        · simp at hmem
  obtain ⟨result, report, rfl, htime, hauto⟩ := hdone
  rcases finish_cases h with ⟨hlooked, payload, hopen, hp⟩ | ⟨_, _, _, -, -, -, hp⟩ |
    ⟨-, -, _, _, _, -, hp⟩
  · exact ⟨hlooked, htime, payload, hopen, awaitResponse_auto hp.symm hauto⟩
  · cases hp
    simp [defaultReport] at hauto
  · cases hp
    simp [defaultReport] at hauto

lemma passEvents_asked {time : ℤ} (h : finish cfg stdout env looked files = .ok (p, files'))
    (hmem : .asked time ∈ passEvents cfg looked p env.now) :
    looked = .ok none ∧ ∃ payload, openRequest cfg stdout env files = .ok (payload, files') := by
  rcases finish_cases h with ⟨hlooked, payload, hopen, -⟩ | ⟨r, _, _, rfl, hphase, -, rfl⟩ |
    ⟨hphase, hne, _, _, _, -, rfl⟩
  · exact ⟨hlooked, payload, hopen⟩
  · simp [passEvents, defaultReport, hphase] at hmem
  · exfalso
    unfold passEvents at hmem
    simp only [defaultReport] at hmem
    split at hmem
    · exact hne rfl
    · next r => simp [hphase r rfl] at hmem
    · simp at hmem

end Passes

section Timing

variable [GateFormat] {cfg : HumanVerifierConfig} {g g' : Gate} {act : Act}

/-- The newest events, back to the last consumed decision. -/
def current (log : List Event) : List Event :=
  log.takeWhile fun e => match e with
    | .consumed _ => false
    | _ => true

/-- Whoever is asked is asked a request that was opened since the last consumed decision, and such a
request has been pending for the timeout whenever the verifier decides by itself. -/
def Timely (cfg : HumanVerifierConfig) : List Event → Prop
  | [] => True
  | .asked _ :: log => Timely cfg log ∧ ∃ opened, .opened opened ∈ current log
  | .autoDecided _ time :: log => Timely cfg log ∧ ∃ opened timeout, .opened opened ∈ current log ∧
      (cfg.timeoutPolicy.ruleFor cfg.severity).timeout = some timeout ∧ opened + timeout ≤ time
  | _ :: log => Timely cfg log

/-- A pass that finds no response and a pending file finds that of a request that was opened since
the last consumed decision. -/
def Fresh (g : Gate) (act : Act) : Prop :=
  ∀ stdout env, act = .finish stdout env → g.looked = some (.ok none) → g.files.pending.isSome →
    ∃ time, .opened time ∈ current g.log

/-- The pending file is that of the only request that has been opened. -/
structure Traced (cfg : HumanVerifierConfig) (g : Gate) : Prop where
  absent : g.files.pending = none → ∀ time, .opened time ∉ g.log
  present : ∀ bytes, g.files.pending = some bytes → ∃ stdout created,
    bytes = textBytes (GateFormat.printRequest (newRequest cfg stdout created)) ∧
      ∀ time, .opened time ∈ g.log → time = created

lemma deadline_newRequest {stdout : String} {created now : ℤ}
    (h : DeadlinePassed (newRequest cfg stdout created) now) : ∃ timeout,
    (cfg.timeoutPolicy.ruleFor cfg.severity).timeout = some timeout ∧ created + timeout ≤ now := by
  obtain ⟨raw, deadline, hraw, hparse, hle⟩ := h
  obtain ⟨timeout, htimeout, rfl⟩ := Option.map_eq_some_iff.mp hraw
  rw [GateFormat.parseRfc3339_to] at hparse
  obtain rfl := Except.ok.inj hparse
  exact ⟨timeout, htimeout, hle⟩

omit [GateFormat] in
lemma opened_not_passEvents {looked : Except String (Option HumanResponse)} {p : Pass} {now time : ℤ} :
    .opened time ∉ passEvents cfg looked p now := by
  rcases passEvents_cases cfg looked p now with h | h | ⟨outcome, h⟩ | ⟨r, -, -, h⟩
  all_goals simp [h]

omit [GateFormat] in
lemma openedEvents_same {files files' : GateFiles} {created : ℤ}
    (h : files'.pending = files.pending) : openedEvents files files' created = [] := by
  unfold openedEvents
  rw [h]
  cases files.pending <;> rfl

omit [GateFormat] in
lemma openedEvents_new {files files' : GateFiles} {created : ℤ} {bytes : Bytes}
    (h : files.pending = none) (h' : files'.pending = some bytes) :
    openedEvents files files' created = [.opened created] := by
  simp [openedEvents, h, h']

lemma traced_finished {stdout : String} {env : PassEnv} {looked : Except String (Option HumanResponse)}
    (h : Traced cfg g) : Traced cfg (g.finished cfg stdout env looked) := by
  unfold Gate.finished
  split
  · exact ⟨h.absent, h.present⟩
  · next p files' hfinish =>
    rcases finish_pending hfinish with hsame | ⟨hnone, hnew⟩
    · rw [openedEvents_same hsame]
      have hlog : ∀ time, .opened time ∈ passEvents cfg looked p env.now ++ ([] ++ g.log) →
          .opened time ∈ g.log := by
        intro time hmem
        exact (List.mem_append.mp hmem).resolve_left opened_not_passEvents
      refine ⟨fun hnone time hmem => h.absent (hsame ▸ hnone) time (hlog time hmem), ?_⟩
      intro bytes hbytes
      obtain ⟨stdout, created, hprinted, hunique⟩ := h.present bytes (hsame ▸ hbytes)
      exact ⟨stdout, created, hprinted, fun time hmem => hunique time (hlog time hmem)⟩
    · rw [openedEvents_new hnone hnew]
      refine ⟨fun habsent => absurd (hnew.symm.trans habsent) nofun, fun bytes hbytes => ?_⟩
      refine ⟨stdout, env.created, Option.some.inj (hbytes.symm.trans hnew), fun time hmem => ?_⟩
      rcases List.mem_append.mp hmem with hmem | hmem
      · exact absurd hmem opened_not_passEvents
      · rcases List.mem_cons.mp hmem with heq | hmem
        · exact Event.opened.inj heq
        · exact absurd hmem (h.absent hnone time)

/-- A pass without a response is about a request that was opened since the last consumed decision. -/
lemma opened_current {stdout : String} {env : PassEnv} {files' : GateFiles} {payload : PendingRequest}
    (htraced : Traced cfg g) (hlooked : g.looked = some (.ok none))
    (hfresh : Fresh g (.finish stdout env))
    (hopen : openRequest cfg stdout env g.files = .ok (payload, files')) :
    ∃ stdout₀ created, payload = newRequest cfg stdout₀ created ∧
      .opened created ∈ current (openedEvents g.files files' env.created ++ g.log) := by
  rcases (openRequest_files hopen).2 with ⟨hsome, rfl⟩ | ⟨hnone, rfl, hnew⟩
  · obtain ⟨bytes, hbytes⟩ := Option.isSome_iff_exists.mp hsome
    obtain ⟨stdout₀, created, hprinted, hunique⟩ := htraced.present bytes hbytes
    obtain ⟨time, htime⟩ := hfresh stdout env rfl hlooked hsome
    obtain rfl := hunique time ((List.takeWhile_prefix _).subset htime)
    have hrequest := openRequest_ok hopen
    rw [hbytes, hprinted] at hrequest
    refine ⟨stdout₀, time, requests_print hrequest, ?_⟩
    rwa [openedEvents_same rfl]
  · refine ⟨stdout, env.created, rfl, ?_⟩
    rw [openedEvents_new hnone hnew]
    simp [current]

lemma timely_finished {stdout : String} {env : PassEnv} {looked : Except String (Option HumanResponse)}
    (htraced : Traced cfg g) (htimely : Timely cfg g.log) (hlooked : g.looked = some looked)
    (hfresh : Fresh g (.finish stdout env)) : Timely cfg (g.finished cfg stdout env looked).log := by
  unfold Gate.finished
  split
  · exact htimely
  next p files' hfinish =>
  have hopened : Timely cfg (openedEvents g.files files' env.created ++ g.log) := by
    rcases finish_pending hfinish with hsame | ⟨hnone, hnew⟩
    · rw [openedEvents_same hsame]
      exact htimely
    · rw [openedEvents_new hnone hnew]
      exact htimely
  show Timely cfg (passEvents cfg looked p env.now ++ (openedEvents g.files files' env.created ++ g.log))
  rcases passEvents_cases cfg looked p env.now with h | h | ⟨outcome, h⟩ | ⟨r, -, -, h⟩
  · rwa [h]
  · obtain ⟨rfl, payload, hopen⟩ := passEvents_asked hfinish (by rw [h]; exact List.mem_singleton_self _)
    obtain ⟨-, created, -, hmem⟩ := opened_current htraced hlooked hfresh hopen
    rw [h]
    exact ⟨hopened, created, hmem⟩
  · obtain ⟨rfl, -, payload, hopen, hpassed, -⟩ :=
      passEvents_auto hfinish (by rw [h]; exact List.mem_singleton_self _)
    obtain ⟨stdout₀, created, rfl, hmem⟩ := opened_current htraced hlooked hfresh hopen
    obtain ⟨timeout, htimeout, hle⟩ := deadline_newRequest hpassed
    rw [h]
    exact ⟨hopened, created, timeout, hmem, htimeout, hle⟩
  · rwa [h]

lemma step_traced (h : Traced cfg g) (hstep : step cfg g act = some g') : Traced cfg g' := by
  cases act with
  | look error =>
      simp only [step] at hstep
      split at hstep
      · cases hstep
        exact ⟨h.absent, h.present⟩
      · cases hstep
  | finish stdout env =>
      simp only [step] at hstep
      split at hstep
      · cases hstep
      split at hstep
      · cases hstep
        exact traced_finished h
      · cases hstep
  | restart =>
      cases hstep
      exact ⟨h.absent, h.present⟩
  | postCheck post =>
      simp only [step] at hstep
      split at hstep
      · cases hstep
        exact h
      · cases hstep
        exact ⟨h.absent, h.present⟩
  | postWrite decidedAt =>
      obtain ⟨post, hpost, rfl⟩ := Option.map_eq_some_iff.mp hstep
      refine ⟨fun hnone time hmem => ?_, fun bytes hbytes => ?_⟩
      · rcases List.mem_cons.mp hmem with heq | hmem
        · cases heq
        · exact h.absent hnone time hmem
      · obtain ⟨stdout, created, hprinted, hunique⟩ := h.present bytes hbytes
        refine ⟨stdout, created, hprinted, fun time hmem => ?_⟩
        rcases List.mem_cons.mp hmem with heq | hmem
        · cases heq
        · exact hunique time hmem
  | postFail =>
      cases hstep
      exact ⟨h.absent, h.present⟩
  | respond bytes =>
      cases hstep
      exact ⟨h.absent, h.present⟩

lemma traced_start {clock : ℤ} : Traced cfg (start clock) :=
  ⟨fun _ _ hmem => absurd hmem List.not_mem_nil, nofun⟩

lemma step_timely (htraced : Traced cfg g) (htimely : Timely cfg g.log) (hfresh : Fresh g act)
    (hstep : step cfg g act = some g') : Timely cfg g'.log := by
  cases act with
  | look error =>
      simp only [step] at hstep
      split at hstep
      · cases hstep
        exact htimely
      · cases hstep
  | finish stdout env =>
      simp only [step] at hstep
      split at hstep
      · cases hstep
      next looked hlooked =>
      split at hstep
      · cases hstep
        exact timely_finished htraced htimely hlooked hfresh
      · cases hstep
  | postCheck post =>
      simp only [step] at hstep
      split at hstep
      · cases hstep
        exact htimely
      · cases hstep
        exact htimely
  | postWrite decidedAt =>
      obtain ⟨post, -, rfl⟩ := Option.map_eq_some_iff.mp hstep
      exact htimely
  | restart | postFail | respond bytes =>
      cases hstep
      exact htimely

/-- In every history in which no pass without a response takes up the request of a consumed
decision, the request that is pending keeps its deadline, and the verifier decides by itself only on
a request that was opened since the last consumed decision and has been pending for the timeout. -/
theorem auto_decisions_timely {clock : ℤ} (hrun : Run (step cfg) Fresh (start clock) g) :
    Traced cfg g ∧ Timely cfg g.log := by
  have hboth := hrun.invariant (I := fun g => Traced cfg g ∧ Timely cfg g.log)
    ⟨traced_start, trivial⟩ fun _ _ _ hkept hfresh hstep =>
      ⟨step_traced hkept.1 hstep, step_timely hkept.1 hkept.2 hfresh hstep⟩
  exact hboth

end Timing

section Answers

variable [GateFormat] {cfg : HumanVerifierConfig} {g g' : Gate} {act : Act} {log : List Event}
  {r : HumanResponse}

/-- The newest events, back to the end of the last request: its decision was consumed, or the
verifier decided by itself. -/
def sinceEnded (log : List Event) : List Event :=
  log.takeWhile fun e => match e with
    | .consumed _ | .autoDecided _ _ => false
    | _ => true

/-- The response was posted while the request was asked and nobody had answered it. -/
def Answered (r : HumanResponse) (log : List Event) : Prop :=
  ∃ later earlier, sinceEnded log = later ++ .posted r :: earlier ∧ (∃ time, .asked time ∈ earlier) ∧
    ∀ r', .posted r' ∉ earlier

/-- Every decision that was consumed had been posted for the very request. -/
def Backed : List Event → Prop
  | [] => True
  | .consumed r :: log => Backed log ∧ Answered r log
  | _ :: log => Backed log

/-- Responses are written by the two servers. -/
def ByPosts : Act → Prop
  | .respond _ => False
  | _ => True

/-- A post writes its response while a request is asked, and the verifier does not decide by itself
when a response has been written since it looked. -/
def Awaited (cfg : HumanVerifierConfig) (g : Gate) : Act → Prop
  | .postWrite _ => g.posting.isSome → ∃ time, .asked time ∈ sinceEnded g.log
  | .finish stdout env => g.looked = some (.ok none) →
      (∃ payload, Requests cfg stdout env.created g.files.pending payload ∧
        DeadlinePassed payload env.now ∧
        (cfg.timeoutPolicy.ruleFor payload.severity).onTimeout ≠ .block) →
      g.files.response = none
  | _ => True

/-- The response that is there was posted for the request that is asked. -/
structure Kept (g : Gate) : Prop where
  backed : Backed g.log
  absent : g.files.response = none → ∀ r, .posted r ∉ sinceEnded g.log
  present : ∀ bytes, g.files.response = some bytes → ∃ r,
    bytes = textBytes (GateFormat.printResponse r) ∧ Answered r g.log
  looked : ∀ r, g.looked = some (.ok (some r)) → g.files.response.isSome ∧ Answered r g.log
  posting : g.posting.isSome → g.files.response = none

omit [GateFormat] in
lemma Answered.asked {time : ℤ} (h : Answered r log) : Answered r (.asked time :: log) := by
  obtain ⟨later, earlier, hsince, hasked⟩ := h
  refine ⟨.asked time :: later, earlier, ?_, hasked⟩
  simpa [sinceEnded] using hsince

omit [GateFormat] in
lemma Answered.opened {time : ℤ} (h : Answered r log) : Answered r (.opened time :: log) := by
  obtain ⟨later, earlier, hsince, hasked⟩ := h
  refine ⟨.opened time :: later, earlier, ?_, hasked⟩
  simpa [sinceEnded] using hsince

omit [GateFormat] in
lemma answered_openedEvents {files files' : GateFiles} {created : ℤ} (h : Answered r log) :
    Answered r (openedEvents files files' created ++ log) := by
  unfold openedEvents
  split
  · exact h.opened
  · exact h

omit [GateFormat] in
lemma backed_openedEvents {files files' : GateFiles} {created : ℤ} (h : Backed log) :
    Backed (openedEvents files files' created ++ log) := by
  unfold openedEvents
  split
  · exact h
  · exact h

omit [GateFormat] in
lemma posted_openedEvents {files files' : GateFiles} {created : ℤ}
    (h : .posted r ∈ sinceEnded (openedEvents files files' created ++ log)) :
    .posted r ∈ sinceEnded log := by
  unfold openedEvents at h
  split at h
  · simpa [sinceEnded] using h
  · exact h

/-- A pass that leaves the response where it is, without a decision of its own. -/
lemma kept_asked {files' : GateFiles} {created clock : ℤ} {events : List Event} (h : Kept g)
    (hresponse : files'.response = g.files.response)
    (hevents : events = [] ∨ ∃ time, events = [.asked time]) :
    Kept { g with
      files := files'
      clock := clock
      looked := none
      log := events ++ (openedEvents g.files files' created ++ g.log) } := by
  refine ⟨?_, fun hnone r hmem => ?_, fun bytes hbytes => ?_, nofun, fun hposting => ?_⟩
  · rcases hevents with rfl | ⟨time, rfl⟩
    · exact backed_openedEvents h.backed
    · exact backed_openedEvents h.backed
  · have hposted : .posted r ∈ sinceEnded (openedEvents g.files files' created ++ g.log) := by
      rcases hevents with rfl | ⟨time, rfl⟩
      · exact hmem
      · simpa [sinceEnded] using hmem
    exact h.absent (hresponse ▸ hnone) r (posted_openedEvents hposted)
  · obtain ⟨r, hprinted, hanswered⟩ := h.present bytes (hresponse ▸ hbytes)
    refine ⟨r, hprinted, ?_⟩
    rcases hevents with rfl | ⟨time, rfl⟩
    · exact answered_openedEvents hanswered
    · exact (answered_openedEvents hanswered).asked
  · rw [hresponse]
    exact h.posting hposting

lemma kept_finished {stdout : String} {env : PassEnv} {looked : Except String (Option HumanResponse)}
    (h : Kept g) (hlooked : g.looked = some looked) (hok : Awaited cfg g (.finish stdout env)) :
    Kept (g.finished cfg stdout env looked) := by
  unfold Gate.finished
  split
  · exact ⟨h.backed, h.absent, h.present, nofun, h.posting⟩
  next p files' hfinish =>
  have hsame : files'.response = g.files.response →
      (∀ r, looked = .ok (some r) → r.phase ≠ cfg.phase) → Kept { g with
        files := files'
        clock := env.now
        looked := none
        log := passEvents cfg looked p env.now ++
          (openedEvents g.files files' env.created ++ g.log) } := by
    intro hresponse hphase
    rcases passEvents_cases cfg looked p env.now with he | he | ⟨outcome, he⟩ | ⟨r, hr, hp, -⟩
    · exact kept_asked h hresponse (Or.inl he)
    · exact kept_asked h hresponse (Or.inr ⟨_, he⟩)
    · obtain ⟨rfl, -, payload, hopen, hpassed, hblock⟩ :=
        passEvents_auto hfinish (by rw [he]; exact List.mem_singleton_self _)
      have hnone := hok hlooked ⟨payload, openRequest_ok hopen, hpassed, hblock⟩
      rw [he]
      refine ⟨backed_openedEvents h.backed, fun _ r hmem => ?_, fun bytes hbytes => ?_, nofun,
        fun hposting => hresponse.trans (h.posting hposting)⟩
      · simp [sinceEnded] at hmem
      · rw [hresponse, hnone] at hbytes
        cases hbytes
    · exact absurd hp (hphase r hr)
  rcases finish_cases hfinish with ⟨rfl, payload, hopen, -⟩ |
    ⟨r, result, timeoutAt, rfl, hphase, hconsume, rfl⟩ | ⟨hphase, -, payload, _, _, hopen, -⟩
  · exact hsame (openRequest_files hopen).1 nofun
  · obtain ⟨hsome, hanswered⟩ := h.looked r hlooked
    obtain ⟨hpending, hnone⟩ := consumeResponse_files hconsume
    have hevents : passEvents cfg (.ok (some r)) (.done result (defaultReport cfg timeoutAt)) env.now =
        [.consumed r] := by simp [passEvents, defaultReport, hphase]
    rw [hevents, openedEvents_same hpending]
    refine ⟨⟨h.backed, hanswered⟩, fun _ r' hmem => ?_, fun bytes hbytes => ?_, nofun, fun _ => hnone⟩
    · simp [sinceEnded] at hmem
    · rw [hnone] at hbytes
      cases hbytes
  · exact hsame (openRequest_files hopen).1 hphase

/-- A response that is found was posted for the request that is asked. -/
lemma kept_look {env : PassEnv} (h : Kept g) (hr : parseResponse cfg env g.files = .ok (some r)) :
    g.files.response.isSome ∧ Answered r g.log := by
  obtain ⟨bytes, text, hbytes, htext, hparse, -⟩ := parseResponse_ok hr
  obtain ⟨r', hprinted, hanswered⟩ := h.present bytes hbytes
  rw [hprinted, readToString_textBytes] at htext
  obtain rfl := Option.some.inj htext
  rw [GateFormat.parseResponse_print] at hparse
  obtain rfl := Except.ok.inj hparse
  exact ⟨by rw [hbytes]; rfl, hanswered⟩

lemma kept_posted {decidedAt : String} {post : Post} (h : Kept g) (hpost : g.posting = some post)
    (hasked : ∃ time, .asked time ∈ sinceEnded g.log) :
    Kept { g with
      files := { g.files with
        response := some (textBytes (GateFormat.printResponse (postResponse cfg post decidedAt))) }
      posting := none
      log := .posted (postResponse cfg post decidedAt) :: g.log } := by
  have hnone : g.files.response = none := h.posting (by rw [hpost]; rfl)
  have hanswered : Answered (postResponse cfg post decidedAt)
      (.posted (postResponse cfg post decidedAt) :: g.log) :=
    ⟨[], sinceEnded g.log, by simp [sinceEnded], hasked, h.absent hnone⟩
  refine ⟨h.backed, nofun, fun bytes hbytes => ?_, fun r hr => ?_, nofun⟩
  · cases hbytes
    exact ⟨_, rfl, hanswered⟩
  · have hsome := (h.looked r hr).1
    rw [hnone] at hsome
    cases hsome

lemma step_kept (h : Kept g) (hposts : ByPosts act) (hok : Awaited cfg g act)
    (hstep : step cfg g act = some g') : Kept g' := by
  cases act with
  | look error =>
      simp only [step] at hstep
      split at hstep
      · cases hstep
        refine ⟨h.backed, h.absent, h.present, fun r hr => kept_look (g := g) h (Option.some.inj hr),
          h.posting⟩
      · cases hstep
  | finish stdout env =>
      simp only [step] at hstep
      split at hstep
      · cases hstep
      next looked hlooked =>
      split at hstep
      · cases hstep
        exact kept_finished h hlooked hok
      · cases hstep
  | restart =>
      cases hstep
      exact ⟨h.backed, h.absent, h.present, nofun, h.posting⟩
  | postCheck post =>
      simp only [step] at hstep
      split at hstep
      · cases hstep
        exact h
      · next hfree =>
        cases hstep
        obtain ⟨-, hnone⟩ := not_or.mp hfree
        refine ⟨h.backed, h.absent, h.present, h.looked, fun _ => ?_⟩
        simpa using hnone
  | postWrite decidedAt =>
      obtain ⟨post, hpost, rfl⟩ := Option.map_eq_some_iff.mp hstep
      exact kept_posted h hpost (hok (by rw [hpost]; rfl))
  | postFail =>
      cases hstep
      exact ⟨h.backed, h.absent, h.present, h.looked, nofun⟩
  | respond bytes => exact absurd hposts id

/-- In every history in which the servers write while a request is asked, and no pass decides by
itself over a response written meanwhile, each decision that is consumed had been posted while the
very request was asked and unanswered. -/
theorem decisions_backed {clock : ℤ}
    (hrun : Run (step cfg) (fun g act => ByPosts act ∧ Awaited cfg g act) (start clock) g) :
    Backed g.log := by
  have hstart : Kept (start clock) :=
    ⟨trivial, fun _ _ hmem => absurd hmem (List.not_mem_nil), nofun, nofun, nofun⟩
  have hkept : Kept g := hrun.invariant hstart
    fun _ _ _ hkept hok hstep => step_kept hkept hok.1 hok.2 hstep
  exact hkept.backed

end Answers

section Steps

variable [GateFormat] {cfg : HumanVerifierConfig} {files : GateFiles} {stdout : String} {g : Gate}
  {clock now : ℤ} {r : HumanResponse} {q : PendingRequest} {posting : Option Post} {log : List Event}

lemma look_none (hnone : files.response = none) :
    step cfg ⟨files, clock, none, posting, log⟩ (.look fun _ => none) =
      some ⟨files, clock, some (.ok none), posting, log⟩ := by
  simp [step, parseResponse, hnone]

lemma look_response (hschema : r.schemaVersion = schemaVersion)
    (hresponse : files.response = some (textBytes (GateFormat.printResponse r))) :
    step cfg ⟨files, clock, none, posting, log⟩ (.look fun _ => none) =
      some ⟨files, clock, some (.ok (some r)), posting, log⟩ := by
  have hlooked : parseResponse cfg (calmPass clock) files = .ok (some r) :=
    parseResponse_of hresponse (readToString_textBytes _) (GateFormat.parseResponse_print r) hschema
  simp only [step, Option.isNone_none, if_true]
  exact congrArg (fun looked => some (Gate.mk files clock (some looked) posting log)) hlooked

lemma post_steps {post : Post} {decidedAt : String} (hnone : files.response = none) :
    step cfg ⟨files, clock, none, none, log⟩ (.postCheck post) =
        some ⟨files, clock, none, some post, log⟩ ∧
      step cfg ⟨files, clock, none, some post, log⟩ (.postWrite decidedAt) =
        some ⟨{ files with
          response := some (textBytes (GateFormat.printResponse (postResponse cfg post decidedAt))) },
          clock, none, none, .posted (postResponse cfg post decidedAt) :: log⟩ := by
  constructor
  · simp [step, hnone]
  · simp [step]

/-- The decision of a response is consumed. -/
lemma finish_response (hphase : r.phase = cfg.phase) (hsome : files.response.isSome)
    (hclock : clock ≤ now) :
    step cfg ⟨files, clock, some (.ok (some r)), posting, log⟩ (.finish stdout (calmPass now)) =
      some ⟨⟨files.pending, none⟩, now, none, posting, .consumed r :: log⟩ := by
  obtain ⟨bytes, hbytes⟩ := Option.isSome_iff_exists.mp hsome
  have hconsume : consumeResponse cfg (calmPass now) files = .ok ⟨files.pending, none⟩ := by
    unfold consumeResponse
    rw [hbytes]
    rfl
  have hfinish : finish cfg stdout (calmPass now) (.ok (some r)) files =
      .ok (.done (decisionResult cfg r)
        (defaultReport cfg (existingPendingTimeoutAt (calmPass now) ⟨files.pending, none⟩)),
        ⟨files.pending, none⟩) := by
    simp only [finish, hphase, hconsume]
    simp [bind, Except.bind, pure, Except.pure]
  have htimes : clock ≤ (calmPass now).created ∧ (calmPass now).created ≤ (calmPass now).now :=
    ⟨hclock, le_refl now⟩
  simp only [step, htimes, and_self, if_true, Gate.finished, hfinish, openedEvents_same]
  simp [passEvents, defaultReport, hphase, calmPass]

lemma openRequest_printed {response : Option Bytes} (hschema : q.schemaVersion = schemaVersion) :
    openRequest cfg stdout (calmPass now)
        ⟨some (textBytes (GateFormat.printRequest q)), response⟩ =
      .ok (q, ⟨some (textBytes (GateFormat.printRequest q)), response⟩) := by
  have hread : readFile (calmPass now) .readPending (textBytes (GateFormat.printRequest q)) =
      .ok (GateFormat.printRequest q) := by
    simp only [readFile, readToString_textBytes]
    rfl
  have hpayload : pendingPayload cfg stdout (calmPass now)
      ⟨some (textBytes (GateFormat.printRequest q)), response⟩ = .ok q := by
    simp only [pendingPayload, hread, during, Except.mapError]
    simp [bind, Except.bind, GateFormat.parseRequest_print, hschema]
  simp only [openRequest, hpayload]
  rfl

lemma timedOut_newRequest {created timeout : ℤ}
    (htimeout : (cfg.timeoutPolicy.ruleFor cfg.severity).timeout = some timeout) :
    HumanGate.timedOut (newRequest cfg stdout created) now =
      .ok (decide (created + timeout ≤ now)) := by
  simp only [HumanGate.timedOut, newRequest, htimeout, Option.map_some, GateFormat.parseRfc3339_to]
  rfl

/-- A new request is asked. -/
lemma finish_open {timeout : ℤ} {response : Option Bytes} (hserver : cfg.fallbackServer = false)
    (htimeout : (cfg.timeoutPolicy.ruleFor cfg.severity).timeout = some timeout)
    (hlong : 0 < timeout) (hclock : clock ≤ now) :
    step cfg ⟨⟨none, response⟩, clock, some (.ok none), posting, log⟩
        (.finish stdout (calmPass now)) =
      some ⟨⟨some (textBytes (GateFormat.printRequest (newRequest cfg stdout now))), response⟩, now,
        none, posting, .asked now :: .opened now :: log⟩ := by
  have hlate : ¬ now + timeout ≤ now := by omega
  have hopen : openRequest cfg stdout (calmPass now) ⟨none, response⟩ =
      .ok (newRequest cfg stdout now,
        ⟨some (textBytes (GateFormat.printRequest (newRequest cfg stdout now))), response⟩) := rfl
  have hawait : awaitResponse cfg (calmPass now) (newRequest cfg stdout now) =
      .done (.fail ("waiting for human review on " ++ cfg.phase))
        ⟨cfg.severity, (newRequest cfg stdout now).timeoutAt,
          (cfg.timeoutPolicy.ruleFor cfg.severity).onTimeout, .notTimedOut⟩ := by
    simp only [awaitResponse, calmPass, timedOut_newRequest htimeout, hlate]
    simp [hserver, outcomeResult, newRequest]
  have hfinish : finish cfg stdout (calmPass now) (.ok none) ⟨none, response⟩ =
      .ok (awaitResponse cfg (calmPass now) (newRequest cfg stdout now),
        ⟨some (textBytes (GateFormat.printRequest (newRequest cfg stdout now))), response⟩) := by
    simp only [finish, hopen]
    rfl
  have htimes : clock ≤ (calmPass now).created ∧ (calmPass now).created ≤ (calmPass now).now :=
    ⟨hclock, le_refl now⟩
  simp only [step, htimes, and_self, if_true, Gate.finished, hfinish, hawait]
  simp [passEvents, openedEvents, calmPass]

/-- A request whose deadline has passed is decided, however long ago it was opened. -/
lemma finish_late {timeout created : ℤ} {stdout₀ : String} {response : Option Bytes}
    {outcome : HumanTimeoutOutcome}
    (htimeout : (cfg.timeoutPolicy.ruleFor cfg.severity).timeout = some timeout)
    (haction : timeoutOutcome (cfg.timeoutPolicy.ruleFor cfg.severity).onTimeout = outcome)
    (hauto : outcome = .autoApproved ∨ outcome = .autoFailed)
    (hlate : created + timeout ≤ now) (hclock : clock ≤ now) :
    step cfg ⟨⟨some (textBytes (GateFormat.printRequest (newRequest cfg stdout₀ created))), response⟩,
        clock, some (.ok none), posting, log⟩ (.finish stdout (calmPass now)) =
      some ⟨⟨some (textBytes (GateFormat.printRequest (newRequest cfg stdout₀ created))), response⟩,
        now, none, posting, .autoDecided outcome now :: log⟩ := by
  have hopen : openRequest cfg stdout (calmPass now)
      ⟨some (textBytes (GateFormat.printRequest (newRequest cfg stdout₀ created))), response⟩ =
      .ok (newRequest cfg stdout₀ created,
        ⟨some (textBytes (GateFormat.printRequest (newRequest cfg stdout₀ created))), response⟩) :=
    openRequest_printed rfl
  have hawait : awaitResponse cfg (calmPass now) (newRequest cfg stdout₀ created) =
      .done (outcomeResult cfg cfg.severity outcome)
        ⟨cfg.severity, (newRequest cfg stdout₀ created).timeoutAt,
          (cfg.timeoutPolicy.ruleFor cfg.severity).onTimeout, outcome⟩ := by
    simp only [awaitResponse, calmPass, timedOut_newRequest htimeout, hlate, decide_true]
    simp [newRequest, haction]
  have hfinish : finish cfg stdout (calmPass now) (.ok none)
      ⟨some (textBytes (GateFormat.printRequest (newRequest cfg stdout₀ created))), response⟩ =
      .ok (awaitResponse cfg (calmPass now) (newRequest cfg stdout₀ created),
        ⟨some (textBytes (GateFormat.printRequest (newRequest cfg stdout₀ created))), response⟩) := by
    simp only [finish, hopen]
    rfl
  have htimes : clock ≤ (calmPass now).created ∧ (calmPass now).created ≤ (calmPass now).now :=
    ⟨hclock, le_refl now⟩
  simp only [step, htimes, and_self, if_true, Gate.finished, hfinish, hawait, openedEvents_same]
  rcases hauto with rfl | rfl
  · simp [passEvents, calmPass]
  · simp [passEvents, calmPass]

end Steps

section Review

/-- A review of low severity is approved by itself after an hour. -/
def lowReview : HumanVerifierConfig where
  runDir := "runs/run"
  runId := "run"
  workflow := "review"
  phase := "review"
  artefactName := "review.md"
  artefactKind := .reviewMd
  severity := .low
  decisionOptions := [.approve, .reject]
  options_ne := by simp
  timeoutPolicy := .default
  fallbackServer := false

variable [GateFormat]

def rejection : HumanResponse := postResponse lowReview ⟨.daemon, .reject, none⟩ ""

def reviewBytes : Bytes := textBytes (GateFormat.printRequest (newRequest lowReview "" 0))

/-- The review is asked at time 0. -/
def reviewAsked : Gate := ⟨⟨some reviewBytes, none⟩, 0, none, none, [.asked 0, .opened 0]⟩

/-- The rejection of the review has been consumed. -/
def reviewRejected : Gate :=
  ⟨⟨some reviewBytes, none⟩, 0, none, none,
    [.consumed rejection, .posted rejection, .asked 0, .opened 0]⟩

/-- A request is decided after an hour by the file of the request from time 0. -/
def decidedAfter (log : List Event) : Gate :=
  ⟨⟨some reviewBytes, none⟩, hours 1, none, none, .autoDecided .autoApproved (hours 1) :: log⟩

/-- Both conditions at once. -/
def Careful (g : Gate) (act : Act) : Prop := Fresh g act ∧ ByPosts act ∧ Awaited lowReview g act

lemma careful_look (g : Gate) : Careful g (.look fun _ => none) := ⟨nofun, trivial, trivial⟩

/-- A pass finds no response and asks. -/
lemma asked_steps : step lowReview (start 0) (.look fun _ => none) =
      some { start 0 with looked := some (.ok none) } ∧
    step lowReview { start 0 with looked := some (.ok none) } (.finish "" (calmPass 0)) =
      some reviewAsked := by
  have hlong : 0 < hours 1 := by decide
  exact ⟨look_none rfl, finish_open rfl rfl hlong (le_refl 0)⟩

lemma run_reviewAsked : Run (step lowReview) Careful (start 0) reviewAsked := by
  obtain ⟨hlook, hfinish⟩ := asked_steps
  refine (Run.start.step (careful_look _) hlook).step (a := .finish _ _)
    ⟨?_, trivial, fun _ _ => rfl⟩ hfinish
  intro stdout env hact hnone hsome
  cases hsome

def reviewPost : Post := ⟨.daemon, .reject, none⟩

/-- A post is written after it has found no response. -/
def reviewPosted (asked : Gate) (decision : HumanDecision) : Gate :=
  let response := postResponse lowReview ⟨.daemon, decision, none⟩ ""
  ⟨⟨asked.files.pending, some (textBytes (GateFormat.printResponse response))⟩, 0, none, none,
    .posted response :: asked.log⟩

/-- The review is rejected, and the next pass consumes that. -/
lemma rejected_steps : step lowReview reviewAsked (.postCheck reviewPost) =
      some { reviewAsked with posting := some reviewPost } ∧
    step lowReview { reviewAsked with posting := some reviewPost } (.postWrite "") =
      some (reviewPosted reviewAsked .reject) ∧
    step lowReview (reviewPosted reviewAsked .reject) (.look fun _ => none) =
      some { reviewPosted reviewAsked .reject with looked := some (.ok (some rejection)) } ∧
    step lowReview { reviewPosted reviewAsked .reject with looked := some (.ok (some rejection)) }
      (.finish "" (calmPass 0)) = some reviewRejected := by
  obtain ⟨hcheck, hwrite⟩ : step lowReview reviewAsked (.postCheck reviewPost) =
        some { reviewAsked with posting := some reviewPost } ∧
      step lowReview { reviewAsked with posting := some reviewPost } (.postWrite "") =
        some (reviewPosted reviewAsked .reject) := post_steps rfl
  exact ⟨hcheck, hwrite, look_response rfl rfl, finish_response rfl rfl (le_refl 0)⟩

lemma run_reviewRejected : Run (step lowReview) Careful (start 0) reviewRejected := by
  obtain ⟨hcheck, hwrite, hlook, hfinish⟩ := rejected_steps
  have hasked : ∃ time, .asked time ∈ sinceEnded reviewAsked.log :=
    ⟨0, by simp [sinceEnded, reviewAsked]⟩
  have hchecked := run_reviewAsked.step (a := .postCheck _) ⟨nofun, trivial, trivial⟩ hcheck
  have hposted := hchecked.step (a := .postWrite "") ⟨nofun, trivial, fun _ => hasked⟩ hwrite
  refine (hposted.step (careful_look _) hlook).step (a := .finish _ _) ⟨?_, trivial, ?_⟩ hfinish
  · intro stdout env hact hnone
    cases hnone
  · intro hnone
    cases hnone

/-- An hour after time 0 the request of the file is approved by itself. -/
lemma run_decidedAfter {meets : Gate → Act → Prop} {g : Gate} {log : List Event}
    (hrun : Run (step lowReview) meets (start 0) g)
    (hg : g = ⟨⟨some reviewBytes, none⟩, 0, none, none, log⟩)
    (hlooks : meets g (.look fun _ => none))
    (hfinishes : meets { g with looked := some (.ok none) } (.finish "" (calmPass (hours 1)))) :
    Run (step lowReview) meets (start 0) (decidedAfter log) := by
  subst hg
  have hlook : step lowReview ⟨⟨some reviewBytes, none⟩, 0, none, none, log⟩ (.look fun _ => none) =
      some ⟨⟨some reviewBytes, none⟩, 0, some (.ok none), none, log⟩ := look_none rfl
  have hlate : 0 + hours 1 ≤ hours 1 := by decide
  have hclock : 0 ≤ hours 1 := by decide
  have hfinish : step lowReview ⟨⟨some reviewBytes, none⟩, 0, some (.ok none), none, log⟩
      (.finish "" (calmPass (hours 1))) = some (decidedAfter log) :=
    finish_late rfl rfl (Or.inl rfl) hlate hclock
  exact (hrun.step hlooks hlook).step hfinishes hfinish

end Review

section Examples

attribute [local instance] talliedFormat

theorem auto_decisions_timely_review :
    Timely lowReview (decidedAfter reviewAsked.log).log := by
  have hrun : Run (step lowReview) Fresh (start 0) reviewAsked :=
    run_reviewAsked.mono fun _ _ h => h.1
  have hfresh : Fresh { reviewAsked with looked := some (.ok none) }
      (.finish "" (calmPass (hours 1))) := fun _ _ _ _ _ => ⟨0, by simp [current, reviewAsked]⟩
  exact (auto_decisions_timely (run_decidedAfter hrun rfl (careful_look _).1 hfresh)).2

/-- The file of a rejected request approves the next attempt of the phase. -/
theorem rejected_request_approves :
    Run (step lowReview) (fun _ _ => True) (start 0) (decidedAfter reviewRejected.log) ∧
      ¬ Timely lowReview (decidedAfter reviewRejected.log).log := by
  constructor
  · have hrun : Run (step lowReview) (fun _ _ => True) (start 0) reviewRejected :=
      run_reviewRejected.mono fun _ _ _ => trivial
    exact run_decidedAfter hrun rfl trivial trivial
  · rintro ⟨-, opened, -, hmem, -, -⟩
    simp [current, reviewRejected] at hmem

theorem decisions_backed_review : Backed reviewRejected.log :=
  decisions_backed (run_reviewRejected.mono fun _ _ h => h.2)

/-- An approval that was posted before anything was asked has been consumed. -/
def reviewForestalled : Gate :=
  let approval := postResponse lowReview ⟨.daemon, .approve, none⟩ ""
  ⟨⟨none, none⟩, 0, none, none, [.consumed approval, .posted approval]⟩

theorem early_approval_consumed :
    Run (step lowReview) (fun _ act => ByPosts act) (start 0) reviewForestalled ∧
      ¬ Backed reviewForestalled.log := by
  constructor
  · obtain ⟨hcheck, hwrite⟩ : step lowReview (start 0) (.postCheck ⟨.daemon, .approve, none⟩) =
          some { start 0 with posting := some ⟨.daemon, .approve, none⟩ } ∧
        step lowReview { start 0 with posting := some ⟨.daemon, .approve, none⟩ } (.postWrite "") =
          some (reviewPosted (start 0) .approve) := post_steps rfl
    have hlook : step lowReview (reviewPosted (start 0) .approve) (.look fun _ => none) =
        some { reviewPosted (start 0) .approve with
          looked := some (.ok (some (postResponse lowReview ⟨.daemon, .approve, none⟩ ""))) } :=
      look_response rfl rfl
    have hfinish : step lowReview { reviewPosted (start 0) .approve with
          looked := some (.ok (some (postResponse lowReview ⟨.daemon, .approve, none⟩ ""))) }
        (.finish "" (calmPass 0)) = some reviewForestalled := finish_response rfl rfl (le_refl 0)
    have hchecked : Run (step lowReview) (fun _ act => ByPosts act) (start 0) _ :=
      Run.start.step (a := Act.postCheck _) trivial hcheck
    have hposted := hchecked.step (a := Act.postWrite _) trivial hwrite
    exact (hposted.step (a := Act.look _) trivial hlook).step (a := Act.finish _ _) trivial hfinish
  · rintro ⟨-, later, earlier, hsince, ⟨time, htime⟩, -⟩
    have hnone : .asked time ∈ sinceEnded [.posted (postResponse lowReview ⟨.daemon, .approve, none⟩ "")] := by
      rw [hsince]
      exact List.mem_append_right _ (List.mem_cons_of_mem _ htime)
    simp [sinceEnded] at hnone

end Examples

end Loker.GateHistory
