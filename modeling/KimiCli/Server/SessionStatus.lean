import KimiCli.Prompt.Scheduler
import Mathlib.Data.Finset.Erase
import Mathlib.Data.Finset.Insert

/-!
# The status of a session

`SessionService` (`agent-core/src/services/session/sessionService.ts`) pushes the status of a
session, `SnapshotService` (`server/src/services/snapshot/snapshotService.ts`) computes it for the
snapshot.  Each keeps its own sets of active and aborted turns and updates them from the same events
of the bus.  A step is the delivery of one event to both, a call of `archive` or a read of the
session, or a change of what the other services answer that comes without an event.
-/

namespace KimiCli

open Transition

inductive SessionStatus
  | idle | running | awaitingApproval | awaitingQuestion | aborted
  deriving DecidableEq

/-- What the other services answer about a session. -/
structure StatusInputs where
  /-- The length of `approvalService.listPending`. -/
  approvals : ℕ := 0
  /-- The length of `questionService.listPending`. -/
  questions : ℕ := 0
  /-- `promptService.getCurrentPromptId`. -/
  currentPromptId : Option String := none
  deriving DecidableEq

/-- The sets of session ids that each of the services keeps. -/
structure TurnSets where
  activeTurns : Finset String := ∅
  abortedTurns : Finset String := ∅

/-- `_computeStatus`, which the services have in common. -/
def computeStatus (turns : TurnSets) (inputs : StatusInputs) (sessionId : String) :
    SessionStatus :=
  if inputs.approvals > 0 then .awaitingApproval
  else if inputs.questions > 0 then .awaitingQuestion
  else if inputs.currentPromptId.isSome ∨ sessionId ∈ turns.activeTurns then .running
  else if sessionId ∈ turns.abortedTurns then .aborted
  else .idle

inductive StatusEventType
  | turnStarted (agentId : String) (turnId : ℕ)
  | turnEnded (agentId : String) (turnId : ℕ) (reason : TurnEndReason)
  | promptSubmitted
  | promptCompleted
  | promptAborted
  | approvalRequested
  | approvalResolved
  | approvalExpired
  | questionRequested
  | questionAnswered
  | questionDismissed
  /-- Any other event. -/
  | unrelated
  deriving DecidableEq

/-- An event of the bus; a missing session id is the empty one. -/
structure StatusEvent where
  sessionId : String
  type : StatusEventType

/-! ## The handlers -/

/-- What both handlers do with the sets; `aborts` are the reasons that make a turn an aborted
one. -/
def TurnSets.handle (aborts : TurnEndReason → Bool) (turns : TurnSets) (event : StatusEvent) :
    TurnSets :=
  if event.sessionId = "" then turns
  else
    match event.type with
    | .turnStarted _ _ =>
      { activeTurns := insert event.sessionId turns.activeTurns
        abortedTurns := turns.abortedTurns.erase event.sessionId }
    | .turnEnded _ _ reason =>
      { activeTurns := turns.activeTurns.erase event.sessionId
        abortedTurns :=
          if aborts reason then insert event.sessionId turns.abortedTurns
          else turns.abortedTurns.erase event.sessionId }
    | .promptSubmitted =>
      { turns with abortedTurns := turns.abortedTurns.erase event.sessionId }
    | _ => turns

/-- The sets after `SessionService._handleBusEvent`. -/
def TurnSets.handleInSessionService : TurnSets → StatusEvent → TurnSets :=
  TurnSets.handle fun reason => reason = .cancelled || reason = .failed || reason = .filtered

/-- `SnapshotService._handleBusEvent`. -/
def TurnSets.handleInSnapshotService : TurnSets → StatusEvent → TurnSets :=
  TurnSets.handle fun reason => reason = .cancelled || reason = .failed

/-- `event.session.status_changed`. -/
structure StatusChanged where
  sessionId : String
  status : SessionStatus
  previousStatus : SessionStatus
  currentPromptId : Option String

/-- Both services, what the others answer, the published changes of status (newest first) and the
turns of the main agents that have started and not ended. -/
structure StatusServices where
  /-- `SessionService._statusBySession`. -/
  statusBySession : String → Option SessionStatus := fun _ => none
  sessionTurns : TurnSets := {}
  snapshotTurns : TurnSets := {}
  inputs : String → StatusInputs := fun _ => {}
  published : List StatusChanged := []
  mainTurns : String → List ℕ := fun _ => []
  /-- What the status depends on has changed last through an event of the bus. -/
  throughBus : String → Bool := fun _ => false

namespace StatusServices

/-- The status that `SessionService` computes. -/
def sessionStatus (s : StatusServices) (sessionId : String) : SessionStatus :=
  computeStatus s.sessionTurns (s.inputs sessionId) sessionId

/-- The status that `SnapshotService` computes. -/
def snapshotStatus (s : StatusServices) (sessionId : String) : SessionStatus :=
  computeStatus s.snapshotTurns (s.inputs sessionId) sessionId

/-- `_emitStatusChanged`. -/
def emitStatusChanged (s : StatusServices) (sessionId : String) : StatusServices :=
  let previous := (s.statusBySession sessionId).getD .idle
  let next := s.sessionStatus sessionId
  if previous = next then s
  else
    { s with
      statusBySession := Function.update s.statusBySession sessionId (some next)
      published := ⟨sessionId, next, previous, (s.inputs sessionId).currentPromptId⟩ ::
        s.published }

/-- The last status that was published for a session. -/
def lastPublished (s : StatusServices) (sessionId : String) : Option SessionStatus :=
  (s.published.find? (·.sessionId = sessionId)).map (·.status)

/-- `_patchSessionStatus`, which every read of a session ends with. -/
def patchSessionStatus (s : StatusServices) (sessionId : String) : StatusServices :=
  { s with
    statusBySession :=
      Function.update s.statusBySession sessionId (some (s.sessionStatus sessionId)) }

/-- `SessionService.archive`, after `core.rpc.archiveSession`. -/
def archive (s : StatusServices) (sessionId : String) : StatusServices :=
  { s with
    statusBySession := Function.update s.statusBySession sessionId none
    sessionTurns :=
      { activeTurns := s.sessionTurns.activeTurns.erase sessionId
        abortedTurns := s.sessionTurns.abortedTurns.erase sessionId } }

end StatusServices

/-- The open turns of a session's main agent after an event of the session. -/
def StatusEventType.openTurns (turns : List ℕ) : StatusEventType → List ℕ
  | .turnStarted "main" turnId => turns ++ [turnId]
  | .turnEnded "main" turnId _ => turns.erase turnId
  | _ => turns

inductive StatusAction
  /-- An event, and what the other services answer about its session when it is delivered. -/
  | publish (event : StatusEvent) (inputs : StatusInputs)
  /-- The answers change without an event. -/
  | change (sessionId : String) (inputs : StatusInputs)
  | archive (sessionId : String)
  | read (sessionId : String)

namespace StatusServices

/-- Both services with an event, before `SessionService` announces anything. -/
def receive (s : StatusServices) (event : StatusEvent) (inputs : StatusInputs) :
    StatusServices :=
  { s with
    inputs := Function.update s.inputs event.sessionId inputs
    sessionTurns := s.sessionTurns.handleInSessionService event
    snapshotTurns := s.snapshotTurns.handleInSnapshotService event
    mainTurns := Function.update s.mainTurns event.sessionId
      (event.type.openTurns (s.mainTurns event.sessionId))
    throughBus := Function.update s.throughBus event.sessionId
      (event.type ≠ .unrelated ∨
        s.throughBus event.sessionId ∧ inputs = s.inputs event.sessionId) }

/-- The delivery of an event to both services. -/
def deliver (s : StatusServices) (event : StatusEvent) (inputs : StatusInputs) : StatusServices :=
  if event.sessionId = "" ∨ event.type = .unrelated then s.receive event inputs
  else (s.receive event inputs).emitStatusChanged event.sessionId

def step (s : StatusServices) : StatusAction → Option StatusServices
  | .publish event inputs => some (s.deliver event inputs)
  | .change sessionId inputs =>
    some { s with
      inputs := Function.update s.inputs sessionId inputs
      throughBus := Function.update s.throughBus sessionId
        (s.throughBus sessionId ∧ inputs = s.inputs sessionId) }
  | .archive sessionId =>
    some { s.archive sessionId with
      throughBus := Function.update s.throughBus sessionId
        (s.throughBus sessionId ∧ sessionId ∉ s.sessionTurns.activeTurns ∧
          sessionId ∉ s.sessionTurns.abortedTurns) }
  | .read sessionId => some (s.patchSessionStatus sessionId)

/-- The status has one meaning. -/
structure OneMeaning (s : StatusServices) : Prop where
  same : ∀ sessionId, s.snapshotStatus sessionId = s.sessionStatus sessionId
  busy : ∀ sessionId, sessionId ≠ "" →
    s.mainTurns sessionId ≠ [] ∨ 0 < (s.inputs sessionId).approvals ∨
      0 < (s.inputs sessionId).questions →
    s.sessionStatus sessionId ≠ .idle ∧ s.sessionStatus sessionId ≠ .aborted
  current : ∀ sessionId, sessionId ≠ "" → s.throughBus sessionId = true →
    ∀ status, s.lastPublished sessionId = some status → status = s.sessionStatus sessionId

/-- No turn ends as filtered or while it leaves a turn of the main agent open; a session is archived
only when neither its sets nor its last published status say anything but idle, and a read records
only what was published last. -/
def Orderly (s : StatusServices) : StatusAction → Prop
  | .publish ⟨sessionId, .turnEnded agentId turnId reason⟩ _ =>
    reason ≠ .filtered ∧
      StatusEventType.openTurns (s.mainTurns sessionId) (.turnEnded agentId turnId reason) = []
  | .publish _ _ => True
  | .change _ _ => True
  | .archive sessionId =>
    sessionId ∉ s.sessionTurns.activeTurns ∧ sessionId ∉ s.sessionTurns.abortedTurns ∧
      ∀ status, s.lastPublished sessionId = some status → status = .idle
  | .read sessionId =>
    ∀ status, s.lastPublished sessionId = some status → status = s.sessionStatus sessionId

/-! ## What a handler leaves alone -/

variable {s t : StatusServices} {sessionId other : String}

theorem handle_active_of_ne (aborts : TurnEndReason → Bool) (turns : TurnSets)
    {event : StatusEvent} (ne : other ≠ event.sessionId) :
    other ∈ (turns.handle aborts event).activeTurns ↔ other ∈ turns.activeTurns := by
  unfold TurnSets.handle
  split
  · rfl
  · split <;> simp [ne]

theorem handle_aborted_of_ne (aborts : TurnEndReason → Bool) (turns : TurnSets)
    {event : StatusEvent} (ne : other ≠ event.sessionId) :
    other ∈ (turns.handle aborts event).abortedTurns ↔ other ∈ turns.abortedTurns := by
  unfold TurnSets.handle
  split
  · rfl
  · split
    case h_2 => split <;> simp [ne]
    all_goals simp [ne]

theorem handle_same (turns : TurnSets) {event : StatusEvent}
    (plain : ∀ agentId turnId reason, event.type = .turnEnded agentId turnId reason →
      reason ≠ .filtered) :
    turns.handleInSessionService event = turns.handleInSnapshotService event := by
  obtain ⟨sessionId, type⟩ := event
  cases type with
  | turnEnded agentId turnId reason =>
    have ne := plain agentId turnId reason rfl
    cases reason with
    | filtered => exact absurd rfl ne
    | completed | cancelled | failed => rfl
  | _ => rfl

variable {turns : TurnSets} {inputs : StatusInputs}

theorem active_of_openTurns {aborts : TurnEndReason → Bool} {event : StatusEvent}
    {mainTurns : List ℕ} (nonempty : event.sessionId ≠ "")
    (before : mainTurns ≠ [] → event.sessionId ∈ turns.activeTurns)
    (ended : ∀ agentId turnId reason, event.type = .turnEnded agentId turnId reason →
      event.type.openTurns mainTurns = [])
    (after : event.type.openTurns mainTurns ≠ []) :
    event.sessionId ∈ (turns.handle aborts event).activeTurns := by
  obtain ⟨sessionId, type⟩ := event
  simp only [TurnSets.handle, if_neg nonempty]
  cases type with
  | turnStarted => simp
  | turnEnded agentId turnId reason => exact absurd (ended agentId turnId reason rfl) after
  | _ => exact before after

theorem computeStatus_congr {turns' : TurnSets} (inputs : StatusInputs)
    (active : sessionId ∈ turns.activeTurns ↔ sessionId ∈ turns'.activeTurns)
    (aborted : sessionId ∈ turns.abortedTurns ↔ sessionId ∈ turns'.abortedTurns) :
    computeStatus turns inputs sessionId = computeStatus turns' inputs sessionId := by
  simp only [computeStatus, active, aborted]

theorem computeStatus_busy
    (busy : sessionId ∈ turns.activeTurns ∨ 0 < inputs.approvals ∨ 0 < inputs.questions) :
    computeStatus turns inputs sessionId ≠ .idle ∧
      computeStatus turns inputs sessionId ≠ .aborted := by
  unfold computeStatus
  split
  · decide
  split
  · decide
  split
  · decide
  case isFalse approvals questions active =>
    rcases busy with mem | some | some
    · exact absurd (.inr mem) active
    · exact absurd some approvals
    · exact absurd some questions

/-! ## The announcement -/

@[simp] theorem emit_sessionStatus (s : StatusServices) (sessionId other : String) :
    (s.emitStatusChanged sessionId).sessionStatus other = s.sessionStatus other := by
  unfold emitStatusChanged
  simp only
  split <;> rfl

theorem emit_statusBySession (s : StatusServices) (sessionId other : String) :
    ((s.emitStatusChanged sessionId).statusBySession other).getD .idle =
      if other = sessionId then s.sessionStatus sessionId
      else (s.statusBySession other).getD .idle := by
  unfold emitStatusChanged
  simp only
  by_cases same : other = sessionId
  · subst same
    split
    case isTrue unchanged => rw [if_pos rfl, unchanged]
    case isFalse => simp
  · rw [if_neg same]
    split
    · rfl
    · simp [Function.update_of_ne same]

theorem emit_lastPublished_of_ne (s : StatusServices) (ne : other ≠ sessionId) :
    (s.emitStatusChanged sessionId).lastPublished other = s.lastPublished other := by
  unfold emitStatusChanged lastPublished
  simp only
  split
  · rfl
  · rw [List.find?_cons_of_neg (by simpa using Ne.symm ne)]

/-- What is published last is what is remembered. -/
def Told (s : StatusServices) (sessionId : String) : Prop :=
  ∀ status, s.lastPublished sessionId = some status →
    (s.statusBySession sessionId).getD .idle = status

theorem emit_current (told : s.Told sessionId) {status : SessionStatus}
    (published : (s.emitStatusChanged sessionId).lastPublished sessionId = some status) :
    status = s.sessionStatus sessionId := by
  unfold emitStatusChanged at published
  simp only at published
  split at published
  case isTrue unchanged => rw [← unchanged, told status published]
  case isFalse =>
    simp only [lastPublished, List.find?_cons, decide_true, Option.map_some,
      Option.some.injEq] at published
    exact published.symm

/-! ## Runs -/

structure StatusBooks (s : StatusServices) : Prop where
  same : s.sessionTurns = s.snapshotTurns
  active : ∀ sessionId, sessionId ≠ "" → s.mainTurns sessionId ≠ [] →
    sessionId ∈ s.sessionTurns.activeTurns
  told : ∀ sessionId, s.Told sessionId
  current : ∀ sessionId, sessionId ≠ "" → s.throughBus sessionId = true →
    ∀ status, s.lastPublished sessionId = some status → status = s.sessionStatus sessionId

theorem StatusBooks.oneMeaning (books : s.StatusBooks) : s.OneMeaning where
  same sessionId := by rw [snapshotStatus, sessionStatus, books.same]
  busy sessionId nonempty busy :=
    computeStatus_busy (busy.imp_left (books.active sessionId nonempty))
  current := books.current

theorem receive_sessionStatus_of_ne (s : StatusServices) {event : StatusEvent}
    (inputs : StatusInputs) (ne : other ≠ event.sessionId) :
    (s.receive event inputs).sessionStatus other = s.sessionStatus other := by
  unfold sessionStatus receive
  simp only [Function.update_of_ne ne]
  exact computeStatus_congr _ (handle_active_of_ne _ _ ne) (handle_aborted_of_ne _ _ ne)

theorem StatusBooks.receive (books : s.StatusBooks) {event : StatusEvent}
    (orderly : s.Orderly (.publish event inputs)) :
    (s.receive event inputs).sessionTurns = (s.receive event inputs).snapshotTurns ∧
      ∀ sessionId, sessionId ≠ "" → (s.receive event inputs).mainTurns sessionId ≠ [] →
        sessionId ∈ (s.receive event inputs).sessionTurns.activeTurns := by
  have ended : ∀ agentId turnId reason, event.type = .turnEnded agentId turnId reason →
      reason ≠ .filtered ∧ event.type.openTurns (s.mainTurns event.sessionId) = [] := by
    obtain ⟨sessionId, type⟩ := event
    rintro agentId turnId reason rfl
    exact orderly
  refine ⟨?_, fun sessionId nonempty after => ?_⟩
  · show s.sessionTurns.handleInSessionService event = s.snapshotTurns.handleInSnapshotService event
    rw [← books.same]
    exact handle_same _ fun agentId turnId reason type => (ended agentId turnId reason type).1
  · by_cases own : sessionId = event.sessionId
    · subst own
      simp only [StatusServices.receive, Function.update_self] at after
      exact active_of_openTurns nonempty (books.active _ nonempty)
        (fun agentId turnId reason type => (ended agentId turnId reason type).2) after
    · simp only [StatusServices.receive, Function.update_of_ne own] at after
      exact (handle_active_of_ne _ _ own).2 (books.active sessionId nonempty after)

theorem StatusBooks.deliver (books : s.StatusBooks) {event : StatusEvent}
    (orderly : s.Orderly (.publish event inputs)) : (s.deliver event inputs).StatusBooks := by
  obtain ⟨same, active⟩ := books.receive orderly
  have told : ∀ sessionId, (s.receive event inputs).Told sessionId := books.told
  unfold StatusServices.deliver
  split
  case isTrue ignored =>
    refine ⟨same, active, told, fun sessionId nonempty throughBus status published => ?_⟩
    by_cases own : sessionId = event.sessionId
    · subst own
      have unrelated := ignored.resolve_left nonempty
      simp only [StatusServices.receive, Function.update_self, unrelated, ne_eq, not_true_eq_false,
        false_or, decide_eq_true_eq] at throughBus
      have unchanged : (s.receive event inputs).sessionStatus event.sessionId =
          s.sessionStatus event.sessionId := by
        unfold sessionStatus StatusServices.receive TurnSets.handleInSessionService TurnSets.handle
        simp [unrelated, throughBus.2]
      rw [unchanged]
      exact books.current _ nonempty throughBus.1 status published
    · rw [receive_sessionStatus_of_ne s inputs own]
      simp only [StatusServices.receive, Function.update_of_ne own] at throughBus
      exact books.current sessionId nonempty throughBus status published
  case isFalse handled =>
    generalize received : s.receive event inputs = r at same active told ⊢
    have kept : (r.emitStatusChanged event.sessionId).sessionTurns = r.sessionTurns ∧
        (r.emitStatusChanged event.sessionId).snapshotTurns = r.snapshotTurns ∧
        (r.emitStatusChanged event.sessionId).mainTurns = r.mainTurns ∧
        (r.emitStatusChanged event.sessionId).throughBus = r.throughBus := by
      unfold emitStatusChanged
      simp only
      split <;> exact ⟨rfl, rfl, rfl, rfl⟩
    obtain ⟨session, snapshot, mainTurns, throughBus⟩ := kept
    refine ⟨?_, ?_, fun sessionId status published => ?_,
      fun sessionId nonempty bus status published => ?_⟩
    · rw [session, snapshot]
      exact same
    · rw [session, mainTurns]
      exact active
    · rw [emit_statusBySession]
      by_cases own : sessionId = event.sessionId
      · subst own
        rw [if_pos rfl]
        exact (emit_current (told _) published).symm
      · rw [if_neg own]
        rw [emit_lastPublished_of_ne r own] at published
        exact told sessionId status published
    · rw [emit_sessionStatus]
      by_cases own : sessionId = event.sessionId
      · subst own
        exact emit_current (told _) published
      · rw [emit_lastPublished_of_ne r own] at published
        rw [throughBus] at bus
        subst received
        rw [receive_sessionStatus_of_ne s inputs own]
        simp only [StatusServices.receive, Function.update_of_ne own] at bus
        exact books.current sessionId nonempty bus status published

theorem StatusBooks.step {action : StatusAction} (books : s.StatusBooks)
    (orderly : s.Orderly action) (next : s.step action = some t) : t.StatusBooks := by
  cases action with
  | publish =>
    cases next
    exact books.deliver orderly
  | change sessionId =>
    cases next
    refine ⟨books.same, books.active, books.told, fun other nonempty bus status published => ?_⟩
    have current := books.current other nonempty
    unfold sessionStatus at current ⊢
    by_cases own : other = sessionId
    · subst own
      simp only [Function.update_self, decide_eq_true_eq] at bus ⊢
      rw [bus.2]
      exact current bus.1 status published
    · simp only [Function.update_of_ne own] at bus ⊢
      exact current bus status published
  | archive sessionId =>
    cases next
    obtain ⟨active, aborted, idle⟩ := orderly
    have turns : s.sessionTurns.activeTurns.erase sessionId = s.sessionTurns.activeTurns ∧
        s.sessionTurns.abortedTurns.erase sessionId = s.sessionTurns.abortedTurns :=
      ⟨Finset.erase_eq_of_notMem active, Finset.erase_eq_of_notMem aborted⟩
    simp only [archive, turns]
    refine ⟨books.same, books.active, fun other status published => ?_,
      fun other nonempty bus status published => ?_⟩
    · by_cases own : other = sessionId
      · subst own
        simpa using (idle status published).symm
      · simp only [Function.update_of_ne own]
        exact books.told other status published
    · refine books.current other nonempty ?_ status published
      by_cases own : other = sessionId
      · subst own
        simp only [Function.update_self, decide_eq_true_eq] at bus
        exact bus.1
      · simpa only [Function.update_of_ne own] using bus
  | read sessionId =>
    cases next
    refine ⟨books.same, books.active, fun other status published => ?_, books.current⟩
    unfold patchSessionStatus
    by_cases own : other = sessionId
    · subst own
      simpa using (orderly status published).symm
    · simp only [Function.update_of_ne own]
      exact books.told other status published

theorem statusBooks_init : StatusBooks {} where
  same := rfl
  active := by simp
  told := by simp [Told, lastPublished]
  current := by simp

/-- The status has one meaning in every state that an orderly run reaches. -/
theorem status_oneMeaning {actions : List StatusAction} (run : Run step Orderly {} actions s) :
    s.OneMeaning :=
  (run.invariant StatusBooks statusBooks_init
    fun _ _ _ books orderly next => books.step orderly next).oneMeaning

/-- The services after some actions. -/
def after (actions : List StatusAction) : StatusServices :=
  (exec step {} actions).getD {}

def mainTurnStarted : StatusAction := .publish ⟨"session", .turnStarted "main" 1⟩ {}

theorem status_oneMeaning_cancelled :
    (after [mainTurnStarted,
      .publish ⟨"session", .turnEnded "main" 1 .cancelled⟩ {}]).OneMeaning := by
  have first : Orderly {} mainTurnStarted := trivial
  have second : Orderly (after [mainTurnStarted])
      (.publish ⟨"session", .turnEnded "main" 1 .cancelled⟩ {}) := ⟨by decide, by decide⟩
  exact status_oneMeaning (.cons first rfl (.cons second rfl .nil))

/-- A turn that ends as filtered, the end of a subagent's turn while the main agent's goes on, an
archived session whose turn goes on, and a read between an approval that was stored without an event
and the next event. -/
theorem status_disagrees :
    ¬(after [mainTurnStarted, .publish ⟨"session", .turnEnded "main" 1 .filtered⟩ {}]).OneMeaning ∧
    ¬(after [mainTurnStarted, .publish ⟨"session", .turnStarted "sub" 2⟩ {},
      .publish ⟨"session", .turnEnded "sub" 2 .completed⟩ {}]).OneMeaning ∧
    ¬(after [mainTurnStarted, .archive "session"]).OneMeaning ∧
    ¬(after [mainTurnStarted, .change "session" ⟨1, 0, none⟩, .read "session",
      .publish ⟨"session", .promptSubmitted⟩ ⟨1, 0, none⟩]).OneMeaning := by
  refine ⟨fun meaning => ?_, fun meaning => ?_, fun meaning => ?_, fun meaning => ?_⟩
  · exact absurd (meaning.same "session") (by decide)
  · exact absurd (meaning.busy "session" (by decide) (.inl (by decide))).1 (by decide)
  · exact absurd (meaning.same "session") (by decide)
  · have current := meaning.current "session" (by decide) (by decide) .running (by decide)
    exact absurd current (by decide)

end StatusServices

end KimiCli
