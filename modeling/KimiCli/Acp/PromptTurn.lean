import KimiCli.Acp.EventsMap

/-!
# One ACP prompt and its turn

`acp-adapter/src/session.ts`, `runTurnBody`: the listener of a prompt, and a session in which
prompts are submitted, events are delivered to every listener in the order of the subscriptions,
and the calls that submit the prompts to the agent settle, in any order.

`sent`, `settlements` and `ownTurns` are records of the model: what a prompt has sent to the
client, the calls of its promise's `resolve` and `reject`, and the turns of the main agent whose
start it has heard.
-/

namespace KimiCli.Acp

open Transition

/-! ## Errors -/

inductive RequestError
  | invalidRequest (code : String) (details : Option Json) (message : String)
  | authRequired
  | internalError (message : String)

def TURN_AGENT_BUSY : String := "turn.agent_busy"

def isAuthErrorCode (code : String) : Bool :=
  code == "auth.login_required" || code == "provider.auth_error"

def authRequiredFromPayload (payload : Option KimiErrorPayload) : Option RequestError :=
  match payload with
  | some payload => if isAuthErrorCode payload.code then some .authRequired else none
  | none => none

/-- `code` is the `code` of an error that has one that is a string. -/
def authRequiredFromUnknown (code : Option String) : Option RequestError :=
  match code with
  | some code => if isAuthErrorCode code then some .authRequired else none
  | none => none

def mapPromptError (code : Option String) : RequestError :=
  (authRequiredFromUnknown code).getD (.internalError "session prompt failed")

/-! ## The listener -/

inductive PromptOutcome
  | resolved (stopReason : AcpStopReason)
  | rejected (error : RequestError)

/-- What a promise was settled upon. -/
inductive SettledUpon
  | event (event : Event)
  | kick

structure PromptSettlement where
  outcome : PromptOutcome
  upon : SettledUpon

structure PromptTurn where
  settled : Bool := false
  argsByToolCall : String → Option String := fun _ => none
  startedToolCalls : List String := []
  initialActiveTurnId : Option ℕ
  hasReceivedOwnTurnStarted : Bool := false
  subscribed : Bool := true
  /-- `kick()` has not settled. -/
  kicking : Bool := true
  sent : List SessionUpdate := []
  settlements : List PromptSettlement := []
  ownTurns : List ℕ := []

namespace PromptTurn

/-- The first check of the listener. -/
def trackStart (p : PromptTurn) (event : Event) : PromptTurn :=
  match event.body with
  | .turnStarted turnId =>
    if isFromMainAgent event then
      { p with
        hasReceivedOwnTurnStarted := p.hasReceivedOwnTurnStarted ||
          (p.initialActiveTurnId.isNone || p.initialActiveTurnId != some turnId)
        ownTurns := p.ownTurns ++ [turnId] }
    else p
  | _ => p

def sessionUpdate (p : PromptTurn) (update : SessionUpdate) : PromptTurn :=
  { p with sent := p.sent ++ [update] }

/-- `settled = true`, the two `clear()`, `unsub()` and the call of `resolve` or `reject`. -/
def settle (p : PromptTurn) (outcome : PromptOutcome) (upon : SettledUpon) : PromptTurn :=
  { p with
    settled := true
    argsByToolCall := fun _ => none
    startedToolCalls := []
    subscribed := false
    settlements := p.settlements ++ [⟨outcome, upon⟩] }

/-- The `plan` notification of a todo list. -/
def pushPlan (p : PromptTurn) (display : Option ToolInputDisplay) : PromptTurn :=
  match display.bind planFromDisplayBlock with
  | some planNote => p.sessionUpdate planNote
  | none => p

def toolCallStarted (p : PromptTurn) (turnId : ℕ) (toolCallId name : String) (args : Option Json)
    (description : Option String) (display : Option ToolInputDisplay) : PromptTurn :=
  let p := { p with
    argsByToolCall := Function.update p.argsByToolCall toolCallId (some (stringifyArgs args)) }
  let startedWireId := acpToolCallId turnId toolCallId
  let p :=
    if startedWireId ∈ p.startedToolCalls then
      p.sessionUpdate
        (toolCallStartedUpgradeToSessionUpdate turnId toolCallId name args description display)
    else
      { p with startedToolCalls := p.startedToolCalls ++ [startedWireId] }.sessionUpdate
        (toolCallStartToSessionUpdate turnId toolCallId name args description display)
  p.pushPlan display

def toolCallDelta (p : PromptTurn) (turnId : ℕ) (toolCallId : String)
    (name argumentsPart : Option String) : PromptTurn :=
  let deltaWireId := acpToolCallId turnId toolCallId
  if deltaWireId ∉ p.startedToolCalls then
    { p with
      argsByToolCall :=
        Function.update p.argsByToolCall toolCallId (some (argumentsPart.getD ""))
      startedToolCalls := p.startedToolCalls ++ [deltaWireId] }.sessionUpdate
      (toolCallLazyCreateToSessionUpdate turnId toolCallId name argumentsPart)
  else
    let args := (p.argsByToolCall toolCallId).getD "" ++ argumentsPart.getD ""
    { p with
      argsByToolCall := Function.update p.argsByToolCall toolCallId (some args) }.sessionUpdate
      (toolCallDeltaToSessionUpdate turnId toolCallId args)

def toolProgress (p : PromptTurn) (turnId : ℕ) (toolCallId : String) (kind : ToolUpdateKind)
    (text : Option String) : PromptTurn :=
  match toolProgressToSessionUpdate turnId toolCallId kind text with
  | some note => p.sessionUpdate note
  | none => p

def toolResult (p : PromptTurn) (turnId : ℕ) (toolCallId : String) (output : Option Json)
    (isError : Option Bool) : PromptTurn :=
  p.sessionUpdate (toolResultToSessionUpdate turnId toolCallId output isError)

/-- How a turn's end settles the promise. -/
def turnOutcome (reason : TurnEndReason) (error : Option KimiErrorPayload) : PromptOutcome :=
  match reason with
  | .failed =>
    match authRequiredFromPayload error with
    | some authErr => .rejected authErr
    | none => .resolved (turnEndReasonToStopReason .failed)
  | reason => .resolved (turnEndReasonToStopReason reason)

/-- The if-chain of the listener; the first component is `this.currentTurnId`. -/
def dispatch (current : Option ℕ) (p : PromptTurn) (event : Event) : Option ℕ × PromptTurn :=
  match event.body with
  | .error payload =>
    if p.settled then (current, p)
    else if !isFromMainAgent event then (current, p)
    else if payload.code ≠ TURN_AGENT_BUSY then (current, p)
    else if p.hasReceivedOwnTurnStarted then (current, p)
    else (none, p.settle
      (.rejected (.invalidRequest payload.code payload.details payload.message)) (.event event))
  | .turnEnded _ reason error =>
    if p.settled then (current, p)
    else if !isFromMainAgent event then (current, p)
    else (none, p.settle (turnOutcome reason error) (.event event))
  | body =>
    if !isFromMainAgent event then (current, p)
    else match body with
      | .assistantDelta _ delta => (current, p.sessionUpdate (assistantDeltaToSessionUpdate delta))
      | .thinkingDelta _ delta => (current, p.sessionUpdate (thinkingDeltaToSessionUpdate delta))
      | .toolCallStarted turnId toolCallId name args description display =>
        (current, p.toolCallStarted turnId toolCallId name args description display)
      | .toolCallDelta turnId toolCallId name argumentsPart =>
        (current, p.toolCallDelta turnId toolCallId name argumentsPart)
      | .toolProgress turnId toolCallId kind text =>
        (current, p.toolProgress turnId toolCallId kind text)
      | .toolResult turnId toolCallId output isError =>
        (current, p.toolResult turnId toolCallId output isError)
      | _ => (current, p)

/-- `this.currentTurnId` after the second check of the listener. -/
def trackCurrent (current : Option ℕ) (event : Event) : Option ℕ :=
  match event.body.turnId? with
  | some turnId => if isFromMainAgent event then some turnId else current
  | none => current

def onEvent (current : Option ℕ) (p : PromptTurn) (event : Event) : Option ℕ × PromptTurn :=
  (p.trackStart event).dispatch (trackCurrent current event) event

/-- The `catch` of `kick()`; nothing is cleared here. -/
def kickRejected (p : PromptTurn) (code : Option String) : PromptTurn :=
  if p.settled then { p with kicking := false }
  else { p with
    kicking := false
    settled := true
    subscribed := false
    settlements := p.settlements ++ [⟨.rejected (mapPromptError code), .kick⟩] }

end PromptTurn

/-! ## The session -/

structure AcpSession where
  currentTurnId : Option ℕ := none
  prompts : List PromptTurn := []

/-- One event goes to the listeners in the order in which they were added. -/
def deliver (event : Event) : Option ℕ → List PromptTurn → Option ℕ × List PromptTurn
  | current, [] => (current, [])
  | current, p :: ps =>
    let heard := if p.subscribed then p.onEvent current event else (current, p)
    let rest := deliver event heard.1 ps
    (rest.1, heard.2 :: rest.2)

inductive PromptLabel
  /-- `runTurnBody` is called. -/
  | submit
  | event (event : Event)
  | kickResolved (i : ℕ)
  /-- With the `code` of the error. -/
  | kickRejected (i : ℕ) (code : Option String)

namespace AcpSession

def kicked (s : AcpSession) (i : ℕ) (update : PromptTurn → PromptTurn) : Option AcpSession :=
  match s.prompts[i]? with
  | some p => if p.kicking then some { s with prompts := s.prompts.set i (update p) } else none
  | none => none

def step (s : AcpSession) : PromptLabel → Option AcpSession
  | .submit =>
    some { s with prompts := s.prompts ++ [{ initialActiveTurnId := s.currentTurnId }] }
  | .event event =>
    let heard := deliver event s.currentTurnId s.prompts
    some { currentTurnId := heard.1, prompts := heard.2 }
  | .kickResolved i => s.kicked i fun p => { p with kicking := false }
  | .kickRejected i code => s.kicked i fun p => p.kickRejected code

end AcpSession

/-! ## What one event does to one prompt -/

namespace PromptTurn

/-- Everything but the tool cards and what was sent is the same. -/
structure SameTurn (p q : PromptTurn) : Prop where
  settled : q.settled = p.settled
  subscribed : q.subscribed = p.subscribed
  settlements : q.settlements = p.settlements
  initialActiveTurnId : q.initialActiveTurnId = p.initialActiveTurnId
  hasReceivedOwnTurnStarted : q.hasReceivedOwnTurnStarted = p.hasReceivedOwnTurnStarted
  ownTurns : q.ownTurns = p.ownTurns

theorem SameTurn.refl (p : PromptTurn) : SameTurn p p := ⟨rfl, rfl, rfl, rfl, rfl, rfl⟩

theorem sameTurn_sessionUpdate (p : PromptTurn) (update : SessionUpdate) :
    SameTurn p (p.sessionUpdate update) :=
  ⟨rfl, rfl, rfl, rfl, rfl, rfl⟩

theorem sameTurn_toolCallStarted (p : PromptTurn) (turnId : ℕ) (toolCallId name : String)
    (args : Option Json) (description : Option String) (display : Option ToolInputDisplay) :
    SameTurn p (p.toolCallStarted turnId toolCallId name args description display) := by
  rw [toolCallStarted]
  simp only [pushPlan]
  split <;> split <;> exact ⟨rfl, rfl, rfl, rfl, rfl, rfl⟩

theorem sameTurn_toolCallDelta (p : PromptTurn) (turnId : ℕ) (toolCallId : String)
    (name argumentsPart : Option String) :
    SameTurn p (p.toolCallDelta turnId toolCallId name argumentsPart) := by
  rw [toolCallDelta]
  simp only []
  split <;> exact ⟨rfl, rfl, rfl, rfl, rfl, rfl⟩

theorem sameTurn_toolProgress (p : PromptTurn) (turnId : ℕ) (toolCallId : String)
    (kind : ToolUpdateKind) (text : Option String) :
    SameTurn p (p.toolProgress turnId toolCallId kind text) := by
  rw [toolProgress]
  split
  · exact sameTurn_sessionUpdate _ _
  · exact .refl p

/-- The events that settle an unsettled prompt, and how. -/
inductive Ends (p : PromptTurn) : Event → PromptOutcome → Prop
  | busy {event : Event} {payload : KimiErrorPayload} (body : event.body = .error payload)
      (main : isFromMainAgent event = true) (code : payload.code = TURN_AGENT_BUSY)
      (waiting : p.hasReceivedOwnTurnStarted = false) :
      Ends p event (.rejected (.invalidRequest payload.code payload.details payload.message))
  | turn {event : Event} {turnId : ℕ} {reason : TurnEndReason} {error : Option KimiErrorPayload}
      (body : event.body = .turnEnded turnId reason error)
      (main : isFromMainAgent event = true) :
      Ends p event (turnOutcome reason error)

/-- The listener settles the promise or leaves the turn's bookkeeping alone. -/
theorem dispatch_cases {p : PromptTurn} (unsettled : p.settled = false) (current : Option ℕ)
    (event : Event) :
    ((p.dispatch current event).1 = current ∧ SameTurn p (p.dispatch current event).2) ∨
      ∃ outcome, Ends p event outcome ∧
        p.dispatch current event = (none, p.settle outcome (.event event)) := by
  rw [dispatch]
  cases body : event.body with
  | error =>
    simp only [unsettled, Bool.false_eq_true, if_false]
    split
    · exact .inl ⟨rfl, .refl p⟩
    split
    · exact .inl ⟨rfl, .refl p⟩
    split
    · exact .inl ⟨rfl, .refl p⟩
    case isFalse main code started =>
      exact .inr ⟨_, .busy body (by simpa using main) (not_not.1 code) (by simpa using started),
        rfl⟩
  | turnEnded =>
    simp only [unsettled, Bool.false_eq_true, if_false]
    split
    · exact .inl ⟨rfl, .refl p⟩
    case isFalse main => exact .inr ⟨_, .turn body (by simpa using main), rfl⟩
  | assistantDelta turnId delta | thinkingDelta turnId delta =>
    left
    simp only []
    split
    · exact ⟨rfl, .refl p⟩
    · exact ⟨rfl, sameTurn_sessionUpdate _ _⟩
  | toolCallStarted =>
    left
    simp only []
    split
    · exact ⟨rfl, .refl p⟩
    · exact ⟨rfl, sameTurn_toolCallStarted _ _ _ _ _ _ _⟩
  | toolCallDelta =>
    left
    simp only []
    split
    · exact ⟨rfl, .refl p⟩
    · exact ⟨rfl, sameTurn_toolCallDelta _ _ _ _ _⟩
  | toolProgress =>
    left
    simp only []
    split
    · exact ⟨rfl, .refl p⟩
    · exact ⟨rfl, sameTurn_toolProgress _ _ _ _ _⟩
  | toolResult =>
    left
    simp only []
    split
    · exact ⟨rfl, .refl p⟩
    · exact ⟨rfl, sameTurn_sessionUpdate _ _⟩
  | turnStarted turnId | ofTurn turnId | other =>
    left
    simp only []
    split <;> exact ⟨rfl, .refl p⟩

/-! ## The books of a prompt -/

/-- The bookkeeping that holds of a prompt whatever happens in the session. -/
structure Books (p : PromptTurn) : Prop where
  subscribed : p.subscribed = !p.settled
  settled : p.settled = true ↔ p.settlements ≠ []
  once : p.settlements.length ≤ 1
  started : p.hasReceivedOwnTurnStarted = true ↔
    ∃ turnId ∈ p.ownTurns, p.initialActiveTurnId ≠ some turnId

theorem Books.same {p q : PromptTurn} (books : Books p) (same : SameTurn p q) : Books q where
  subscribed := by rw [same.subscribed, same.settled, books.subscribed]
  settled := by rw [same.settled, same.settlements, books.settled]
  once := by rw [same.settlements]; exact books.once
  started := by
    rw [same.hasReceivedOwnTurnStarted, same.ownTurns, same.initialActiveTurnId, books.started]

theorem Books.settlements_nil {p : PromptTurn} (books : Books p) (unsettled : p.settled = false) :
    p.settlements = [] := by
  by_contra answered
  rw [books.settled.2 answered] at unsettled
  cases unsettled

theorem Books.settle {p : PromptTurn} (books : Books p) (unsettled : p.settled = false)
    (outcome : PromptOutcome) (upon : SettledUpon) : Books (p.settle outcome upon) where
  subscribed := rfl
  settled := by simp [PromptTurn.settle]
  once := by simp [PromptTurn.settle, books.settlements_nil unsettled]
  started := books.started

theorem Books.trackStart {p : PromptTurn} (books : Books p) (event : Event) :
    Books (p.trackStart event) := by
  rw [PromptTurn.trackStart]
  split
  case h_2 => exact books
  case h_1 turnId body =>
    split
    case isFalse => exact books
    case isTrue =>
      refine ⟨books.subscribed, books.settled, books.once, ?_⟩
      have flag : (p.initialActiveTurnId.isNone || p.initialActiveTurnId != some turnId) = true ↔
          p.initialActiveTurnId ≠ some turnId := by
        cases p.initialActiveTurnId <;> simp
      simp only [Bool.or_eq_true p.hasReceivedOwnTurnStarted, books.started, flag,
        List.mem_append, List.mem_singleton]
      constructor
      · rintro (⟨t, mem, other⟩ | other)
        · exact ⟨t, .inl mem, other⟩
        · exact ⟨turnId, .inr rfl, other⟩
      · rintro ⟨t, mem | rfl, other⟩
        · exact .inl ⟨t, mem, other⟩
        · exact .inr other

theorem trackStart_settled (p : PromptTurn) (event : Event) :
    (p.trackStart event).settled = p.settled := by
  rw [trackStart]
  split
  · split <;> rfl
  · rfl

theorem trackStart_of_ends {p q : PromptTurn} {event : Event} {outcome : PromptOutcome}
    (ends : Ends q event outcome) : p.trackStart event = p := by
  cases ends with
  | busy body | turn body => simp [trackStart, body]

theorem Books.onEvent {p : PromptTurn} (books : Books p) (unsettled : p.settled = false)
    (current : Option ℕ) (event : Event) : Books (p.onEvent current event).2 := by
  have before := trackStart_settled p event
  rw [unsettled] at before
  obtain ⟨-, same⟩ | ⟨outcome, -, now⟩ :=
    dispatch_cases before (trackCurrent current event) event
  · exact (books.trackStart event).same same
  · rw [PromptTurn.onEvent, now]
    exact (books.trackStart event).settle before _ _

theorem Books.kickRejected {p : PromptTurn} (books : Books p) (code : Option String) :
    Books (p.kickRejected code) := by
  rw [PromptTurn.kickRejected]
  split
  · exact ⟨books.subscribed, books.settled, books.once, books.started⟩
  case isFalse unsettled =>
    have empty := books.settlements_nil (by simpa using unsettled)
    exact ⟨rfl, by simp, by simp [empty], books.started⟩

/-- The prompt answers once, for a turn of its own. -/
structure Answers (p : PromptTurn) : Prop where
  once : p.settlements.length ≤ 1
  subscribed : p.subscribed = true ↔ p.settlements = []
  /-- Resolved upon the end of a main-agent turn whose start it has heard, with its reason. -/
  resolved : ∀ x ∈ p.settlements, ∀ stopReason, x.outcome = .resolved stopReason →
    ∃ event turnId reason error, x.upon = .event event ∧ isFromMainAgent event = true ∧
      event.body = .turnEnded turnId reason error ∧ turnId ∈ p.ownTurns ∧
      stopReason = turnEndReasonToStopReason reason
  /-- Rejected as busy only where no turn of the main agent has started. -/
  busy : ∀ x ∈ p.settlements, ∀ code details message,
    x.outcome = .rejected (.invalidRequest code details message) → p.ownTurns = []

/-- What an event must be for an unsettled prompt to answer for its own turn.  A main-agent turn
that ends is one whose start the prompt has heard (an end that fails for want of a login resolves
nothing); a busy error comes before every such start, or after one of a turn that was not the
session's current one at the submission. -/
def Meets (p : PromptTurn) (event : Event) : Prop :=
  match event.body with
  | .turnEnded turnId reason error =>
    isFromMainAgent event = true →
      (reason = .failed → authRequiredFromPayload error = none) → turnId ∈ p.ownTurns
  | .error payload =>
    isFromMainAgent event = true → payload.code = TURN_AGENT_BUSY →
      p.ownTurns = [] ∨ ∃ turnId ∈ p.ownTurns, p.initialActiveTurnId ≠ some turnId
  | _ => True

theorem Books.answers {p : PromptTurn} (books : Books p) (unsettled : p.settled = false) :
    Answers p := by
  have empty := books.settlements_nil unsettled
  refine ⟨books.once, ?_, ?_, ?_⟩
  · simp [books.subscribed, unsettled, empty]
  · intro x mem
    rw [empty] at mem
    cases mem
  · intro x mem
    rw [empty] at mem
    cases mem

theorem turnOutcome_resolved {reason : TurnEndReason} {error : Option KimiErrorPayload}
    {stopReason : AcpStopReason} (resolved : turnOutcome reason error = .resolved stopReason) :
    stopReason = turnEndReasonToStopReason reason ∧
      (reason = .failed → authRequiredFromPayload error = none) := by
  cases reason with
  | failed =>
    rw [turnOutcome] at resolved
    split at resolved
    · cases resolved
    case h_2 noAuth => exact ⟨(PromptOutcome.resolved.inj resolved).symm, fun _ => noAuth⟩
  | completed | cancelled | filtered =>
    exact ⟨(PromptOutcome.resolved.inj resolved).symm, nofun⟩

theorem authRequiredFromPayload_eq (payload : Option KimiErrorPayload) :
    authRequiredFromPayload payload = none ∨
      authRequiredFromPayload payload = some .authRequired := by
  cases payload with
  | none => exact .inl rfl
  | some payload =>
    by_cases auth : isAuthErrorCode payload.code = true
    · exact .inr (if_pos auth)
    · exact .inl (if_neg auth)

theorem turnOutcome_ne_invalidRequest {reason : TurnEndReason} {error : Option KimiErrorPayload}
    {code message : String} {details : Option Json} :
    turnOutcome reason error ≠ .rejected (.invalidRequest code details message) := by
  cases reason with
  | failed =>
    rw [turnOutcome]
    obtain noAuth | auth := authRequiredFromPayload_eq error
    · rw [noAuth]
      exact nofun
    · rw [auth]
      exact nofun
  | completed | cancelled | filtered => exact nofun

theorem mapPromptError_ne_invalidRequest {code : Option String} {code' message : String}
    {details : Option Json} : mapPromptError code ≠ .invalidRequest code' details message := by
  cases code with
  | none => exact nofun
  | some =>
    simp only [mapPromptError, authRequiredFromUnknown]
    split <;> exact nofun

theorem Books.answers_settle {p : PromptTurn} (books : Books p) (unsettled : p.settled = false)
    {event : Event} {outcome : PromptOutcome} (ends : Ends p event outcome)
    (meets : p.Meets event) : Answers (p.settle outcome (.event event)) := by
  have empty := books.settlements_nil unsettled
  have only : (p.settle outcome (.event event)).settlements = [⟨outcome, .event event⟩] := by
    simp [PromptTurn.settle, empty]
  refine ⟨by simp [only], by simp [PromptTurn.settle], ?_, ?_⟩
  · intro x mem stopReason resolved
    rw [only, List.mem_singleton] at mem
    subst mem
    cases ends with
    | busy => cases resolved
    | @turn turnId reason error body main =>
      obtain ⟨stop, noAuth⟩ := turnOutcome_resolved resolved
      rw [Meets, body] at meets
      exact ⟨event, turnId, reason, error, rfl, main, body, meets main noAuth, stop⟩
  · intro x mem code details message rejected
    rw [only, List.mem_singleton] at mem
    subst mem
    cases ends with
    | @busy payload body main code waiting =>
      rw [Meets, body] at meets
      obtain ownNone | started := meets main code
      · exact ownNone
      · rw [books.started.2 started] at waiting
        cases waiting
    | turn => exact absurd rejected turnOutcome_ne_invalidRequest

theorem Books.answers_onEvent {p : PromptTurn} (books : Books p) (unsettled : p.settled = false)
    {event : Event} (meets : p.Meets event) (current : Option ℕ) :
    Answers (p.onEvent current event).2 := by
  have before := trackStart_settled p event
  rw [unsettled] at before
  obtain ⟨-, same⟩ | ⟨outcome, ends, now⟩ :=
    dispatch_cases before (trackCurrent current event) event
  · refine ((books.trackStart event).same same).answers ?_
    rw [same.settled, before]
  · rw [PromptTurn.onEvent, now]
    rw [trackStart_of_ends ends] at ends ⊢
    exact books.answers_settle unsettled ends meets

theorem Books.answers_kickRejected {p : PromptTurn} (books : Books p) (answers : Answers p)
    (code : Option String) : Answers (p.kickRejected code) := by
  rw [PromptTurn.kickRejected]
  split
  · exact ⟨answers.once, answers.subscribed, answers.resolved, answers.busy⟩
  case isFalse unsettled =>
    have empty := books.settlements_nil (by simpa using unsettled)
    refine ⟨by simp [empty], by simp, ?_, ?_⟩
    · intro x mem stopReason resolved
      rw [empty, List.nil_append, List.mem_singleton] at mem
      subst mem
      cases resolved
    · intro x mem code' details message rejected
      rw [empty, List.nil_append, List.mem_singleton] at mem
      subst mem
      exact absurd (PromptOutcome.rejected.inj rejected) mapPromptError_ne_invalidRequest

end PromptTurn

/-! ## The session's prompts -/

theorem deliver_getElem? (event : Event) : ∀ (current : Option ℕ) (ps : List PromptTurn) (i : ℕ),
    ∃ now, (deliver event current ps).2[i]? =
      ps[i]?.map fun p => if p.subscribed then (p.onEvent now event).2 else p
  | current, [], i => ⟨current, rfl⟩
  | current, p :: ps, 0 => by
    refine ⟨current, ?_⟩
    rw [deliver]
    simp only [List.getElem?_cons_zero, Option.map_some]
    split <;> rfl
  | current, p :: ps, i + 1 => by
    rw [deliver]
    simp only [List.getElem?_cons_succ]
    exact deliver_getElem? event _ ps i

theorem deliver_eraseIdx (event : Event) : ∀ (current : Option ℕ) (ps : List PromptTurn) (i : ℕ),
    (∀ p, ps[i]? = some p → p.subscribed = false) →
    (deliver event current (ps.eraseIdx i)).1 = (deliver event current ps).1
  | current, [], i, _ => rfl
  | current, p :: ps, 0, gone => by
    have off := gone p rfl
    rw [List.eraseIdx_cons_zero, deliver]
    simp [off]
  | current, p :: ps, i + 1, gone => by
    rw [List.eraseIdx_cons_succ, deliver, deliver]
    exact deliver_eraseIdx event _ ps i gone

namespace AcpSession

/-- Every unsettled prompt's condition is met. -/
def OwnTurnEvents (s : AcpSession) : PromptLabel → Prop
  | .event event => ∀ p ∈ s.prompts, p.subscribed = true → p.Meets event
  | _ => True

theorem kicked_eq {s t : AcpSession} {i : ℕ} {update : PromptTurn → PromptTurn}
    (next : s.kicked i update = some t) :
    ∃ p, s.prompts[i]? = some p ∧ t = { s with prompts := s.prompts.set i (update p) } := by
  rw [kicked] at next
  split at next
  · split at next
    · exact ⟨_, ‹_›, (Option.some.inj next).symm⟩
    · cases next
  · cases next

/-- Where a prompt of the next state comes from. -/
theorem step_prompt {s t : AcpSession} {label : PromptLabel} (next : s.step label = some t)
    {q : PromptTurn} (mem : q ∈ t.prompts) :
    q ∈ s.prompts ∨ q = { initialActiveTurnId := s.currentTurnId } ∨
    (∃ p ∈ s.prompts, ∃ event current, label = .event event ∧ p.subscribed = true ∧
      q = (p.onEvent current event).2) ∨
    (∃ p ∈ s.prompts, q = { p with kicking := false }) ∨
    ∃ p ∈ s.prompts, ∃ code, q = p.kickRejected code := by
  cases label with
  | submit =>
    cases next
    obtain old | new := List.mem_append.1 mem
    · exact .inl old
    · exact .inr (.inl (List.mem_singleton.1 new))
  | event event =>
    cases next
    obtain ⟨i, here⟩ := List.mem_iff_getElem?.1 mem
    obtain ⟨current, after⟩ := deliver_getElem? event s.currentTurnId s.prompts i
    simp only [after, Option.map_eq_some_iff] at here
    obtain ⟨p, before, heard⟩ := here
    have listed := List.mem_iff_getElem?.2 ⟨i, before⟩
    split at heard
    case isTrue on => exact .inr (.inr (.inl ⟨p, listed, event, current, rfl, on, heard.symm⟩))
    case isFalse => exact .inl (heard ▸ listed)
  | kickResolved i =>
    obtain ⟨p, here, rfl⟩ := kicked_eq next
    obtain old | new := List.mem_or_eq_of_mem_set mem
    · exact .inl old
    · exact .inr (.inr (.inr (.inl ⟨p, List.mem_iff_getElem?.2 ⟨i, here⟩, new⟩)))
  | kickRejected i code =>
    obtain ⟨p, here, rfl⟩ := kicked_eq next
    obtain old | new := List.mem_or_eq_of_mem_set mem
    · exact .inl old
    · exact .inr (.inr (.inr (.inr ⟨p, List.mem_iff_getElem?.2 ⟨i, here⟩, code, new⟩)))

/-- What holds of every prompt in every run whose events meet the prompts' conditions. -/
theorem run_answers {s : AcpSession} {labels : List PromptLabel}
    (run : Run step OwnTurnEvents {} labels s) : ∀ p ∈ s.prompts, p.Books ∧ p.Answers := by
  refine Run.invariant (fun s => ∀ p ∈ s.prompts, p.Books ∧ p.Answers) run nofun ?_
  intro s label t all allowed next q mem
  obtain old | rfl | ⟨p, listed, event, current, rfl, on, rfl⟩ | ⟨p, listed, rfl⟩ |
    ⟨p, listed, code, rfl⟩ := step_prompt next mem
  · exact all q old
  · have books : PromptTurn.Books { initialActiveTurnId := s.currentTurnId } :=
      ⟨rfl, by simp, by simp, by simp⟩
    exact ⟨books, books.answers rfl⟩
  · have books := (all p listed).1
    have unsettled : p.settled = false := by simpa [books.subscribed] using on
    exact ⟨books.onEvent unsettled current event,
      books.answers_onEvent unsettled (allowed p listed on) current⟩
  · obtain ⟨books, answers⟩ := all p listed
    exact ⟨⟨books.subscribed, books.settled, books.once, books.started⟩,
      ⟨answers.once, answers.subscribed, answers.resolved, answers.busy⟩⟩
  · obtain ⟨books, answers⟩ := all p listed
    exact ⟨books.kickRejected code, books.answers_kickRejected answers code⟩

/-! ## After the settlement -/

/-- Nothing that happens after `s` changes what prompt `i` has sent or recorded, and the prompt
has no part in what events do to `currentTurnId`. -/
def StaysSilent (s : AcpSession) (i : ℕ) (p : PromptTurn) : Prop :=
  ∀ labels t, Run step Always s labels t →
    (∃ kicking, t.prompts[i]? = some { p with kicking := kicking }) ∧
    ∀ event, (deliver event t.currentTurnId (t.prompts.eraseIdx i)).1 =
      (deliver event t.currentTurnId t.prompts).1

theorem step_settled {s t : AcpSession} {label : PromptLabel} (next : s.step label = some t)
    {i : ℕ} {p : PromptTurn} (here : s.prompts[i]? = some p) (settled : p.settled = true)
    (off : p.subscribed = false) :
    ∃ kicking, t.prompts[i]? = some { p with kicking := kicking } := by
  have bound : i < s.prompts.length := by
    by_contra beyond
    rw [List.getElem?_eq_none (Nat.le_of_not_lt beyond)] at here
    cases here
  cases label with
  | submit =>
    cases next
    exact ⟨p.kicking, by rw [List.getElem?_append_left bound, here]⟩
  | event event =>
    cases next
    obtain ⟨current, after⟩ := deliver_getElem? event s.currentTurnId s.prompts i
    exact ⟨p.kicking, by rw [after, here, Option.map_some, if_neg (by simp [off])]⟩
  | kickResolved j =>
    obtain ⟨q, there, rfl⟩ := kicked_eq next
    by_cases same : j = i
    · subst same
      cases here.symm.trans there
      exact ⟨false, by simp [bound]⟩
    · exact ⟨p.kicking, by rw [List.getElem?_set_ne same, here]⟩
  | kickRejected j =>
    obtain ⟨q, there, rfl⟩ := kicked_eq next
    by_cases same : j = i
    · subst same
      cases here.symm.trans there
      exact ⟨false, by simp [bound, PromptTurn.kickRejected, settled]⟩
    · exact ⟨p.kicking, by rw [List.getElem?_set_ne same, here]⟩

theorem staysSilent {s : AcpSession} {i : ℕ} {p : PromptTurn} (here : s.prompts[i]? = some p)
    (settled : p.settled = true) (off : p.subscribed = false) : StaysSilent s i p := by
  intro labels t run
  have kept : ∃ kicking, t.prompts[i]? = some { p with kicking := kicking } := by
    refine Run.invariant
      (fun t => ∃ kicking, t.prompts[i]? = some { p with kicking := kicking }) run
      ⟨p.kicking, here⟩ ?_
    intro u label v ⟨kicking, there⟩ _ next
    exact step_settled (p := { p with kicking := kicking }) next there settled off
  refine ⟨kept, fun event => deliver_eraseIdx event _ _ i fun q there => ?_⟩
  obtain ⟨kicking, now⟩ := kept
  cases now.symm.trans there
  exact off

/-- A session in which turns of other origins do not end under a waiting prompt: every prompt
answers once and for its own turn, and is silent from then on. -/
theorem prompt_answersOwnTurn {s : AcpSession} {labels : List PromptLabel}
    (run : Run step OwnTurnEvents {} labels s) :
    (∀ p ∈ s.prompts, p.Answers) ∧
      ∀ i p, s.prompts[i]? = some p → p.settlements ≠ [] → StaysSilent s i p := by
  refine ⟨fun p mem => (run_answers run p mem).2, fun i p here answered => ?_⟩
  obtain ⟨books, answers⟩ := run_answers run p (List.mem_iff_getElem?.2 ⟨i, here⟩)
  have settled := books.settled.2 answered
  exact staysSilent here settled (by rw [books.subscribed, settled]; rfl)

/-- An event of the main agent. -/
def ofMain (body : EventBody) : PromptLabel := .event ⟨some MAIN_AGENT_ID, body⟩

/-- A turn of another origin ends, its end is answered by nobody; then the prompt's own. -/
theorem prompt_answersOwnTurn_second : ∃ s,
    Run step OwnTurnEvents {}
      [ofMain (.turnStarted 1), ofMain (.turnEnded 1 .completed none), .submit,
        ofMain (.turnStarted 2), ofMain (.turnEnded 2 .cancelled none)] s ∧
    (∀ p ∈ s.prompts, p.Answers) ∧
      ∀ i p, s.prompts[i]? = some p → p.settlements ≠ [] → StaysSilent s i p := by
  have run : ∃ s, Run step OwnTurnEvents {}
      [ofMain (.turnStarted 1), ofMain (.turnEnded 1 .completed none), .submit,
        ofMain (.turnStarted 2), ofMain (.turnEnded 2 .cancelled none)] s := by
    refine ⟨_, .cons ?_ rfl (.cons ?_ rfl (.cons ?_ rfl (.cons ?_ rfl (.cons ?_ rfl .nil))))⟩
    · exact nofun
    · exact nofun
    · trivial
    · intro p mem _
      obtain rfl := List.mem_singleton.1 mem
      trivial
    · intro p mem _
      obtain rfl := List.mem_singleton.1 mem
      exact fun _ _ => List.mem_singleton.2 rfl
  obtain ⟨s, run⟩ := run
  exact ⟨s, run, prompt_answersOwnTurn run⟩

/-- A turn that was running at the submission ends first: the prompt resolves with its reason. -/
theorem otherTurn_resolves :
    ¬ ∀ labels s, Run step Always {} labels s → ∀ p ∈ s.prompts, p.Answers := by
  intro all
  have run : ∃ s, Run step Always {}
      [ofMain (.turnStarted 1), .submit, ofMain (.turnEnded 1 .completed none)] s ∧
      ∃ p ∈ s.prompts, p.ownTurns = [] ∧
        ∃ x ∈ p.settlements, x.outcome = .resolved .end_turn := by
    refine ⟨_, .cons trivial rfl (.cons trivial rfl (.cons trivial rfl .nil)), _,
      List.mem_singleton.2 rfl, rfl, _, List.mem_singleton.2 rfl, rfl⟩
  obtain ⟨s, run, p, mem, noTurn, x, settled, outcome⟩ := run
  obtain ⟨event, turnId, reason, error, -, -, -, own, -⟩ :=
    (all _ s run p mem).resolved x settled _ outcome
  rw [noTurn] at own
  cases own

end AcpSession

end KimiCli.Acp
