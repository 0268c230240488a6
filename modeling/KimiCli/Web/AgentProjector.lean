import KimiCli.Gateway.InFlightTurn

/-!
# The client's projector

`kimi-web/src/api/daemon/agentEventProjector.ts`: how the web client turns the events of a turn into
its message log.  The projector keeps one state a session; the model is that of one session, with
the cases of a turn's events.  What frames of subagents do to the task view, and times of day, are
left out.
-/

namespace KimiCli

/-- An identifier: one that came from outside, or the result of a call of `ulid`. -/
inductive Ident
  | given (text : String)
  | ulid (number : ℕ)
  deriving DecidableEq

/-- The empty string is falsy. -/
def Ident.truthy : Ident → Bool
  | .given text => text != ""
  | .ulid _ => true

inductive AppMessageContent
  | text (text : CodeUnits)
  | thinking (thinking : CodeUnits)
  | toolUse (toolCallId toolName : String) (input : Json) (outputLines : Option (List CodeUnits))
  | toolResult (toolCallId : String) (output : Json) (isError : Bool)

inductive AppRole
  | user | assistant | tool
  deriving DecidableEq

structure AppMessage where
  id : Ident
  role : AppRole
  content : List AppMessageContent
  promptId : Ident

inductive AppStatus
  | idle | running | aborted

inductive MessageStatus
  | pending | completed | error

structure AppSessionUsage where
  inputTokens : ℕ
  outputTokens : ℕ
  cacheReadTokens : ℕ
  cacheCreationTokens : ℕ
  contextTokens : ℕ
  contextLimit : ℕ
  turnCount : ℕ

inductive AppEvent
  | sessionStatusChanged (status previousStatus : AppStatus) (currentPromptId : Option Ident)
  | messageCreated (message : AppMessage)
  | messageUpdated (messageId : Ident) (content : List AppMessageContent) (status : MessageStatus)
      (durationMs : Option ℕ)
  | assistantDelta (messageId : Ident) (contentIndex : ℕ) (kind : DeltaKind) (delta : CodeUnits)
  /-- `historyCompacted` with the reason `delta_gap`: the client reloads the snapshot. -/
  | deltaGap
  | toolOutput (toolCallId : String) (outputChunk : CodeUnits) (stderr : Bool)
  | sessionUsageUpdated (usage : AppSessionUsage) (model : Option String)
      (swarmMode planMode : Option Bool)
  | agentDelta (agentId : String) (kind : DeltaKind) (delta : CodeUnits)
  | agentTurnEnded (agentId reason : String)

def AppEvent.isDeltaGap : AppEvent → Bool
  | .deltaGap => true
  | _ => false

/-- `SessionState` of the projector. -/
structure ProjectorState where
  turnPromptId : ℕ → Option Ident := fun _ => none
  currentPromptId : Option Ident := none
  currentAssistantMsgId : Option Ident := none
  turnTextLen : ℕ := 0
  turnThinkLen : ℕ := 0
  totalInput : ℕ := 0
  totalOutput : ℕ := 0
  totalCacheRead : ℕ := 0
  totalCacheCreate : ℕ := 0
  contextTokens : ℕ := 0
  contextLimit : ℕ := 0
  turnCount : ℕ := 0
  model : String := ""
  messages : List AppMessage := []
  /-- How often `ulid` has been called. -/
  nextUlid : ℕ := 0

namespace ProjectorState

def turnLen (s : ProjectorState) : DeltaKind → ℕ
  | .text => s.turnTextLen
  | .thinking => s.turnThinkLen

def setTurnLen (s : ProjectorState) (kind : DeltaKind) (len : ℕ) : ProjectorState :=
  match kind with
  | .text => { s with turnTextLen := len }
  | .thinking => { s with turnThinkLen := len }

section setTurnLen

variable (s : ProjectorState) (kind other : DeltaKind) (len : ℕ)

@[simp] theorem messages_setTurnLen : (s.setTurnLen kind len).messages = s.messages := by
  cases kind <;> rfl

@[simp] theorem nextUlid_setTurnLen : (s.setTurnLen kind len).nextUlid = s.nextUlid := by
  cases kind <;> rfl

@[simp] theorem current_setTurnLen :
    (s.setTurnLen kind len).currentAssistantMsgId = s.currentAssistantMsgId := by
  cases kind <;> rfl

@[simp] theorem turnLen_setTurnLen :
    (s.setTurnLen kind len).turnLen other = if other = kind then len else s.turnLen other := by
  cases kind <;> cases other <;> rfl

end setTurnLen

def ulid (s : ProjectorState) : ProjectorState × Ident :=
  ({ s with nextUlid := s.nextUlid + 1 }, .ulid s.nextUlid)

def bindTurn (s : ProjectorState) (turnId : ℕ) (promptId : Ident) : ProjectorState :=
  { s with turnPromptId := Function.update s.turnPromptId turnId (some promptId) }

/-- `reset`; the ids made before stay used. -/
def reset (s : ProjectorState) : ProjectorState := { nextUlid := s.nextUlid }

def startAssistantMessage (s : ProjectorState) (promptId : Ident) : ProjectorState × AppMessage :=
  let msg : AppMessage :=
    { id := .ulid s.nextUlid, role := .assistant, content := [], promptId := promptId }
  ({ s with messages := s.messages ++ [msg], nextUlid := s.nextUlid + 1 }, msg)

def appendToolResultMessage (s : ProjectorState) (toolCallId : String) (output : Json)
    (isError : Bool) (promptId : Ident) : ProjectorState × AppMessage :=
  let msg : AppMessage :=
    { id := .ulid s.nextUlid, role := .tool,
      content := [.toolResult toolCallId output isError], promptId := promptId }
  ({ s with messages := s.messages ++ [msg], nextUlid := s.nextUlid + 1 }, msg)

def getMsgById (s : ProjectorState) (id : Ident) : Option AppMessage :=
  s.messages.find? (·.id == id)

/-- A change of the content of the first message with the id. -/
def modifyContent (s : ProjectorState) (id : Ident)
    (f : List AppMessageContent → List AppMessageContent) : ProjectorState :=
  let index := s.messages.findIdx (·.id == id)
  { s with messages := s.messages.modify index fun msg => { msg with content := f msg.content } }

/-- The content with a streamed delta: the last part continues when it has the same type. -/
def extendContent (kind : DeltaKind) (delta : CodeUnits) (content : List AppMessageContent) :
    List AppMessageContent :=
  match kind, content.getLast? with
  | .text, some (.text text) => content.dropLast ++ [.text (text ++ delta)]
  | .thinking, some (.thinking thinking) => content.dropLast ++ [.thinking (thinking ++ delta)]
  | .text, _ => content ++ [.text delta]
  | .thinking, _ => content ++ [.thinking delta]

/-- `appendAssistantDelta`, with the content index written; `none` for an unknown message. -/
def appendAssistantDelta (s : ProjectorState) (messageId : Ident) (kind : DeltaKind)
    (delta : CodeUnits) : ProjectorState × Option ℕ :=
  match s.getMsgById messageId with
  | none => (s, none)
  | some msg =>
    (s.modifyContent messageId (extendContent kind delta),
      some ((extendContent kind delta msg.content).length - 1))

def buildUsageSnapshot (s : ProjectorState) : AppSessionUsage where
  inputTokens := s.totalInput
  outputTokens := s.totalOutput
  cacheReadTokens := s.totalCacheRead
  cacheCreationTokens := s.totalCacheCreate
  contextTokens := s.contextTokens
  contextLimit := s.contextLimit
  turnCount := s.turnCount

def addUsage (s : ProjectorState) (usage : RawUsage) : ProjectorState :=
  { s with
    totalInput := s.totalInput + (usage.inputOther <|> usage.input_tokens).getD 0
    totalOutput := s.totalOutput + (usage.output <|> usage.output_tokens).getD 0
    totalCacheRead :=
      s.totalCacheRead + (usage.inputCacheRead <|> usage.cache_read_input_tokens).getD 0
    totalCacheCreate :=
      s.totalCacheCreate
        + (usage.inputCacheCreation <|> usage.cache_creation_input_tokens).getD 0 }

/-- The prompt id of a turn; one is made up when none is bound. -/
def resolvePromptId (s : ProjectorState) (turnId : ℕ) : ProjectorState × Ident :=
  match s.turnPromptId turnId <|> s.currentPromptId with
  | some promptId => if promptId.truthy then (s, promptId) else synthesize s
  | none => synthesize s
where
  synthesize (s : ProjectorState) : ProjectorState × Ident :=
    let (s, promptId) := s.ulid
    (({ s with currentPromptId := some promptId }).bindTurn turnId promptId, promptId)

/-- `messageUpdated` with the content of the current assistant message. -/
def updatedMessage (s : ProjectorState) (status : MessageStatus) (durationMs : Option ℕ) :
    List AppEvent :=
  match s.currentAssistantMsgId with
  | none => []
  | some msgId =>
    match s.getMsgById msgId with
    | none => []
    | some msg => [.messageUpdated msgId msg.content status durationMs]

inductive Alignment
  | append | skip | gap

def alignDelta (localLen : ℕ) : Option ℕ → Alignment
  | none => .append
  | some offset =>
    if offset < localLen then .skip else if offset > localLen then .gap else .append

/-- The cases `assistant.delta` and `thinking.delta`. -/
def projectDelta (s : ProjectorState) (kind : DeltaKind) (delta : CodeUnits)
    (offset : Option ℕ) : ProjectorState × List AppEvent :=
  match s.currentAssistantMsgId with
  | none => (s, [])
  | some msgId =>
    if delta = [] then (s, [])
    else
      let s := if offset = some 0 ∧ s.turnLen kind > 0 then s.setTurnLen kind 0 else s
      match alignDelta (s.turnLen kind) offset with
      | .skip => (s, [])
      | .gap => (s, [.deltaGap])
      | .append =>
        match s.appendAssistantDelta msgId kind delta with
        | (s, none) => (s, [])
        | (s, some index) =>
          (s.setTurnLen kind (s.turnLen kind + delta.length),
            [.assistantDelta msgId index kind delta])

/-- `_project` on an event of the main agent. -/
def projectMain (s : ProjectorState) (event : TurnEvent) (offset : Option ℕ) :
    ProjectorState × List AppEvent :=
  match event with
  | .turnStarted turnId =>
    let (s, promptId) :=
      match s.currentPromptId with
      | some promptId => (s, promptId)
      | none => s.ulid
    (({ s with
        currentPromptId := some promptId
        turnTextLen := 0
        turnThinkLen := 0 }).bindTurn turnId promptId,
      [.sessionStatusChanged .running .idle (some promptId)])
  | .stepStarted turnId =>
    let (s, promptId) := s.resolvePromptId turnId
    let (s, msg) := s.startAssistantMessage promptId
    ({ s with currentAssistantMsgId := some msg.id }, [.messageCreated msg])
  | .delta kind _ delta => s.projectDelta kind delta offset
  | .toolCallStarted turnId toolCallId name args _ _ =>
    match s.currentAssistantMsgId, s.turnPromptId turnId <|> s.currentPromptId with
    | some msgId, some promptId =>
      if promptId.truthy then
        let input := args.getD (.object [])
        let s := s.modifyContent msgId (· ++ [.toolUse toolCallId name input none])
        (s, s.updatedMessage .pending none)
      else (s, [])
    | _, _ => (s, [])
  | .toolCallDelta _ _ => (s, [])
  | .toolProgress _ toolCallId update =>
    let chunk := update.text.getD []
    if toolCallId ≠ "" ∧ chunk ≠ [] then
      (s, [.toolOutput toolCallId chunk (update.kind = .stderr)])
    else (s, [])
  | .toolResult turnId toolCallId output isError =>
    let (s, promptId) := s.resolvePromptId turnId
    let (s, msg) := s.appendToolResultMessage toolCallId output (isError.getD false) promptId
    ({ s with currentAssistantMsgId := none }, [.messageCreated msg])
  | .stepCompleted _ usage =>
    let s := s.addUsage usage
    (s, s.updatedMessage .completed none)
  | .statusUpdated model contextTokens maxContextTokens swarmMode planMode =>
    let s :=
      { s with
        model := match model with
          | some model => if model ≠ "" then model else s.model
          | none => s.model
        contextTokens := contextTokens.getD s.contextTokens
        contextLimit := maxContextTokens.getD s.contextLimit }
    let shownModel := if s.model ≠ "" then some s.model else none
    (s, [.sessionUsageUpdated s.buildUsageSnapshot shownModel swarmMode planMode])
  | .turnEnded _ reason durationMs =>
    let status := if reason = "failed" ∨ reason = "filtered" then .error else .completed
    let updated := s.updatedMessage status durationMs
    let s := { s with turnCount := s.turnCount + 1 }
    let newStatus :=
      if reason = "cancelled" ∨ reason = "failed" ∨ reason = "filtered" then .aborted else .idle
    ({ s with
        currentAssistantMsgId := none
        currentPromptId := none
        turnTextLen := 0
        turnThinkLen := 0 },
      updated ++
        [.sessionUsageUpdated s.buildUsageSnapshot none none none,
          .sessionStatusChanged newStatus .running none])
  | .promptCompleted => (s, [])
  | .stepRetrying _ | .stepInterrupted _ => ({ s with currentAssistantMsgId := none }, [])

/-- `_project` on an event of another agent; `sideChannel` are the agents marked as such. -/
def projectOther (sideChannel : String → Bool) (e : AgentEvent) : List AppEvent :=
  if sideChannel e.agentId then
    match e.event with
    | .delta kind _ delta => if delta = [] then [] else [.agentDelta e.agentId kind delta]
    | .turnEnded _ reason _ => [.agentTurnEnded e.agentId reason]
    | _ => []
  else []

/-- `_project`. -/
def project (sideChannel : String → Bool) (s : ProjectorState) (e : AgentEvent)
    (offset : Option ℕ) : ProjectorState × List AppEvent :=
  if e.agentId ≠ MAIN_AGENT_ID then (s, projectOther sideChannel e)
  else s.projectMain e.event offset

/-- The content of the message that `seedInFlight` builds. -/
def seedContent (turn : InFlightTurn) : List AppMessageContent :=
  (if turn.thinking_text.length > 0 then [.thinking turn.thinking_text] else [])
    ++ (if turn.assistant_text.length > 0 then [.text turn.assistant_text] else [])
    ++ turn.running_tools.map fun tool =>
      .toolUse tool.tool_call_id tool.name (tool.args.getD (.object []))
        (match tool.last_progress.bind (·.text) with
          | some text => if text.length > 0 then some [text] else none
          | none => none)

/-- `seedInFlight`, with the prompt id that the snapshot service attached. -/
def seedInFlight (s : ProjectorState) (turn : InFlightTurn) (promptId : Option Ident) :
    ProjectorState × List AppEvent :=
  let s := s.reset
  let (s, promptId) :=
    match promptId with
    | some promptId => (s, promptId)
    | none => s.ulid
  let s := ({ s with currentPromptId := some promptId }).bindTurn turn.turn_id promptId
  let (s, msg) := s.startAssistantMessage promptId
  let s := s.modifyContent msg.id fun _ => seedContent turn
  ({ s with
      currentAssistantMsgId := some msg.id
      turnTextLen := turn.assistant_text.length
      turnThinkLen := turn.thinking_text.length },
    [.sessionStatusChanged .running .idle (some promptId),
      .messageCreated { msg with content := seedContent turn }])

end ProjectorState

end KimiCli
