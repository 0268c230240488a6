import KimiCli.Kosong.Generate

/-!
# The context of an agent

`ContextMemory` holds the messages that the model is sent.  A message that arrives while tool calls
are open waits until their results are there, and every change is logged as a record that a resume
runs again.
-/

namespace KimiCli

/-! ## Messages -/

/-- What has activated a skill. -/
inductive SkillTrigger
  | userSlash | modelTool | nestedSkill | autoRouted
  deriving DecidableEq

/-- `origin.kind`, with the one field of an origin that the context reads. -/
inductive PromptOrigin
  | user
  | skillActivation (trigger : SkillTrigger)
  | injection
  | shellCommand
  | compactionSummary
  | systemTrigger
  | backgroundTask
  | cronJob
  | cronMissed
  | hookResult
  | retry
  deriving DecidableEq

/-- A message of the context, with the fields that are not sent. -/
structure ContextMessage extends Message where
  origin : Option PromptOrigin := none
  /-- `origin.variant` of an injection. -/
  variant : Option String := none
  isError : Option Bool := none
  /-- Which of the messages that `step.begin` made this is. -/
  step : Option ℕ := none
  /-- The estimate of its tokens, once it has been made. -/
  estimate : Option ℕ := none

namespace ContextMessage

/-- A message that an injector has put in. -/
def isInjection (message : ContextMessage) : Bool := message.origin = some .injection

/-- The message that stands for what a compaction has removed. -/
def isCompactionSummary (message : ContextMessage) : Bool :=
  message.origin = some .compactionSummary

/-- A prompt of the user, which an undo counts. -/
def isRealUserPrompt (message : ContextMessage) : Bool :=
  message.role = .user &&
    match message.origin with
    | none | some .user => true
    | some (.skillActivation trigger) => trigger = .userSlash
    | _ => false

end ContextMessage

/-- The text of a role, which is estimated too. -/
def Role.text : Role → String
  | system => "system"
  | user => "user"
  | assistant => "assistant"
  | tool => "tool"

/-- Four ASCII characters to a token, and one of any others. -/
def estimateTokens (text : String) : ℕ :=
  let asciiCount := text.toList.countP (·.toNat ≤ 127)
  let nonAsciiCount := text.toList.countP (127 < ·.toNat)
  (asciiCount + 3) / 4 + nonAsciiCount

/-- Only texts and thoughts are estimated. -/
def estimateTokensForContentPart : ContentPart → ℕ
  | .text text => estimateTokens text
  | .think think _ => estimateTokens think
  | _ => 0

/-- The first estimate of a message is kept. -/
def estimateTokensForMessage (message : ContextMessage) : ℕ :=
  message.estimate.getD <|
    estimateTokens message.role.text +
      (message.content.map estimateTokensForContentPart).sum +
      (message.toolCalls.map fun call => estimateTokens call.name +
        estimateTokens (call.arguments.elim Json.null Json.string).stringify).sum

/-- `estimateTokensForMessages`, without the estimates that it leaves on the messages. -/
def estimateTokensForMessages (messages : List ContextMessage) : ℕ :=
  (messages.map estimateTokensForMessage).sum

/-! ## Records -/

/-- `ExecutableToolResult`: a text or content parts, and whether the tool has failed. -/
structure ToolResult where
  output : String ⊕ List ContentPart
  isError : Option Bool := none

/-- The loop events that are recorded. -/
inductive LoopRecordedEvent
  | stepBegin (uuid : String)
  | stepEnd (uuid : String) (usage : Option TokenUsage)
  | contentPart (stepUuid : String) (part : ContentPart)
  | toolCall (stepUuid toolCallId name : String) (args : Option Json)
  | toolResult (toolCallId : String) (result : ToolResult)

/-- What a compaction has put in place of the first messages. -/
structure CompactionResult where
  summary : String
  compactedCount : ℕ
  tokensBefore : ℤ
  tokensAfter : ℤ

/-- A record that the context logs, and a resume runs again. -/
inductive ContextRecord
  /-- `context.append_message` -/
  | appendMessage (message : ContextMessage)
  /-- `context.append_loop_event` -/
  | appendLoopEvent (event : LoopRecordedEvent)
  /-- `context.clear` -/
  | clear
  /-- `context.apply_compaction` -/
  | applyCompaction (result : CompactionResult)
  /-- `context.undo` -/
  | undo (count : ℤ)

/-- Whether the records are being restored, and the time of the record or of the clock. -/
structure ContextCall where
  restoring : Bool := false
  time : ℤ := 0

/-! ## The memory -/

/-- The state of `ContextMemory`, with the fields of other components that it changes. -/
structure ContextMemory where
  history : List ContextMessage := []
  tokenCount : ℤ := 0
  tokenCountCoveredMessageCount : ℕ := 0
  openSteps : List (String × ℕ) := []
  pendingToolResultIds : List String := []
  deferredMessages : List ContextMessage := []
  lastAssistantAt : Option ℤ := none
  /-- The number of messages that `step.begin` has made. -/
  steps : ℕ := 0
  /-- The cutoff of the micro compaction. -/
  cutoff : ℕ := 0
  /-- The log, with the times of its records. -/
  records : List (ContextRecord × ℤ) := []

/-- The texts of a result for the model. -/
def toolErrorStatus : String := "<system>ERROR: Tool execution failed.</system>"
def toolEmptyStatus : String := "<system>Tool output is empty.</system>"
def toolEmptyErrorStatus : String :=
  "<system>ERROR: Tool execution failed. Tool output is empty.</system>"
def toolOutputEmptyText : String := "Tool output is empty."
def toolInterruptedOnResumeOutput : String :=
  "Tool execution was interrupted before its result was recorded. Do not assume the tool " ++
    "completed successfully."

/-- What the model is told of a result. -/
def toolResultOutputForModel (result : ToolResult) : String ⊕ List ContentPart :=
  let failed := result.isError = some true
  match result.output with
  | .inl output =>
    if failed then
      if output.isEmpty then .inl toolEmptyErrorStatus
      else if (trimStart output).startsWith "<system>ERROR:" then .inl output
      else .inl (toolErrorStatus ++ "\n" ++ output)
    else if output.isEmpty ∨ trim output = toolOutputEmptyText then .inl toolEmptyStatus
    else .inl output
  | .inr parts =>
    if parts = [] then .inr [.text (if failed then toolEmptyErrorStatus else toolEmptyStatus)]
    else if failed then .inr (.text toolErrorStatus :: parts)
    else .inr parts

namespace ContextMemory

/-- `AgentRecords.logRecord`, which logs nothing while the records are being restored. -/
def logRecord (memory : ContextMemory) (call : ContextCall) (record : ContextRecord) :
    ContextMemory :=
  if call.restoring then memory
  else { memory with records := memory.records ++ [(record, call.time)] }

/-- Messages go into the history, and those of the assistant set the time. -/
def pushHistory (memory : ContextMemory) (call : ContextCall) (messages : List ContextMessage) :
    ContextMemory :=
  { memory with
    history := memory.history ++ messages
    lastAssistantAt :=
      if messages.any (·.role = .assistant) then some call.time else memory.lastAssistantAt }

/-- Whether a tool call waits for its result. -/
def hasOpenToolExchange (memory : ContextMemory) : Bool := memory.pendingToolResultIds ≠ []

/-- The messages that wait go into the history once no call is open. -/
def flushDeferredMessagesIfToolExchangeClosed (memory : ContextMemory) (call : ContextCall) :
    ContextMemory :=
  if memory.hasOpenToolExchange ∨ memory.deferredMessages = [] then memory
  else { memory.pushHistory call memory.deferredMessages with deferredMessages := [] }

/-- `appendMessage`: while a call is open the message waits. -/
def appendMessage (memory : ContextMemory) (call : ContextCall) (message : ContextMessage) :
    ContextMemory :=
  let memory := memory.logRecord call (.appendMessage message)
  if memory.hasOpenToolExchange then
    { memory with deferredMessages := memory.deferredMessages ++ [message] }
  else memory.pushHistory call [message]

/-- `tool.result`: a result for a call that is not awaited is dropped. -/
def appendToolResult (memory : ContextMemory) (call : ContextCall) (toolCallId : String)
    (result : ToolResult) : ContextMemory :=
  let memory := memory.logRecord call (.appendLoopEvent (.toolResult toolCallId result))
  if toolCallId ∉ memory.pendingToolResultIds then memory
  else
    let message : ContextMessage :=
      { createToolMessage toolCallId (toolResultOutputForModel result) with
        isError := result.isError }
    let memory := memory.pushHistory call [message]
    let memory :=
      { memory with pendingToolResultIds := memory.pendingToolResultIds.erase toolCallId }
    memory.flushDeferredMessagesIfToolExchangeClosed call

/-- Gives every open tool call the result that it was interrupted. -/
def closePendingToolResults (memory : ContextMemory) (call : ContextCall) : ContextMemory :=
  memory.pendingToolResultIds.foldl (fun memory toolCallId =>
    memory.appendToolResult call toolCallId
      { output := .inl toolInterruptedOnResumeOutput, isError := some true }) memory

/-- Changes a message that `step.begin` made, wherever it is by now. -/
def updateStep (memory : ContextMemory) (step : ℕ) (f : ContextMessage → ContextMessage) :
    ContextMemory :=
  { memory with
    history := memory.history.map fun message => if message.step = some step then f message
      else message }

/-- `estimateTokensForMessages(history.slice(start, stop))`, which keeps the estimates. -/
def estimateRange (memory : ContextMemory) (start stop : ℕ) : ℕ × ContextMemory :=
  (estimateTokensForMessages ((memory.history.take stop).drop start),
    { memory with
      history := memory.history.mapIdx fun i message =>
        if start ≤ i ∧ i < stop then
          { message with estimate := some (estimateTokensForMessage message) }
        else message })

/-- The count with an estimate for the messages that it does not cover yet. -/
def tokenCountWithPending (memory : ContextMemory) : ℤ × ContextMemory :=
  let (estimate, memory) :=
    memory.estimateRange memory.tokenCountCoveredMessageCount memory.history.length
  (memory.tokenCount + estimate, memory)

/-- `step.begin`: open calls are closed, and an empty message of the assistant is pushed. -/
def appendStepBegin (memory : ContextMemory) (call : ContextCall) (uuid : String) :
    ContextMemory :=
  let memory := memory.closePendingToolResults call
  let message : ContextMessage :=
    { role := .assistant, content := [], toolCalls := [], step := some memory.steps }
  { memory.pushHistory call [message] with
    openSteps := (uuid, memory.steps) :: memory.openSteps.filter (·.1 ≠ uuid)
    steps := memory.steps + 1 }

/-- `step.end`: with a usage, the messages up to the step's are covered by the count. -/
def appendStepEnd (memory : ContextMemory) (call : ContextCall) (uuid : String)
    (usage : Option TokenUsage) : ContextMemory :=
  let openStep := memory.openSteps.lookup uuid
  let memory := { memory with openSteps := memory.openSteps.filter (·.1 ≠ uuid) }
  let memory :=
    match usage with
    | none => memory
    | some usage =>
      let openStepIndex := openStep.bind fun step =>
        memory.history.findIdx? fun (message : ContextMessage) => message.step = some step
      let coveredCount := openStepIndex.elim memory.history.length (· + 1)
      let totalUsage :=
        usage.inputCacheRead + usage.inputCacheCreation + usage.inputOther + usage.output
      let memory :=
        if 0 < totalUsage then { memory with tokenCount := totalUsage }
        else
          -- no usage reported: the messages that are newly covered are estimated
          let (estimate, memory) :=
            memory.estimateRange memory.tokenCountCoveredMessageCount coveredCount
          { memory with tokenCount := memory.tokenCount + estimate }
      { memory with tokenCountCoveredMessageCount := coveredCount }
  memory.flushDeferredMessagesIfToolExchangeClosed call

/-- `appendLoopEvent`, with the message of the error if it throws. -/
def appendLoopEvent (memory : ContextMemory) (call : ContextCall) :
    LoopRecordedEvent → ContextMemory × Option String
  | .stepBegin uuid =>
    let memory := memory.logRecord call (.appendLoopEvent (.stepBegin uuid))
    (memory.appendStepBegin call uuid, none)
  | .stepEnd uuid usage =>
    let memory := memory.logRecord call (.appendLoopEvent (.stepEnd uuid usage))
    (memory.appendStepEnd call uuid usage, none)
  | .contentPart stepUuid part =>
    let memory := memory.logRecord call (.appendLoopEvent (.contentPart stepUuid part))
    match memory.openSteps.lookup stepUuid with
    | none =>
      (memory, some
        s!"Received content_part for unknown step_uuid '{stepUuid}' (no open step_begin)")
    | some step =>
      (memory.updateStep step fun message => { message with content := message.content ++ [part] },
        none)
  | .toolCall stepUuid toolCallId name args =>
    let memory := memory.logRecord call (.appendLoopEvent (.toolCall stepUuid toolCallId name args))
    match memory.openSteps.lookup stepUuid with
    | none =>
      (memory, some s!"Received tool_call for unknown step_uuid '{stepUuid}' (no open step_begin)")
    | some step =>
      let toolCall : ToolCall :=
        { id := toolCallId, name, arguments := args.map Json.stringify }
      let memory := memory.updateStep step fun message =>
        { message with toolCalls := message.toolCalls ++ [toolCall] }
      ({ memory with
          pendingToolResultIds :=
            if toolCallId ∈ memory.pendingToolResultIds then memory.pendingToolResultIds
            else memory.pendingToolResultIds ++ [toolCallId] }, none)
  | .toolResult toolCallId result => (memory.appendToolResult call toolCallId result, none)

/-- `clear` forgets everything but the log. -/
def clear (memory : ContextMemory) (call : ContextCall) : ContextMemory :=
  { memory.logRecord call .clear with
    history := [], tokenCount := 0, tokenCountCoveredMessageCount := 0, openSteps := []
    pendingToolResultIds := [], deferredMessages := [], lastAssistantAt := none
    cutoff := min memory.cutoff 0 }

/-- The summary stands in the place of the first messages. -/
def applyCompaction (memory : ContextMemory) (call : ContextCall) (result : CompactionResult) :
    ContextMemory :=
  let memory := memory.logRecord call (.applyCompaction result)
  let summary : ContextMessage :=
    { role := .assistant, content := [.text result.summary], toolCalls := []
      origin := some .compactionSummary }
  let memory :=
    { memory with
      history := summary :: memory.history.drop result.compactedCount, openSteps := [] }
  let memory := memory.flushDeferredMessagesIfToolExchangeClosed call
  { memory with
    tokenCount := result.tokensAfter
    tokenCountCoveredMessageCount := memory.history.length
    cutoff := min memory.cutoff 0 }

/-- `finishResume`: the open steps are forgotten and the open calls closed. -/
def finishResume (memory : ContextMemory) (call : ContextCall) : ContextMemory :=
  { memory with openSteps := [] }.closePendingToolResults call

end ContextMemory

end KimiCli
