import KimiCli.Js.Text
import KimiCli.Gateway.InFlightTurn
import KimiCli.Prompt.Scheduler

/-!
# From session events to ACP updates

`acp-adapter/src/events-map.ts` and the two functions of `convert.ts` it uses: the events that a
prompt's listener reads, the `session/update` notifications, and the maps from the one to the
other.  All notifications of a session carry its id, which is left out.
-/

namespace KimiCli.Acp

/-! ## Events -/

/-- `ToolInputDisplay`; the kinds that no map reads are one. -/
inductive ToolInputDisplay
  | fileIo (path : String) (before after : Option String)
  | diff (path before after : String)
  /-- The title and the status of every item. -/
  | todoList (items : List (String × String))
  | planReview (plan : String) (path : Option String)
  | other

/-- The error that an event carries. -/
structure KimiErrorPayload where
  code : String
  message : String
  details : Option Json := none

/-- What the events of a session carry beside the agent's id. -/
inductive EventBody
  | turnStarted (turnId : ℕ)
  | turnEnded (turnId : ℕ) (reason : TurnEndReason) (error : Option KimiErrorPayload)
  | error (payload : KimiErrorPayload)
  | assistantDelta (turnId : ℕ) (delta : String)
  | thinkingDelta (turnId : ℕ) (delta : String)
  /-- `args` is `none` for `undefined`. -/
  | toolCallStarted (turnId : ℕ) (toolCallId name : String) (args : Option Json)
      (description : Option String) (display : Option ToolInputDisplay)
  | toolCallDelta (turnId : ℕ) (toolCallId : String) (name argumentsPart : Option String)
  | toolProgress (turnId : ℕ) (toolCallId : String) (kind : ToolUpdateKind) (text : Option String)
  /-- `output` is `none` for `undefined`. -/
  | toolResult (turnId : ℕ) (toolCallId : String) (output : Option Json) (isError : Option Bool)
  /-- Another event with a `turnId`. -/
  | ofTurn (turnId : ℕ)
  /-- An event without one. -/
  | other

/-- `turnId in event`. -/
def EventBody.turnId? : EventBody → Option ℕ
  | .turnStarted t | .turnEnded t _ _ | .assistantDelta t _ | .thinkingDelta t _
  | .toolCallStarted t _ _ _ _ _ | .toolCallDelta t _ _ _ | .toolProgress t _ _ _
  | .toolResult t _ _ _ | .ofTurn t => some t
  | .error _ | .other => none

/-- An event of a session. -/
structure Event where
  agentId : Option String
  body : EventBody

/-- Events of subagents are not shown. -/
def isFromMainAgent (event : Event) : Bool :=
  event.agentId.isNone || event.agentId == some MAIN_AGENT_ID

/-! ## Notifications -/

/-- The kind of tool of a card. -/
inductive ToolKind
  | read | edit | execute | fetch | think | other

/-- The status of a card. -/
inductive ToolCallStatus
  | pending | in_progress | completed | failed

/-- A block of the content of a card. -/
inductive ToolCallContent
  | diff (path oldText newText : String)
  | text (text : String)

/-- The fields of a `tool_call` and of a `tool_call_update`; a field that is not sent is `none`. -/
structure ToolCall where
  toolCallId : String
  title : Option String := none
  kind : Option ToolKind := none
  status : Option ToolCallStatus := none
  rawInput : Option Json := none
  content : Option (List ToolCallContent) := none
  rawOutput : Option Json := none

/-- The status of an entry of a plan. -/
inductive PlanEntryStatus
  | pending | in_progress | completed

/-- An entry of a plan. -/
structure PlanEntry where
  content : String
  priority : String
  status : PlanEntryStatus

/-- The updates that are sent to the client. -/
inductive SessionUpdate
  | agent_message_chunk (text : String)
  | agent_thought_chunk (text : String)
  | tool_call (call : ToolCall)
  | tool_call_update (call : ToolCall)
  | plan (entries : List PlanEntry)

/-- Why a prompt has ended, for the client. -/
inductive AcpStopReason
  | end_turn | cancelled | refusal

/-! ## The maps -/

/-- A failed turn ends like one that is done. -/
def turnEndReasonToStopReason : TurnEndReason → AcpStopReason
  | .completed => .end_turn
  | .cancelled => .cancelled
  | .failed => .end_turn
  | .filtered => .refusal

/-- The id on the wire, which tells apart the turns. -/
def acpToolCallId (turnId : ℕ) (toolCallId : String) : String := s!"{turnId}:{toolCallId}"

/-- The kind of a tool from its name. -/
def inferToolKind (name : String) : ToolKind :=
  if name = "Read" ∨ name = "Glob" ∨ name = "Grep" then .read
  else if name = "Write" ∨ name = "Edit" then .edit
  else if name = "Bash" ∨ name = "Terminal" then .execute
  else if name = "WebFetch" ∨ name = "WebSearch" then .fetch
  else if name = "Think" then .think
  else .other

/-- `JSON.stringify(args) ?? String(args)`. -/
def stringifyArgs : Option Json → String
  | some args => args.stringify
  | none => "undefined"

/-- The text of a plan with its path; a blank plan has none. -/
def composePlanContent (plan : String) (path : Option String) : Option String :=
  if (trim plan).length = 0 then none
  else match path with
    | some path => some s!"Plan saved to: {path}\n\n{plan}"
    | none => some plan

/-- What is shown of a display, if anything. -/
def displayBlockToAcpContent : ToolInputDisplay → Option ToolCallContent
  | .diff path before after => some (.diff path before after)
  | .fileIo path (some before) (some after) => some (.diff path before after)
  | .planReview plan path => (composePlanContent plan path).map .text
  | .fileIo _ _ _ | .todoList _ | .other => none

/-- A value that says that the output is not to be shown. -/
def isHideOutputMarker (value : Json) : Bool :=
  match value.property "__kind" with
  | some (.string kind) => kind == "acp-hide-output"
  | _ => false

/-- What is shown of an output. -/
def toolResultToAcpContent (output : Option Json) : List ToolCallContent :=
  match output with
  | none | some .null => []
  | some (.string out) => if out.length = 0 then [] else [.text out]
  | some (.array items) =>
    if items.any isHideOutputMarker then [] else [.text (Json.array items).stringify]
  | some out => [.text out.stringify]

/-- A piece of the answer. -/
def assistantDeltaToSessionUpdate (delta : String) : SessionUpdate := .agent_message_chunk delta

/-- A piece of the thoughts. -/
def thinkingDeltaToSessionUpdate (delta : String) : SessionUpdate := .agent_thought_chunk delta

/-- The fields that a `tool.call.started` event gives the card. -/
def startedFields (turnId : ℕ) (toolCallId name : String) (args : Option Json)
    (description : Option String) (display : Option ToolInputDisplay) : ToolCall where
  toolCallId := acpToolCallId turnId toolCallId
  title := some (description.getD name)
  kind := some (inferToolKind name)
  status := some .in_progress
  rawInput := args
  content := some ((display.bind displayBlockToAcpContent).toList ++ [.text (stringifyArgs args)])

/-- The card of a call that is started. -/
def toolCallStartToSessionUpdate (turnId : ℕ) (toolCallId name : String) (args : Option Json)
    (description : Option String) (display : Option ToolInputDisplay) : SessionUpdate :=
  .tool_call (startedFields turnId toolCallId name args description display)

/-- The same for a call that already has a card. -/
def toolCallStartedUpgradeToSessionUpdate (turnId : ℕ) (toolCallId name : String)
    (args : Option Json) (description : Option String) (display : Option ToolInputDisplay) :
    SessionUpdate :=
  .tool_call_update (startedFields turnId toolCallId name args description display)

/-- `accumulator` is the text with the new part already appended. -/
def toolCallDeltaToSessionUpdate (turnId : ℕ) (toolCallId accumulator : String) : SessionUpdate :=
  .tool_call_update
    { toolCallId := acpToolCallId turnId toolCallId
      status := some .in_progress
      content := some [.text accumulator] }

/-- The card of a call whose arguments begin to arrive. -/
def toolCallLazyCreateToSessionUpdate (turnId : ℕ) (toolCallId : String)
    (name argumentsPart : Option String) : SessionUpdate :=
  .tool_call
    { toolCallId := acpToolCallId turnId toolCallId
      title := some (name.getD "tool")
      -- an empty name is falsy
      kind := some (match name with
        | some name => if name.length = 0 then .other else inferToolKind name
        | none => .other)
      status := some .pending
      content := some [.text (argumentsPart.getD "")] }

/-- A status text becomes the title of the card. -/
def toolProgressToSessionUpdate (turnId : ℕ) (toolCallId : String) (kind : ToolUpdateKind)
    (text : Option String) : Option SessionUpdate :=
  match text with
  | some text =>
    if kind = .status ∧ text.length ≠ 0 then
      some (.tool_call_update
        { toolCallId := acpToolCallId turnId toolCallId, title := some text })
    else none
  | none => none

/-- The card of a call that has its result. -/
def toolResultToSessionUpdate (turnId : ℕ) (toolCallId : String) (output : Option Json)
    (isError : Option Bool) : SessionUpdate :=
  .tool_call_update
    { toolCallId := acpToolCallId turnId toolCallId
      status := some (if isError = some true then .failed else .completed)
      content := some (toolResultToAcpContent output)
      rawOutput := output }

/-- The status of an item; an unknown one is pending. -/
def mapTodoStatus (status : String) : PlanEntryStatus :=
  if status = "pending" then .pending
  else if status = "in_progress" then .in_progress
  else if status = "done" ∨ status = "completed" then .completed
  else .pending

/-- The plan of a todo list that is not empty. -/
def todoListToSessionUpdate (items : List (String × String)) : Option SessionUpdate :=
  if items.length = 0 then none
  else some (.plan (items.map fun item =>
    { content := item.1, priority := "medium", status := mapTodoStatus item.2 }))

/-- Only a todo list gives a plan. -/
def planFromDisplayBlock : ToolInputDisplay → Option SessionUpdate
  | .todoList items => todoListToSessionUpdate items
  | _ => none

/-! ## Wire ids -/

theorem acpToolCallId_toList (turnId : ℕ) (toolCallId : String) :
    (acpToolCallId turnId toolCallId).toList =
      Nat.toDigits 10 turnId ++ ':' :: toolCallId.toList := by
  have digits : (toString turnId).toList = Nat.toDigits 10 turnId := Nat.toList_repr
  have colon : (toString ":").toList = [':'] := rfl
  have same : toString toolCallId = toolCallId := rfl
  simp only [acpToolCallId, String.toList_append, digits, colon, same, List.append_assoc,
    List.singleton_append]

/-- The part before the first colon is the turn's number. -/
theorem acpToolCallId_inj {t u : ℕ} {a b : String} (same : acpToolCallId t a = acpToolCallId u b) :
    t = u ∧ a = b := by
  have lists := congrArg String.toList same
  rw [acpToolCallId_toList, acpToolCallId_toList] at lists
  obtain ⟨numbers, ids⟩ := toDigits_separator_inj (by decide) lists
  exact ⟨numbers, String.toList_inj.1 ids⟩

theorem acpToolCallId_inj_iff {t u : ℕ} {a b : String} :
    acpToolCallId t a = acpToolCallId u b ↔ t = u ∧ a = b :=
  ⟨acpToolCallId_inj, fun ⟨numbers, ids⟩ => by rw [numbers, ids]⟩

end KimiCli.Acp
