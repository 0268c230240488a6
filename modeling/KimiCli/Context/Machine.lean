import KimiCli.Context.Undo
import KimiCli.Lib.Run

/-!
# Runs of the context

The operations of `ContextMemory` as the labels of a machine, with the reads that leave estimates in
the messages.  What is said of every message of a context is shown here once for all operations, and
what they do to the objects in the history: a message stays the same object while its content, its
tool calls and its estimate change in place.
-/

namespace KimiCli

/-- A message as `appendMessage` is handed it: no step has made it, and it has no estimate yet. -/
structure NewMessage extends ContextMessage where
  notOfStep : step = none
  notEstimated : estimate = none

/-- A message of one text. -/
def NewMessage.ofText (role : Role) (text : String) : NewMessage where
  role := role
  content := [.text text]
  toolCalls := []
  notOfStep := rfl
  notEstimated := rfl

inductive ContextOp
  | appendMessage (call : ContextCall) (message : NewMessage)
  | appendLoopEvent (call : ContextCall) (event : LoopRecordedEvent)
  | undo (call : ContextCall) (count : ℤ)
  | clear (call : ContextCall)
  | applyCompaction (call : ContextCall) (summary : String)
      (compactedCount tokensBefore tokensAfter : ℕ)
  | popMatchedMessage (matcher : Option PromptOrigin → Option String → Bool)
  | tokenCountWithPending
  | estimateTokensForMessages (start stop : ℕ)

namespace ContextMemory

/-- The matcher is given the origin of the message. -/
def popMatchedMessage (memory : ContextMemory)
    (matcher : Option PromptOrigin → Option String → Bool) : ContextMemory × Bool :=
  match memory.deferredMessages.getLast? with
  | some last =>
    if matcher last.origin last.variant then
      ({ memory with deferredMessages := memory.deferredMessages.dropLast }, true)
    else (memory, false)
  | none =>
    match memory.history.getLast? with
    | none => (memory, false)
    | some last =>
      if matcher last.origin last.variant then
        ({ memory with history := memory.history.dropLast }, true)
      else (memory, false)

def perform (memory : ContextMemory) : ContextOp → ContextMemory
  | .appendMessage call message => memory.appendMessage call message.toContextMessage
  | .appendLoopEvent call event => (memory.appendLoopEvent call event).1
  | .undo call count => (memory.undo call count).1
  | .clear call => memory.clear call
  | .applyCompaction call summary compactedCount tokensBefore tokensAfter =>
    memory.applyCompaction call { summary, compactedCount, tokensBefore, tokensAfter }
  | .popMatchedMessage matcher => (memory.popMatchedMessage matcher).1
  | .tokenCountWithPending => memory.tokenCountWithPending.2
  | .estimateTokensForMessages start stop => (memory.estimateRange start stop).2

def next (memory : ContextMemory) (op : ContextOp) : Option ContextMemory :=
  some (memory.perform op)

def summaryMessage (summary : String) : ContextMessage :=
  { role := .assistant, content := [.text summary], toolCalls := []
    origin := some .compactionSummary }

/-- What `applyCompaction` has before it flushes. -/
def summarized (memory : ContextMemory) (call : ContextCall) (result : CompactionResult) :
    ContextMemory :=
  { memory.logRecord call (.applyCompaction result) with
    history := summaryMessage result.summary ::
      (memory.logRecord call (.applyCompaction result)).history.drop result.compactedCount
    openSteps := [] }

theorem applyCompaction_eq (memory : ContextMemory) (call : ContextCall)
    (result : CompactionResult) : memory.applyCompaction call result =
      { (memory.summarized call result).flushDeferredMessagesIfToolExchangeClosed call with
        tokenCount := result.tokensAfter
        tokenCountCoveredMessageCount :=
          ((memory.summarized call result).flushDeferredMessagesIfToolExchangeClosed
            call).history.length
        cutoff := min ((memory.summarized call
          result).flushDeferredMessagesIfToolExchangeClosed call).cutoff 0 } := rfl

/-- The message that an operation changes in place, by its step, and how: the pushes of
`content.part` and of `tool.call`. -/
def push (memory : ContextMemory) : ContextOp → Option (ℕ × (ContextMessage → ContextMessage))
  | .appendLoopEvent _ (.contentPart stepUuid part) =>
    (memory.openSteps.lookup stepUuid).map fun step =>
      (step, fun message => { message with content := message.content ++ [part] })
  | .appendLoopEvent _ (.toolCall stepUuid toolCallId name args) =>
    (memory.openSteps.lookup stepUuid).map fun step =>
      (step, fun message =>
        { message with
          toolCalls := message.toolCalls ++
            [{ id := toolCallId, name, arguments := args.map Json.stringify }] })
  | _ => none

end ContextMemory

/-! ## What holds of every message -/

/-- A property of every message that the context makes itself, which are no injections, and that an
estimate does not end. -/
structure EstimateFree (P : ContextMessage → Prop) : Prop where
  made : ∀ message : ContextMessage, message.estimate = none →
    message.origin ≠ some .injection → P message
  estimated : ∀ message : ContextMessage, P message →
    P { message with estimate := some (estimateTokensForMessage message) }

/-- The same, where only the messages of steps that are the assistant's are made. -/
structure OwnMessages (P : ContextMessage → Prop) : Prop where
  made : ∀ message : ContextMessage, message.estimate = none →
    message.origin ≠ some .injection → (message.step.isSome → message.role = .assistant) → P message
  estimated : ∀ message : ContextMessage, P message →
    P { message with estimate := some (estimateTokensForMessage message) }

theorem EstimateFree.ownMessages {P : ContextMessage → Prop} (free : EstimateFree P) :
    OwnMessages P :=
  ⟨fun message absent own _ => free.made message absent own, free.estimated⟩

/-- All messages of the history have the property, and those that wait have it too. -/
structure ContextMemory.Each (P : ContextMessage → Prop) (memory : ContextMemory) : Prop where
  history : ∀ message ∈ memory.history, P message
  deferred : ∀ message ∈ memory.deferredMessages, P message

namespace ContextMemory

variable {memory : ContextMemory} {P : ContextMessage → Prop} {call : ContextCall}

theorem Each.congr {memory' : ContextMemory} (each : memory.Each P)
    (history : memory'.history = memory.history)
    (deferred : memory'.deferredMessages = memory.deferredMessages) : memory'.Each P :=
  ⟨by rw [history]; exact each.history, by rw [deferred]; exact each.deferred⟩

@[simp] theorem logRecord_deferredMessages (record : ContextRecord) :
    (memory.logRecord call record).deferredMessages = memory.deferredMessages := by
  unfold logRecord
  split <;> rfl

section

variable (each : memory.Each P)
include each

theorem Each.logRecord (call : ContextCall) (record : ContextRecord) :
    (memory.logRecord call record).Each P :=
  each.congr (logRecord_history record) (logRecord_deferredMessages record)

theorem Each.pushHistory (call : ContextCall) {messages : List ContextMessage}
    (all : ∀ message ∈ messages, P message) :
    (memory.pushHistory call messages).Each P where
  history message mem := by
    rcases List.mem_append.1 mem with old | new
    · exact each.history message old
    · exact all message new
  deferred := each.deferred

theorem Each.flush (call : ContextCall) :
    (memory.flushDeferredMessagesIfToolExchangeClosed call).Each P := by
  unfold flushDeferredMessagesIfToolExchangeClosed
  split
  · exact each
  · exact ⟨(each.pushHistory call each.deferred).history, fun _ mem => nomatch mem⟩

theorem Each.appendMessage {message : ContextMessage} (new : P message) :
    (memory.appendMessage call message).Each P := by
  have logged := each.logRecord call (.appendMessage message)
  unfold ContextMemory.appendMessage
  dsimp only
  split
  · refine ⟨logged.history, fun other mem => ?_⟩
    rcases List.mem_append.1 mem with old | last
    · exact logged.deferred other old
    · rwa [List.mem_singleton.1 last]
  · exact logged.pushHistory call (by simpa using new)

theorem Each.appendToolResult (free : OwnMessages P) (toolCallId : String) (result : ToolResult) :
    (memory.appendToolResult call toolCallId result).Each P := by
  have logged := each.logRecord call
    (.appendLoopEvent (.toolResult toolCallId result))
  unfold ContextMemory.appendToolResult
  dsimp only
  split
  · exact logged
  · have pushed := logged.pushHistory call fun message mem => by
      obtain rfl := List.mem_singleton.1 mem
      exact free.made
        { createToolMessage toolCallId (toolResultOutputForModel result) with
          isError := result.isError } rfl nofun nofun
    refine Each.flush ?_ call
    exact ⟨pushed.history, pushed.deferred⟩

theorem Each.closePendingToolResults (free : OwnMessages P) (call : ContextCall) :
    (memory.closePendingToolResults call).Each P :=
  List.foldlRecOn _ _ each fun _ kept toolCallId _ => kept.appendToolResult free toolCallId _

theorem Each.estimateRange (free : OwnMessages P) (start stop : ℕ) :
    (memory.estimateRange start stop).2.Each P where
  history message mem := by
    obtain ⟨i, lt, rfl⟩ := List.mem_mapIdx.1 mem
    split
    · exact free.estimated _ (each.history _ (List.getElem_mem lt))
    · exact each.history _ (List.getElem_mem lt)
  deferred := each.deferred

theorem Each.updateStep {step : ℕ} {change : ContextMessage → ContextMessage}
    (changed : ∀ message ∈ memory.history, message.step = some step → P (change message)) :
    (memory.updateStep step change).Each P where
  history message mem := by
    obtain ⟨old, inside, rfl⟩ := List.mem_map.1 mem
    split
    case isTrue same => exact changed old inside same
    case isFalse => exact each.history old inside
  deferred := each.deferred

theorem Each.appendStepBegin (free : OwnMessages P) (uuid : String) :
    (memory.appendStepBegin call uuid).Each P := by
  have pushed := (each.closePendingToolResults free call).pushHistory call fun message mem => by
    obtain rfl := List.mem_singleton.1 mem
    exact free.made
      { role := .assistant, content := [], toolCalls := []
        step := some (memory.closePendingToolResults call).steps } rfl nofun fun _ => rfl
  exact ⟨pushed.history, pushed.deferred⟩

theorem Each.appendStepEnd (free : OwnMessages P) (uuid : String) (usage : Option TokenUsage) :
    (memory.appendStepEnd call uuid usage).Each P := by
  unfold ContextMemory.appendStepEnd
  refine Each.flush ?_ call
  have ended : { memory with openSteps := memory.openSteps.filter (·.1 ≠ uuid) }.Each P :=
    ⟨each.history, each.deferred⟩
  cases usage with
  | none => exact ended
  | some =>
    dsimp only
    split
    · exact ⟨ended.history, ended.deferred⟩
    · have estimated := ended.estimateRange free memory.tokenCountCoveredMessageCount
      exact ⟨(estimated _).history, ended.deferred⟩

theorem Each.appendLoopEvent (free : OwnMessages P)
    (event : LoopRecordedEvent)
    (pushed : ∀ step change, memory.push (.appendLoopEvent call event) = some (step, change) →
      ∀ message ∈ memory.history, message.step = some step → P (change message)) :
    (memory.appendLoopEvent call event).1.Each P := by
  have logged := each.logRecord call (.appendLoopEvent event)
  have openSteps : (memory.logRecord call (.appendLoopEvent event)).openSteps =
      memory.openSteps := by
    unfold ContextMemory.logRecord
    split <;> rfl
  unfold ContextMemory.appendLoopEvent
  cases event with
  | stepBegin uuid => exact logged.appendStepBegin free uuid
  | stepEnd uuid usage => exact logged.appendStepEnd free uuid usage
  | contentPart stepUuid =>
    dsimp only
    rw [openSteps]
    cases found : memory.openSteps.lookup stepUuid with
    | none => exact logged
    | some step =>
      refine logged.updateStep fun message mem same => ?_
      rw [logRecord_history] at mem
      exact pushed step _ (by rw [push, found]; rfl) message mem same
  | toolCall stepUuid =>
    dsimp only
    rw [openSteps]
    cases found : memory.openSteps.lookup stepUuid with
    | none => exact logged
    | some step =>
      have updated := logged.updateStep fun message mem same => by
        rw [logRecord_history] at mem
        exact pushed step _ (by rw [push, found]; rfl) message mem same
      exact ⟨updated.history, updated.deferred⟩
  | toolResult toolCallId result => exact each.appendToolResult free toolCallId result

theorem Each.undo (count : ℤ) : (memory.undo call count).1.Each P := by
  by_cases idle : count ≤ 0 ∨ memory.history = []
  · rw [undo_of_idle idle]
    exact each
  · rw [not_or, not_le] at idle
    obtain ⟨kept, removed, split, -, after, -⟩ := undo_done call idle.1 idle.2
    have all := each.history
    rw [split] at all
    rw [after]
    refine ⟨fun message mem => all message ?_, fun message mem => nomatch mem⟩
    have mem : message ∈ kept ++ removed.filter (·.isInjection) ++ [] := mem
    rw [List.append_nil] at mem
    exact (List.filter_sublist.append_left kept).subset mem

theorem Each.applyCompaction (free : OwnMessages P) (result : CompactionResult) :
    (memory.applyCompaction call result).Each P := by
  have logged := each.logRecord call (.applyCompaction result)
  have replaced : (memory.summarized call result).Each P := by
    refine ⟨fun message mem => ?_, logged.deferred⟩
    rcases List.mem_cons.1 mem with rfl | old
    · exact free.made (summaryMessage result.summary) rfl nofun nofun
    · exact logged.history message (List.mem_of_mem_drop old)
  rw [applyCompaction_eq]
  exact ⟨(replaced.flush call).history, (replaced.flush call).deferred⟩

theorem Each.popMatchedMessage (matcher : Option PromptOrigin → Option String → Bool) :
    (memory.popMatchedMessage matcher).1.Each P := by
  unfold ContextMemory.popMatchedMessage
  split
  · split
    · exact ⟨each.history, fun message mem => each.deferred message (List.mem_of_mem_dropLast mem)⟩
    · exact each
  · split
    · exact each
    · split
      · exact ⟨fun message mem => each.history message (List.mem_of_mem_dropLast mem),
          each.deferred⟩
      · exact each

/-- An operation keeps a property of all messages if what it appends and what it changes in place
has it. -/
theorem Each.perform (free : OwnMessages P) (op : ContextOp)
    (appended : ∀ call message, op = .appendMessage call message → P message.toContextMessage)
    (pushed : ∀ step change, memory.push op = some (step, change) →
      ∀ message ∈ memory.history, message.step = some step → P (change message)) :
    (memory.perform op).Each P := by
  cases op with
  | appendMessage call message =>
    exact each.appendMessage (appended call message rfl)
  | appendLoopEvent call event => exact each.appendLoopEvent free event pushed
  | undo call count => exact each.undo count
  | clear => exact ⟨fun _ mem => (nomatch mem), fun _ mem => nomatch mem⟩
  | applyCompaction =>
    exact each.applyCompaction free _
  | popMatchedMessage matcher => exact each.popMatchedMessage matcher
  | tokenCountWithPending => exact each.estimateRange free _ _
  | estimateTokensForMessages start stop => exact each.estimateRange free start stop

end

end ContextMemory

end KimiCli
