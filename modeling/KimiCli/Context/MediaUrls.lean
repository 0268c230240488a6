import KimiCli.Context.Objects

/-!
# The URLs in a context

No operation of the context looks at the URLs of the media in its messages.  So a function of URLs
commutes with them all, and with the restoring of a record: here the URLs that are changed are those
in the messages that records carry whole, which is all but the messages that `step.begin` makes.
-/

namespace KimiCli

/-! ## Messages and records -/

namespace ContentPart

def mapUrl (f : String → String) : ContentPart → ContentPart
  | .imageUrl media => .imageUrl { media with url := f media.url }
  | .audioUrl media => .audioUrl { media with url := f media.url }
  | .videoUrl media => .videoUrl { media with url := f media.url }
  | part => part

def urls : ContentPart → List String
  | .imageUrl media | .audioUrl media | .videoUrl media => [media.url]
  | _ => []

theorem mapUrl_eq_iff {f g : String → String} {part : ContentPart} :
    part.mapUrl f = part.mapUrl g ↔ ∀ url ∈ part.urls, f url = g url := by
  cases part <;> simp [mapUrl, urls]

theorem mapUrl_id (part : ContentPart) : part.mapUrl id = part := by
  cases part <;> rfl

theorem mapUrl_mapUrl (g f : String → String) (part : ContentPart) :
    (part.mapUrl f).mapUrl g = part.mapUrl (g ∘ f) := by
  cases part <;> rfl

end ContentPart

namespace ContextMessage

def mapUrls (f : String → String) (message : ContextMessage) : ContextMessage :=
  { message with content := message.content.map (·.mapUrl f) }

def urls (message : ContextMessage) : List String := message.content.flatMap (·.urls)

theorem mapUrls_eq_iff {f g : String → String} {message : ContextMessage} :
    message.mapUrls f = message.mapUrls g ↔ ∀ url ∈ message.urls, f url = g url := by
  have content : message.mapUrls f = message.mapUrls g ↔
      message.content.map (·.mapUrl f) = message.content.map (·.mapUrl g) :=
    ⟨fun same => congrArg (fun message : ContextMessage => message.content) same,
      fun same => by rw [mapUrls, same, mapUrls]⟩
  rw [content, List.map_inj_left]
  constructor
  · intro same url mem
    obtain ⟨part, inside, mem⟩ := List.mem_flatMap.1 mem
    exact ContentPart.mapUrl_eq_iff.1 (same part inside) url mem
  · intro same part inside
    exact ContentPart.mapUrl_eq_iff.2 fun url mem =>
      same url (List.mem_flatMap.2 ⟨part, inside, mem⟩)

theorem mapUrls_id (message : ContextMessage) : message.mapUrls id = message := by
  have content : message.content.map (·.mapUrl id) = message.content :=
    (List.map_congr_left fun part _ => part.mapUrl_id).trans (List.map_id _)
  rw [mapUrls, content]

theorem mapUrls_eq_self_iff {f : String → String} {message : ContextMessage} :
    message.mapUrls f = message ↔ ∀ url ∈ message.urls, f url = url := by
  have := @mapUrls_eq_iff f id message
  rwa [mapUrls_id] at this

theorem mapUrls_mapUrls (g f : String → String) (message : ContextMessage) :
    (message.mapUrls f).mapUrls g = message.mapUrls (g ∘ f) := by
  rw [mapUrls, mapUrls, mapUrls, List.map_map]
  exact congrArg (fun content => { message with content })
    (List.map_congr_left fun part _ => ContentPart.mapUrl_mapUrl g f part)

/-- Changes the URLs unless `step.begin` has made the message. -/
def mapLogged (f : String → String) (message : ContextMessage) : ContextMessage :=
  if message.step = none then message.mapUrls f else message

section Kept

variable (f : String → String) (message : ContextMessage)

@[simp] theorem mapLogged_role : (message.mapLogged f).role = message.role := by
  unfold mapLogged
  split <;> rfl

@[simp] theorem mapLogged_origin : (message.mapLogged f).origin = message.origin := by
  unfold mapLogged
  split <;> rfl

@[simp] theorem mapLogged_step : (message.mapLogged f).step = message.step := by
  unfold mapLogged
  split <;> rfl

@[simp] theorem mapLogged_isInjection :
    (message.mapLogged f).isInjection = message.isInjection := by
  rw [isInjection, mapLogged_origin, isInjection]

@[simp] theorem mapLogged_isCompactionSummary :
    (message.mapLogged f).isCompactionSummary = message.isCompactionSummary := by
  rw [isCompactionSummary, mapLogged_origin, isCompactionSummary]

@[simp] theorem mapLogged_isRealUserPrompt :
    (message.mapLogged f).isRealUserPrompt = message.isRealUserPrompt := by
  rw [isRealUserPrompt, mapLogged_origin, mapLogged_role, isRealUserPrompt]

theorem mapLogged_of_step {step : ℕ} (made : message.step = some step) :
    message.mapLogged f = message := by
  rw [mapLogged, made, if_neg (Option.some_ne_none step)]

@[simp] theorem estimateTokens_mapUrl (part : ContentPart) :
    estimateTokensForContentPart (part.mapUrl f) = estimateTokensForContentPart part := by
  cases part <;> rfl

@[simp] theorem estimateTokens_mapLogged :
    estimateTokensForMessage (message.mapLogged f) = estimateTokensForMessage message := by
  unfold mapLogged
  split
  · have parts : (message.mapUrls f).content.map estimateTokensForContentPart =
        message.content.map estimateTokensForContentPart := by
      rw [mapUrls, List.map_map]
      exact List.map_congr_left fun part _ => estimateTokens_mapUrl f part
    rw [estimateTokensForMessage, parts]
    rfl
  · rfl

theorem mapLogged_estimate (estimate : Option ℕ) :
    { message with estimate }.mapLogged f = { message.mapLogged f with estimate } := by
  unfold mapLogged
  split <;> rfl

end Kept

end ContextMessage

def ToolResult.mapUrls (f : String → String) (result : ToolResult) : ToolResult :=
  { result with output := result.output.map id (·.map (·.mapUrl f)) }

/-- Changes the URLs in what a record carries whole: a message, or the output of a tool. -/
def ContextRecord.mapUrls (f : String → String) : ContextRecord → ContextRecord
  | .appendMessage message => .appendMessage (message.mapUrls f)
  | .appendLoopEvent (.toolResult toolCallId result) =>
    .appendLoopEvent (.toolResult toolCallId (result.mapUrls f))
  | record => record

def ContextRecord.urls : ContextRecord → List String
  | .appendMessage message => message.urls
  | .appendLoopEvent (.toolResult _ { output := .inr parts, .. }) => parts.flatMap (·.urls)
  | _ => []

/-- An appended message is of no step: the number of the step is not in the file. -/
def ContextRecord.Fresh (record : ContextRecord) : Prop :=
  ∀ message, record = .appendMessage message → message.step = none

theorem toolResultOutputForModel_mapUrls (f : String → String) (result : ToolResult) :
    toolResultOutputForModel (result.mapUrls f) =
      (toolResultOutputForModel result).map id (·.map (·.mapUrl f)) := by
  obtain ⟨output | parts, failed⟩ := result
  · have text : ToolResult.mapUrls f { output := .inl output, isError := failed } =
      { output := .inl output, isError := failed } := rfl
    rw [text]
    obtain ⟨out, isOut⟩ : ∃ out : String,
        toolResultOutputForModel { output := .inl output, isError := failed } = .inl out := by
      unfold toolResultOutputForModel
      dsimp only
      split <;> [split <;> [skip; split]; split] <;> exact ⟨_, rfl⟩
    rw [isOut]
    rfl
  · unfold toolResultOutputForModel ToolResult.mapUrls
    dsimp only [Sum.map_inr]
    by_cases empty : parts = []
    · rw [empty, List.map_nil, if_pos rfl]
      rfl
    · rw [if_neg (List.map_eq_nil_iff.not.2 empty), if_neg empty]
      split <;> rfl

/-! ## The memory -/

namespace ContextMemory

def mapLogged (f : String → String) (memory : ContextMemory) : ContextMemory :=
  { memory with
    history := memory.history.map (·.mapLogged f)
    deferredMessages := memory.deferredMessages.map (·.mapLogged f) }

variable (f : String → String) (memory : ContextMemory) (call : ContextCall)

theorem mapLogged_logRecord (record : ContextRecord) :
    (memory.mapLogged f).logRecord call record = (memory.logRecord call record).mapLogged f := by
  unfold logRecord
  split <;> rfl

theorem logRecord_of_restoring (restoring : call.restoring = true) (record : ContextRecord) :
    memory.logRecord call record = memory := if_pos restoring

theorem mapLogged_pushHistory (messages : List ContextMessage) :
    (memory.mapLogged f).pushHistory call (messages.map (·.mapLogged f)) =
      (memory.pushHistory call messages).mapLogged f := by
  have any : (messages.map (·.mapLogged f)).any (·.role = .assistant) =
      messages.any (·.role = .assistant) := by
    rw [List.any_map]
    exact List.any_congr rfl fun message => by simp
  unfold pushHistory mapLogged
  rw [any, List.map_append]

theorem mapLogged_flush :
    (memory.mapLogged f).flushDeferredMessagesIfToolExchangeClosed call =
      (memory.flushDeferredMessagesIfToolExchangeClosed call).mapLogged f := by
  have same : ((memory.mapLogged f).hasOpenToolExchange = true ∨
      (memory.mapLogged f).deferredMessages = []) ↔
        (memory.hasOpenToolExchange = true ∨ memory.deferredMessages = []) :=
    or_congr Iff.rfl List.map_eq_nil_iff
  unfold flushDeferredMessagesIfToolExchangeClosed
  by_cases idle : memory.hasOpenToolExchange = true ∨ memory.deferredMessages = []
  · rw [if_pos idle, if_pos (same.2 idle)]
  · rw [if_neg idle, if_neg (same.not.2 idle)]
    have pushed := mapLogged_pushHistory f memory call memory.deferredMessages
    exact congrArg (fun memory : ContextMemory => { memory with deferredMessages := [] }) pushed

theorem mapLogged_appendMessage (restoring : call.restoring = true) (message : ContextMessage) :
    (memory.mapLogged f).appendMessage call (message.mapLogged f) =
      (memory.appendMessage call message).mapLogged f := by
  unfold appendMessage
  rw [logRecord_of_restoring _ _ restoring, logRecord_of_restoring _ _ restoring]
  by_cases busy : memory.hasOpenToolExchange = true
  · rw [if_pos busy, if_pos (show (memory.mapLogged f).hasOpenToolExchange = true from busy)]
    unfold mapLogged
    rw [List.map_append]
    rfl
  · rw [if_neg busy, if_neg (show ¬(memory.mapLogged f).hasOpenToolExchange = true from busy)]
    exact mapLogged_pushHistory f memory call [message]

/-- The message of a result. -/
def toolMessage (toolCallId : String) (result : ToolResult) : ContextMessage :=
  { createToolMessage toolCallId (toolResultOutputForModel result) with isError := result.isError }

theorem mapLogged_toolMessage (toolCallId : String) (result : ToolResult) :
    (toolMessage toolCallId result).mapLogged f = toolMessage toolCallId (result.mapUrls f) := by
  rw [ContextMessage.mapLogged, if_pos (show (toolMessage toolCallId result).step = none from rfl)]
  unfold toolMessage ContextMessage.mapUrls
  rw [toolResultOutputForModel_mapUrls]
  cases toolResultOutputForModel result <;> rfl

theorem mapLogged_appendToolResult (toolCallId : String) (result result' : ToolResult)
    (same : toolMessage toolCallId result' = (toolMessage toolCallId result).mapLogged f)
    (logged : call.restoring = true ∨ result' = result) :
    (memory.mapLogged f).appendToolResult call toolCallId result' =
      (memory.appendToolResult call toolCallId result).mapLogged f := by
  have log : (memory.mapLogged f).logRecord call
      (.appendLoopEvent (.toolResult toolCallId result')) =
        (memory.logRecord call (.appendLoopEvent (.toolResult toolCallId result))).mapLogged f := by
    rcases logged with restoring | rfl
    · rw [logRecord_of_restoring _ _ restoring, logRecord_of_restoring _ _ restoring]
    · exact mapLogged_logRecord f memory call _
  unfold appendToolResult
  rw [log]
  generalize memory.logRecord call (.appendLoopEvent (.toolResult toolCallId result)) = memory
  by_cases awaited : toolCallId ∉ memory.pendingToolResultIds
  · rw [if_pos awaited,
      if_pos (show toolCallId ∉ (memory.mapLogged f).pendingToolResultIds from awaited)]
  · rw [if_neg awaited,
      if_neg (show ¬toolCallId ∉ (memory.mapLogged f).pendingToolResultIds from awaited)]
    have pushed := mapLogged_pushHistory f memory call [toolMessage toolCallId result]
    rw [List.map_singleton, ← same] at pushed
    rw [← mapLogged_flush]
    refine congrArg (flushDeferredMessagesIfToolExchangeClosed · call) ?_
    exact congrArg (fun memory : ContextMemory =>
      { memory with pendingToolResultIds := memory.pendingToolResultIds.erase toolCallId }) pushed

/-- The result of a call that was interrupted. -/
def interrupted : ToolResult :=
  { output := .inl toolInterruptedOnResumeOutput, isError := some true }

theorem mapLogged_closePendingToolResults :
    (memory.mapLogged f).closePendingToolResults call =
      (memory.closePendingToolResults call).mapLogged f := by
  unfold closePendingToolResults
  have (ids : List String) : ids.foldl (fun memory toolCallId =>
      memory.appendToolResult call toolCallId interrupted) (memory.mapLogged f) =
        (ids.foldl (fun memory toolCallId =>
          memory.appendToolResult call toolCallId interrupted) memory).mapLogged f := by
    induction ids generalizing memory with
    | nil => rfl
    | cons toolCallId ids ih =>
      rw [List.foldl_cons, List.foldl_cons,
        mapLogged_appendToolResult f memory call toolCallId interrupted interrupted
          (mapLogged_toolMessage f toolCallId interrupted).symm (.inr rfl), ih]
  exact this _

theorem mapLogged_updateStep (step : ℕ) {change : ContextMessage → ContextMessage}
    (kept : ∀ message : ContextMessage, (change message).step = message.step) :
    (memory.mapLogged f).updateStep step change =
      (memory.updateStep step change).mapLogged f := by
  unfold updateStep mapLogged
  rw [List.map_map, List.map_map]
  refine congrArg (fun history => ContextMemory.mk history _ _ _ _ _ _ _ _ _)
    (List.map_congr_left fun message _ => ?_)
  rw [Function.comp_apply, Function.comp_apply, ContextMessage.mapLogged_step]
  by_cases made : message.step = some step
  · rw [if_pos made, if_pos made, message.mapLogged_of_step f made,
      (change message).mapLogged_of_step f ((kept message).trans made)]
  · rw [if_neg made, if_neg made]

theorem estimateTokens_map (messages : List ContextMessage) :
    estimateTokensForMessages (messages.map (·.mapLogged f)) =
      estimateTokensForMessages messages := by
  unfold estimateTokensForMessages
  rw [List.map_map]
  exact congrArg List.sum (List.map_congr_left fun message _ => by
    rw [Function.comp_apply, ContextMessage.estimateTokens_mapLogged])

theorem mapLogged_estimateRange (start stop : ℕ) :
    (memory.mapLogged f).estimateRange start stop =
      ((memory.estimateRange start stop).1, (memory.estimateRange start stop).2.mapLogged f) := by
  unfold estimateRange mapLogged
  refine Prod.ext ?_ ?_
  · rw [← List.map_take, ← List.map_drop, estimateTokens_map]
  · dsimp only
    refine congrArg (fun history => ContextMemory.mk history _ _ _ _ _ _ _ _ _)
      (List.mapIdx_eq_iff.2 fun i => ?_)
    rw [List.getElem?_map, List.getElem?_mapIdx, List.getElem?_map]
    cases memory.history[i]? with
    | none => rfl
    | some =>
      dsimp only [Option.map_some]
      split
      · rw [ContextMessage.mapLogged_estimate, ContextMessage.estimateTokens_mapLogged]
      · rfl

theorem mapLogged_appendStepBegin (uuid : String) :
    (memory.mapLogged f).appendStepBegin call uuid =
      (memory.appendStepBegin call uuid).mapLogged f := by
  unfold appendStepBegin
  rw [mapLogged_closePendingToolResults]
  have pushed := mapLogged_pushHistory f (memory.closePendingToolResults call) call
    [{ role := .assistant, content := [], toolCalls := []
       step := some (memory.closePendingToolResults call).steps }]
  exact congrArg (fun pushed : ContextMemory => { pushed with
    openSteps := (uuid, (memory.closePendingToolResults call).steps) ::
      (memory.closePendingToolResults call).openSteps.filter (·.1 ≠ uuid)
    steps := (memory.closePendingToolResults call).steps + 1 }) pushed

theorem mapLogged_coveredCount (uuid : String) :
    (memory.mapLogged f).coveredCount uuid = memory.coveredCount uuid := by
  have index (step : ℕ) : (memory.mapLogged f).history.findIdx? (fun message : ContextMessage =>
      message.step = some step) = memory.history.findIdx? fun message : ContextMessage =>
        message.step = some step := by
    rw [mapLogged, List.findIdx?_map]
    exact congrArg (List.findIdx? · memory.history) (funext fun message => by simp)
  unfold coveredCount
  simp only [index]
  rw [show (memory.mapLogged f).history.length = memory.history.length from List.length_map ..]
  rfl

theorem mapLogged_counted (uuid : String) (usage : TokenUsage) :
    (memory.mapLogged f).counted uuid usage = (memory.counted uuid usage).mapLogged f := by
  have estimated := mapLogged_estimateRange f
    { memory with openSteps := memory.openSteps.filter (·.1 ≠ uuid) }
    memory.tokenCountCoveredMessageCount (memory.coveredCount uuid)
  unfold counted
  rw [mapLogged_coveredCount]
  dsimp only
  split
  · rfl
  · exact congrArg (fun estimated : ℕ × ContextMemory => { estimated.2 with
      tokenCount := memory.tokenCount + estimated.1
      tokenCountCoveredMessageCount := memory.coveredCount uuid }) estimated

theorem mapLogged_appendStepEnd (uuid : String) (usage : Option TokenUsage) :
    (memory.mapLogged f).appendStepEnd call uuid usage =
      (memory.appendStepEnd call uuid usage).mapLogged f := by
  cases usage with
  | none => exact mapLogged_flush f { memory with openSteps := memory.openSteps.filter _ } call
  | some usage =>
    rw [appendStepEnd_some, appendStepEnd_some, mapLogged_counted]
    exact mapLogged_flush f (memory.counted uuid usage) call

theorem mapLogged_clear (restoring : call.restoring = true) :
    (memory.mapLogged f).clear call = (memory.clear call).mapLogged f := by
  unfold clear
  rw [logRecord_of_restoring _ _ restoring, logRecord_of_restoring _ _ restoring]
  rfl

theorem mapLogged_applyCompaction (restoring : call.restoring = true) (result : CompactionResult) :
    (memory.mapLogged f).applyCompaction call result =
      (memory.applyCompaction call result).mapLogged f := by
  unfold applyCompaction
  rw [logRecord_of_restoring _ _ restoring, logRecord_of_restoring _ _ restoring]
  dsimp only
  generalize isSummary : ({ role := .assistant, content := [.text result.summary], toolCalls := []
                            origin := some .compactionSummary } : ContextMessage) = summary
  have same : summary.mapLogged f = summary := by
    rw [← isSummary]
    rfl
  have replaced : { memory.mapLogged f with
      history := summary :: (memory.mapLogged f).history.drop result.compactedCount
      openSteps := [] } = mapLogged f { memory with
        history := summary :: memory.history.drop result.compactedCount, openSteps := [] } := by
    unfold mapLogged
    dsimp only
    rw [List.map_cons, same, List.map_drop]
  rw [replaced, mapLogged_flush]
  unfold mapLogged
  rw [List.length_map]

end ContextMemory

namespace UndoScan

variable (f : String → String)

def mapLogged (scan : UndoScan) : UndoScan := { scan with memory := scan.memory.mapLogged f }

theorem mapLogged_remove (scan : UndoScan) (i : ℕ) (message : ContextMessage) :
    (scan.mapLogged f).remove i (message.mapLogged f) = (scan.remove i message).mapLogged f := by
  have estimate : estimateTokensForMessages [message.mapLogged f] =
      estimateTokensForMessages [message] := ContextMemory.estimateTokens_map f [message]
  have erased : (scan.mapLogged f).memory.history.eraseIdx i =
      (scan.memory.history.eraseIdx i).map (·.mapLogged f) := List.eraseIdx_map ..
  have covered : (scan.mapLogged f).memory.tokenCountCoveredMessageCount =
    scan.memory.tokenCountCoveredMessageCount := rfl
  unfold remove
  dsimp only
  rw [estimate, erased, covered]
  by_cases before : i < scan.memory.tokenCountCoveredMessageCount
  · rw [if_pos before, if_pos before]
    rfl
  · rw [if_neg before, if_neg before]
    rfl

theorem mapLogged_loop (count : ℤ) (i : ℕ) (scan : UndoScan) :
    loop count i (scan.mapLogged f) = (loop count i scan).mapLogged f := by
  induction i generalizing scan with
  | zero => rfl
  | succ i ih =>
    have here : (scan.mapLogged f).memory.history[i]? =
        scan.memory.history[i]?.map (·.mapLogged f) := List.getElem?_map ..
    rw [loop, loop, here]
    cases scan.memory.history[i]? with
    | none => exact ih scan
    | some message =>
      dsimp only [Option.map_some]
      rw [message.mapLogged_isInjection, message.mapLogged_isCompactionSummary,
        message.mapLogged_isRealUserPrompt, mapLogged_remove]
      split
      · exact ih scan
      · split
        · rfl
        · split
          · by_cases enough : count ≤ (((scan.remove i message).removedUserCount + 1 : ℕ) : ℤ)
            · rw [if_pos enough]
              exact if_pos enough
            · refine (if_neg enough).trans (.trans ?_ (congrArg (mapLogged f) (if_neg enough)).symm)
              exact ih { scan.remove i message with
                removedUserCount := (scan.remove i message).removedUserCount + 1 }
          · exact ih _

end UndoScan

namespace ContextMemory

variable (f : String → String) (memory : ContextMemory)

theorem mapLogged_undo {call : ContextCall} (restoring : call.restoring = true) (count : ℤ) :
    ((memory.mapLogged f).undo call count).1 = (memory.undo call count).1.mapLogged f := by
  have length : (memory.mapLogged f).history.length = memory.history.length := List.length_map ..
  unfold undo
  rw [length, logRecord_of_restoring _ _ restoring, logRecord_of_restoring _ _ restoring]
  split
  · rfl
  · split
    · rfl
    · dsimp only
      have scanned := UndoScan.mapLogged_loop f count memory.history.length { memory }
      have start : { memory := memory.mapLogged f : UndoScan } =
        UndoScan.mapLogged f { memory } := rfl
      rw [start, length, scanned]
      rw [if_neg fun both => absurd both.1 (by rw [restoring]; nofun),
        if_neg fun both => absurd both.1 (by rw [restoring]; nofun)]
      unfold UndoScan.mapLogged mapLogged
      rw [List.length_map]
      rfl

theorem mapLogged_restore (record : ContextRecord) (time : ℤ) (fresh : record.Fresh) :
    (memory.mapLogged f).restore (record.mapUrls f, time) =
      (memory.restore (record, time)).map (·.mapLogged f) := by
  cases record with
  | appendMessage message =>
    have mapped : message.mapUrls f = message.mapLogged f := (if_pos (fresh message rfl)).symm
    refine congrArg some ?_
    rw [mapped]
    exact mapLogged_appendMessage f memory { restoring := true, time } rfl message
  | clear => exact congrArg some (mapLogged_clear f memory { restoring := true, time } rfl)
  | applyCompaction result =>
    exact congrArg some (mapLogged_applyCompaction f memory { restoring := true, time } rfl result)
  | undo count => exact congrArg some (mapLogged_undo f memory rfl count)
  | appendLoopEvent event =>
    cases event with
    | stepBegin uuid =>
      exact congrArg some (mapLogged_appendStepBegin f memory { restoring := true, time } uuid)
    | stepEnd uuid usage =>
      exact congrArg some (mapLogged_appendStepEnd f memory { restoring := true, time } uuid usage)
    | contentPart stepUuid =>
      have same : (memory.mapLogged f).openSteps.lookup stepUuid =
        memory.openSteps.lookup stepUuid := rfl
      unfold restore ContextRecord.mapUrls appendLoopEvent
      dsimp only
      rw [logRecord_of_restoring _ _ rfl, logRecord_of_restoring _ _ rfl, same]
      cases memory.openSteps.lookup stepUuid with
      | none => rfl
      | some step => exact congrArg some (mapLogged_updateStep f memory step fun _ => rfl)
    | toolCall stepUuid toolCallId name args =>
      have same : (memory.mapLogged f).openSteps.lookup stepUuid =
        memory.openSteps.lookup stepUuid := rfl
      unfold restore ContextRecord.mapUrls appendLoopEvent
      dsimp only
      rw [logRecord_of_restoring _ _ rfl, logRecord_of_restoring _ _ rfl, same]
      cases memory.openSteps.lookup stepUuid with
      | none => rfl
      | some step =>
        have kept (message : ContextMessage) : ({ message with
          toolCalls := message.toolCalls ++
            [{ id := toolCallId, name, arguments := args.map Json.stringify }] } :
          ContextMessage).step = message.step := rfl
        exact congrArg some (congrArg (fun memory : ContextMemory => { memory with
          pendingToolResultIds :=
            if toolCallId ∈ memory.pendingToolResultIds then memory.pendingToolResultIds
            else memory.pendingToolResultIds ++ [toolCallId] })
          (mapLogged_updateStep f memory step kept))
    | toolResult toolCallId result =>
      exact congrArg some (mapLogged_appendToolResult f memory { restoring := true, time }
        toolCallId result (result.mapUrls f) (mapLogged_toolMessage f toolCallId result).symm
        (.inl rfl))

theorem mapLogged_replay {records : List (ContextRecord × ℤ)}
    (fresh : ∀ record ∈ records, record.1.Fresh) (memory : ContextMemory) :
    (records.map fun record => (record.1.mapUrls f, record.2)).foldlM restore
        (memory.mapLogged f) =
      (records.foldlM restore memory).map (·.mapLogged f) := by
  induction records generalizing memory with
  | nil => rfl
  | cons record records ih =>
    rw [List.map_cons, List.foldlM_cons, List.foldlM_cons,
      mapLogged_restore f memory record.1 record.2 (fresh record List.mem_cons_self)]
    cases memory.restore record with
    | none => rfl
    | some memory' => exact ih (fun record mem => fresh record (List.mem_cons_of_mem _ mem)) memory'

end ContextMemory

theorem replayContext_mapUrls {records : List (ContextRecord × ℤ)}
    (fresh : ∀ record ∈ records, record.1.Fresh) (f : String → String) :
    replayContext (records.map fun record => (record.1.mapUrls f, record.2)) =
      (replayContext records).map (·.mapLogged f) := ContextMemory.mapLogged_replay f fresh {}

end KimiCli
