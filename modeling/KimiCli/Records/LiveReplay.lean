import KimiCli.Records.ResumeBlobs

/-!
# Runs with resumes

A live context logs what it does, and the results with which a new step or a resume closes the
calls of the one before are logged once more as results of their own.  The log of every run, with
any number of resumes in it, restores the memory that the run has reached, up to the estimates that
reads leave in the messages.
-/

namespace KimiCli

/-- The message without its estimate. -/
def ContextMessage.bare (message : ContextMessage) : ContextMessage :=
  { message with estimate := none }

/-- The call that restores what this call has logged. -/
abbrev ContextCall.restored (call : ContextCall) : ContextCall :=
  { restoring := true, time := call.time }

/-- The same messages and the same open calls.  A resume forgets the open steps and logs nothing of
it, so that the other memory may know of more. -/
structure ContextMemory.Resembles (memory other : ContextMemory) : Prop where
  history : memory.history.map (·.bare) = other.history.map (·.bare)
  deferred : memory.deferredMessages = other.deferredMessages
  pending : memory.pendingToolResultIds = other.pendingToolResultIds
  steps : memory.steps = other.steps
  openSteps : ∀ uuid step, memory.openSteps.lookup uuid = some step →
    other.openSteps.lookup uuid = some step

namespace ContextMemory

variable {memory other after : ContextMemory} {call : ContextCall} {time : ℤ}

/-- Gives every one of the calls the result that it was interrupted. -/
def interrupt (call : ContextCall) (memory : ContextMemory) (ids : List String) : ContextMemory :=
  ids.foldl (fun memory toolCallId => memory.appendToolResult call toolCallId interrupted) memory

theorem lookup_filter (openSteps : List (String × ℕ)) (uuid uuid' : String) :
    (openSteps.filter (·.1 ≠ uuid)).lookup uuid' =
      if uuid' = uuid then none else openSteps.lookup uuid' := by
  induction openSteps with
  | nil => exact (ite_self _).symm
  | cons entry =>
    obtain ⟨key, step⟩ := entry
    grind

theorem bare_estimateRange (memory : ContextMemory) (start stop : ℕ) :
    (memory.estimateRange start stop).2.history.map (·.bare) = memory.history.map (·.bare) := by
  refine List.ext_getElem? fun i => ?_
  rw [estimateRange, List.getElem?_map, List.getElem?_mapIdx, List.getElem?_map, Option.map_map]
  refine congrArg (Option.map · _) (funext fun message => ?_)
  rw [Function.comp_apply, apply_ite ContextMessage.bare]
  exact ite_self _

theorem counted_kept (memory : ContextMemory) (uuid : String) (usage : TokenUsage) :
    (memory.counted uuid usage).history.map (·.bare) = memory.history.map (·.bare) ∧
      (memory.counted uuid usage).deferredMessages = memory.deferredMessages ∧
      (memory.counted uuid usage).pendingToolResultIds = memory.pendingToolResultIds ∧
      (memory.counted uuid usage).steps = memory.steps ∧
      (memory.counted uuid usage).openSteps = memory.openSteps.filter (·.1 ≠ uuid) := by
  unfold counted
  dsimp only
  split
  · exact ⟨rfl, rfl, rfl, rfl, rfl⟩
  · exact ⟨bare_estimateRange { memory with openSteps := _ } _ _, rfl, rfl, rfl, rfl⟩

theorem removals_bare (count : ℤ) (history : List ContextMessage) (i found : ℕ) :
    UndoScan.removals count (history.map (·.bare)) i found =
      UndoScan.removals count history i found := by
  induction i generalizing found with
  | zero => rfl
  | succ i ih =>
    rw [UndoScan.removals, UndoScan.removals, List.getElem?_map]
    cases history[i]? with
    | none => exact ih found
    | some =>
      rw [Option.map_some]
      rw [ih, ih]
      rfl

/-! ## The operations -/

namespace Resembles

variable (same : memory.Resembles other) (call : ContextCall)
include same

theorem log (record : ContextRecord) :
    (memory.logRecord call record).Resembles (other.logRecord call.restored record) := by
  unfold logRecord
  split <;> exact ⟨same.history, same.deferred, same.pending, same.steps, same.openSteps⟩

theorem push (messages : List ContextMessage) :
    (memory.pushHistory call messages).Resembles (other.pushHistory call.restored messages) :=
  ⟨by rw [pushHistory, pushHistory, List.map_append, List.map_append, same.history],
    same.deferred, same.pending, same.steps, same.openSteps⟩

theorem flush : (memory.flushDeferredMessagesIfToolExchangeClosed call).Resembles
    (other.flushDeferredMessagesIfToolExchangeClosed call.restored) := by
  unfold flushDeferredMessagesIfToolExchangeClosed hasOpenToolExchange
  rw [← same.pending, ← same.deferred]
  split
  · exact same
  · have pushed := same.push call memory.deferredMessages
    exact ⟨pushed.history, rfl, pushed.pending, pushed.steps, pushed.openSteps⟩

theorem appendMessage (message : ContextMessage) :
    (memory.appendMessage call message).Resembles
      (other.appendMessage call.restored message) := by
  have logged := same.log call (.appendMessage message)
  unfold ContextMemory.appendMessage hasOpenToolExchange
  dsimp only
  rw [← logged.pending]
  split
  · exact ⟨logged.history, congrArg (· ++ [message]) logged.deferred, rfl, logged.steps,
      logged.openSteps⟩
  · exact logged.push call [message]

theorem appendToolResult (toolCallId : String) (result : ToolResult) :
    (memory.appendToolResult call toolCallId result).Resembles
      (other.appendToolResult call.restored toolCallId result) := by
  have logged := same.log call (.appendLoopEvent (.toolResult toolCallId result))
  unfold ContextMemory.appendToolResult
  dsimp only
  rw [← logged.pending]
  split
  · exact logged
  · have pushed := logged.push call [toolMessage toolCallId result]
    refine flush ?_ call
    exact ⟨pushed.history, pushed.deferred, congrArg (·.erase toolCallId) logged.pending,
      pushed.steps, pushed.openSteps⟩

theorem interrupt (ids : List String) :
    (interrupt call memory ids).Resembles (interrupt call.restored other ids) := by
  induction ids generalizing memory other with
  | nil => exact same
  | cons toolCallId ids ih => exact ih (same.appendToolResult call toolCallId interrupted)

theorem lookup_filter (uuid uuid' : String) (step : ℕ)
    (found : (memory.openSteps.filter (·.1 ≠ uuid)).lookup uuid' = some step) :
    (other.openSteps.filter (·.1 ≠ uuid)).lookup uuid' = some step := by
  rw [ContextMemory.lookup_filter] at found ⊢
  split at found
  · cases found
  case isFalse still =>
    rw [if_neg still]
    exact same.openSteps uuid' step found

theorem appendStepBegin (uuid : String) : (memory.appendStepBegin call uuid).Resembles
    (other.appendStepBegin call.restored uuid) := by
  have closed : (memory.closePendingToolResults call).Resembles
      (other.closePendingToolResults call.restored) := by
    unfold closePendingToolResults
    rw [← same.pending]
    exact same.interrupt call _
  unfold ContextMemory.appendStepBegin
  dsimp only
  rw [← closed.steps]
  have pushed := closed.push call
    [{ role := .assistant, content := [], toolCalls := []
       step := some (memory.closePendingToolResults call).steps }]
  refine ⟨pushed.history, pushed.deferred, pushed.pending, rfl, fun uuid' step found => ?_⟩
  rw [List.lookup_cons] at found ⊢
  cases newest : uuid' == uuid with
  | true =>
    rw [newest] at found
    exact found
  | false =>
    rw [newest] at found
    exact closed.lookup_filter uuid uuid' step found

theorem appendStepEnd (uuid : String) (usage : Option TokenUsage) :
    (memory.appendStepEnd call uuid usage).Resembles
      (other.appendStepEnd call.restored uuid usage) := by
  cases usage with
  | none =>
    refine flush ?_ call
    exact ⟨same.history, same.deferred, same.pending, same.steps, same.lookup_filter uuid⟩
  | some usage =>
    rw [appendStepEnd_some, appendStepEnd_some]
    obtain ⟨history, deferred, pending, steps, openSteps⟩ := memory.counted_kept uuid usage
    obtain ⟨history', deferred', pending', steps', openSteps'⟩ := other.counted_kept uuid usage
    refine flush ⟨?_, ?_, ?_, ?_, ?_⟩ call
    · rw [history, history', same.history]
    · rw [deferred, deferred', same.deferred]
    · rw [pending, pending', same.pending]
    · rw [steps, steps', same.steps]
    · rw [openSteps, openSteps']
      exact same.lookup_filter uuid

theorem updateStep (step : ℕ) (change : ContextMessage → ContextMessage)
    (blind : ∀ message : ContextMessage, (change message.bare).bare = (change message).bare) :
    (memory.updateStep step change).Resembles (other.updateStep step change) := by
  refine ⟨?_, same.deferred, same.pending, same.steps, same.openSteps⟩
  have commutes (messages : List ContextMessage) :
      (messages.map fun message =>
        if message.step = some step then change message else message).map (·.bare) =
      (messages.map (·.bare)).map fun message =>
        if message.step = some step then (change message).bare else message := by
    rw [List.map_map, List.map_map]
    refine List.map_congr_left fun message _ => ?_
    simp only [Function.comp_apply]
    rw [apply_ite ContextMessage.bare]
    exact ite_congr rfl (fun _ => (blind message).symm) fun _ => rfl
  rw [ContextMemory.updateStep, ContextMemory.updateStep]
  rw [commutes, commutes, same.history]

theorem appendLoopEvent {event : LoopRecordedEvent}
    (accepted : (memory.appendLoopEvent call event).2 = none) :
    ∃ next, other.appendLoopEvent call.restored event = (next, none) ∧
      (memory.appendLoopEvent call event).1.Resembles next := by
  have logged := same.log call (.appendLoopEvent event)
  unfold ContextMemory.appendLoopEvent at accepted ⊢
  cases event with
  | stepBegin uuid => exact ⟨_, rfl, logged.appendStepBegin call uuid⟩
  | stepEnd uuid usage => exact ⟨_, rfl, logged.appendStepEnd call uuid usage⟩
  | contentPart stepUuid =>
    dsimp only at accepted ⊢
    split at accepted
    · cases accepted
    case h_2 step found =>
      rw [logged.openSteps stepUuid step found]
      exact ⟨_, rfl, logged.updateStep step _ fun _ => rfl⟩
  | toolCall stepUuid toolCallId name args =>
    dsimp only at accepted ⊢
    split at accepted
    · cases accepted
    case h_2 step found =>
      rw [logged.openSteps stepUuid step found]
      have updated := logged.updateStep step
        (fun message => { message with
          toolCalls := message.toolCalls ++
            [{ id := toolCallId, name, arguments := args.map Json.stringify }] })
        fun _ => rfl
      refine ⟨_, rfl, updated.history, updated.deferred, ?_, updated.steps, updated.openSteps⟩
      exact congrArg (fun ids : List String =>
        if toolCallId ∈ ids then ids else ids ++ [toolCallId]) logged.pending
  | toolResult toolCallId result => exact ⟨_, rfl, same.appendToolResult call toolCallId result⟩

theorem clear : (memory.clear call).Resembles (other.clear call.restored) := by
  have logged := same.log call .clear
  refine ⟨rfl, rfl, rfl, logged.steps, fun _ _ found => ?_⟩
  cases found

theorem applyCompaction (result : CompactionResult) :
    (memory.applyCompaction call result).Resembles
      (other.applyCompaction call.restored result) := by
  have logged := same.log call (.applyCompaction result)
  have replaced : (memory.summarized call result).Resembles
      (other.summarized call.restored result) := by
    refine ⟨?_, logged.deferred, logged.pending, logged.steps, fun _ _ found => ?_⟩
    · rw [summarized_history, summarized_history, List.map_cons, List.map_cons, List.map_drop,
        List.map_drop, same.history]
    · cases found
  have flushed := replaced.flush call
  rw [applyCompaction_eq, applyCompaction_eq]
  exact ⟨flushed.history, flushed.deferred, flushed.pending, flushed.steps, flushed.openSteps⟩

theorem undo (count : ℤ) :
    (memory.undo call count).1.Resembles (other.undo call.restored count).1 := by
  have length : memory.history.length = other.history.length := by
    simpa using congrArg List.length same.history
  have empty : memory.history = [] ↔ other.history = [] := by
    rw [← List.length_eq_zero_iff, length, List.length_eq_zero_iff]
  by_cases idle : count ≤ 0 ∨ memory.history = []
  · rw [undo_of_idle idle, undo_of_idle (idle.imp_right empty.1)]
    exact same
  · have busy := mt (Or.imp_right empty.2) idle
    rw [not_or, not_le] at idle busy
    obtain ⟨_, _, -, -, left, -⟩ := undo_done call idle.1 idle.2
    obtain ⟨_, _, -, -, left', -⟩ := undo_done call.restored busy.1 busy.2
    have removed : memory.removals count = other.removals count := by
      rw [removals, removals, length, ← removals_bare, same.history, removals_bare]
    refine ⟨?_, ?_, ?_, ?_, fun _ _ found => ?_⟩
    · rw [(memory.undo_removals call count).1, (other.undo_removals call.restored count).1, removed,
        Positions.map_foldl_eraseIdx, Positions.map_foldl_eraseIdx, same.history]
    · rw [left, left']
    · rw [left, left']
    · rw [left, left']
      exact (same.log call (.undo count)).steps
    · rw [left] at found
      cases found

end Resembles

/-! ## The log -/

/-- The records of a call restore what it has done. -/
def Restores (memory after : ContextMemory) : Prop :=
  ∃ logged, after.records = memory.records ++ logged ∧ ∀ other, memory.Resembles other →
    ∃ next, logged.foldlM ContextMemory.restore other = some next ∧ after.Resembles next

theorem logRecord_records (live : call.restoring = false) (record : ContextRecord) :
    (memory.logRecord call record).records = memory.records ++ [(record, call.time)] := by
  rw [logRecord, if_neg (Bool.eq_false_iff.1 live)]

theorem flush_records :
    (memory.flushDeferredMessagesIfToolExchangeClosed call).records = memory.records := by
  unfold flushDeferredMessagesIfToolExchangeClosed
  split <;> rfl

theorem appendStepEnd_records (uuid : String) (usage : Option TokenUsage) :
    (memory.appendStepEnd call uuid usage).records = memory.records := by
  refine flush_records.trans ?_
  cases usage with
  | none => rfl
  | some =>
    dsimp only
    split <;> rfl

theorem appendToolResult_records (live : call.restoring = false) (toolCallId : String)
    (result : ToolResult) : (memory.appendToolResult call toolCallId result).records =
      memory.records ++ [(.appendLoopEvent (.toolResult toolCallId result), call.time)] := by
  refine Eq.trans ?_ (logRecord_records live _)
  unfold appendToolResult
  dsimp only
  split
  · rfl
  · exact flush_records

/-- The records of `interrupt`. -/
def interruptions (time : ℤ) (ids : List String) : List (ContextRecord × ℤ) :=
  ids.map fun toolCallId => (.appendLoopEvent (.toolResult toolCallId interrupted), time)

theorem interrupt_records (live : call.restoring = false) (memory : ContextMemory)
    (ids : List String) :
    (interrupt call memory ids).records = memory.records ++ interruptions call.time ids := by
  induction ids generalizing memory with
  | nil => exact (List.append_nil _).symm
  | cons toolCallId ids ih =>
    refine (ih _).trans ?_
    rw [appendToolResult_records live, List.append_assoc]
    rfl

theorem restore_interruptions (call : ContextCall) (other : ContextMemory) (ids : List String) :
    (interruptions call.time ids).foldlM ContextMemory.restore other =
      some (interrupt call.restored other ids) := by
  induction ids generalizing other with
  | nil => rfl
  | cons toolCallId ids ih => exact ih _

theorem interrupt_pending (call : ContextCall) {ids : List String}
    (pending : memory.pendingToolResultIds = ids) :
    (interrupt call memory ids).pendingToolResultIds = [] := by
  induction ids generalizing memory with
  | nil => exact pending
  | cons toolCallId ids ih => exact ih (appendToolResult_first call pending interrupted).2.1

theorem interrupt_of_closed (closed : other.pendingToolResultIds = []) (ids : List String) :
    interrupt call.restored other ids = other := by
  induction ids with
  | nil => rfl
  | cons toolCallId ids ih =>
    have dropped : other.appendToolResult call.restored toolCallId interrupted = other :=
      if_pos (closed ▸ List.not_mem_nil)
    rw [interrupt, List.foldl_cons, dropped]
    exact ih

theorem restores_stepBegin (live : call.restoring = false) (uuid : String) :
    memory.Restores (memory.appendLoopEvent call (.stepBegin uuid)).1 := by
  refine ⟨(.appendLoopEvent (.stepBegin uuid), call.time) ::
    interruptions call.time memory.pendingToolResultIds, ?_, fun other same => ?_⟩
  · have pending : (memory.logRecord call (.appendLoopEvent (.stepBegin uuid))).pendingToolResultIds
        = memory.pendingToolResultIds := by
      unfold logRecord
      split <;> rfl
    refine (interrupt_records live (memory.logRecord call _) _).trans ?_
    rw [logRecord_records live, List.append_assoc, pending]
    rfl
  · have accepted : (memory.appendLoopEvent call (.stepBegin uuid)).2 = none := rfl
    obtain ⟨next, restored, same'⟩ := same.appendLoopEvent call accepted
    refine ⟨next, ?_, same'⟩
    cases restored
    refine (restore_interruptions call _ _).trans (congrArg some (interrupt_of_closed ?_ _))
    exact interrupt_pending call.restored rfl

/-! ## Runs -/

/-- What a live agent does that its log can restore: popping a message is not logged, and a loop
event of no open step throws. -/
def Loggable (memory : ContextMemory) : ContextOp → Prop
  | .appendMessage call _ | .undo call _ | .clear call | .applyCompaction call .. =>
    call.restoring = false
  | .appendLoopEvent call event =>
    call.restoring = false ∧ (memory.appendLoopEvent call event).2 = none
  | .popMatchedMessage _ => False
  | .tokenCountWithPending | .estimateTokensForMessages .. => True

theorem restores_perform {op : ContextOp} (loggable : memory.Loggable op) :
    memory.Restores (memory.perform op) := by
  cases op with
  | appendMessage call message =>
    refine ⟨[(.appendMessage message.toContextMessage, call.time)], ?_, fun other same =>
      ⟨_, rfl, same.appendMessage call message.toContextMessage⟩⟩
    change (memory.appendMessage call _).records = _
    refine Eq.trans ?_ (logRecord_records loggable _)
    unfold appendMessage
    dsimp only
    split <;> rfl
  | appendLoopEvent call event =>
    obtain ⟨live, accepted⟩ := loggable
    by_cases begins : ∃ uuid, event = .stepBegin uuid
    · obtain ⟨uuid, rfl⟩ := begins
      exact restores_stepBegin live uuid
    refine ⟨[(.appendLoopEvent event, call.time)], ?_, fun other same => ?_⟩
    · refine Eq.trans ?_ (logRecord_records live (.appendLoopEvent event))
      change (memory.appendLoopEvent call event).1.records = _
      unfold ContextMemory.appendLoopEvent
      cases event with
      | stepBegin uuid => exact absurd ⟨uuid, rfl⟩ begins
      | stepEnd uuid usage => exact appendStepEnd_records uuid usage
      | contentPart | toolCall =>
        dsimp only
        split <;> rfl
      | toolResult toolCallId result =>
        rw [logRecord_records live]
        exact appendToolResult_records live toolCallId result
    · obtain ⟨next, restored, same'⟩ := same.appendLoopEvent call accepted
      refine ⟨next, ?_, same'⟩
      rw [List.foldlM_cons, restore, restored]
      rfl
  | undo call count =>
    by_cases idle : count ≤ 0 ∨ memory.history = []
    · refine ⟨[], ?_, fun other same => ⟨other, rfl, ?_⟩⟩
      · exact (congrArg (·.1.records) (undo_of_idle idle)).trans (List.append_nil _).symm
      · exact (congrArg (·.1.Resembles other) (undo_of_idle idle)).mpr same
    · refine ⟨[(.undo count, call.time)], ?_, fun other same => ⟨_, rfl, same.undo call count⟩⟩
      rw [not_or, not_le] at idle
      obtain ⟨_, _, -, -, left, -⟩ := undo_done call idle.1 idle.2
      exact (congrArg ContextMemory.records left).trans (logRecord_records loggable _)
  | clear call =>
    refine ⟨[(.clear, call.time)], ?_, fun other same => ⟨_, rfl, same.clear call⟩⟩
    exact logRecord_records loggable .clear
  | applyCompaction call summary compactedCount tokensBefore tokensAfter =>
    refine ⟨[(.applyCompaction { summary, compactedCount, tokensBefore, tokensAfter }, call.time)],
      ?_, fun other same => ⟨_, rfl, same.applyCompaction call _⟩⟩
    exact flush_records.trans (logRecord_records loggable _)
  | popMatchedMessage => exact loggable.elim
  | tokenCountWithPending | estimateTokensForMessages =>
    refine ⟨[], (List.append_nil _).symm, fun other same => ⟨other, rfl, ?_⟩⟩
    exact ⟨(bare_estimateRange ..).trans same.history, same.deferred, same.pending, same.steps,
      same.openSteps⟩

/-- A run of live operations, and of resumes in a new process, which hears the time. -/
inductive ResumableOp
  | live (op : ContextOp)
  | resume (time : ℤ)

/-- `Agent.resume`, which goes on with the log that it has restored.  The notifications that
`background.reconcile` appends before `finishResume` are left out. -/
def resume (memory : ContextMemory) (time : ℤ) : Option ContextMemory :=
  (replayContext memory.records).map fun restored =>
    { restored with records := memory.records }.finishResume { time }

/-- One operation of a run. -/
def advance (memory : ContextMemory) : ResumableOp → Option ContextMemory
  | .live op => some (memory.perform op)
  | .resume time => memory.resume time

/-- A resume is always possible. -/
def Allowed (memory : ContextMemory) : ResumableOp → Prop
  | .live op => memory.Loggable op
  | .resume _ => True

/-- The log restores what resembles the memory. -/
def Replayable (memory : ContextMemory) : Prop :=
  ∃ restored, replayContext memory.records = some restored ∧ memory.Resembles restored

theorem Replayable.restores (replayable : memory.Replayable) (restores : memory.Restores after) :
    after.Replayable := by
  obtain ⟨restored, replayed, same⟩ := replayable
  obtain ⟨logged, records, all⟩ := restores
  obtain ⟨restored', next, same'⟩ := all restored same
  refine ⟨restored', ?_, same'⟩
  rw [records, replayContext, List.foldlM_append, ← replayContext, replayed]
  exact next

theorem resume_eq {restored : ContextMemory}
    (replayed : replayContext memory.records = some restored) (time : ℤ) :
    memory.resume time = some (interrupt { time }
      { restored with records := memory.records, openSteps := [] }
      restored.pendingToolResultIds) := by
  rw [resume, replayed]
  rfl

theorem resume_records {restored : ContextMemory}
    (replayed : replayContext memory.records = some restored)
    (resumed : memory.resume time = some after) :
    after.records = memory.records ++ interruptions time restored.pendingToolResultIds := by
  rw [resume_eq replayed] at resumed
  cases resumed
  exact interrupt_records rfl _ _

theorem Replayable.resume (replayable : memory.Replayable)
    (resumed : memory.resume time = some after) : after.Replayable := by
  obtain ⟨restored, replayed, -⟩ := replayable
  refine ⟨interrupt { restoring := true, time } restored restored.pendingToolResultIds, ?_, ?_⟩
  · rw [resume_records replayed resumed, replayContext, List.foldlM_append, ← replayContext,
      replayed]
    exact restore_interruptions { time } restored _
  · rw [resume_eq replayed] at resumed
    cases resumed
    have start : { restored with records := memory.records, openSteps := [] }.Resembles
        restored := by
      refine ⟨rfl, rfl, rfl, rfl, fun _ _ found => ?_⟩
      cases found
    exact start.interrupt { time } _

/-! ## Messages that wait -/

/-- Nothing waits when no call is open. -/
def Settled (memory : ContextMemory) : Prop :=
  memory.pendingToolResultIds = [] → memory.deferredMessages = []

theorem settled_flush (memory : ContextMemory) (call : ContextCall) :
    (memory.flushDeferredMessagesIfToolExchangeClosed call).Settled := by
  unfold flushDeferredMessagesIfToolExchangeClosed hasOpenToolExchange
  split
  case isTrue idle =>
    intro closed
    rcases idle with busy | none
    · exact absurd closed (of_decide_eq_true busy)
    · exact none
  case isFalse => exact fun _ => rfl

theorem Settled.log (settled : memory.Settled) (call : ContextCall) (record : ContextRecord) :
    (memory.logRecord call record).Settled := by
  unfold logRecord
  split <;> exact settled

theorem Settled.appendToolResult (settled : memory.Settled) (call : ContextCall)
    (toolCallId : String) (result : ToolResult) :
    (memory.appendToolResult call toolCallId result).Settled := by
  unfold ContextMemory.appendToolResult
  dsimp only
  split
  · exact settled.log call _
  · exact settled_flush _ call

theorem Settled.interrupt (settled : memory.Settled) (call : ContextCall) (ids : List String) :
    (interrupt call memory ids).Settled :=
  List.foldlRecOn ids _ settled fun _ before toolCallId _ =>
    before.appendToolResult call toolCallId interrupted

theorem Settled.appendLoopEvent (settled : memory.Settled) (call : ContextCall)
    (event : LoopRecordedEvent) : (memory.appendLoopEvent call event).1.Settled := by
  have logged := settled.log call (.appendLoopEvent event)
  unfold ContextMemory.appendLoopEvent
  cases event with
  | stepBegin => exact logged.interrupt call _
  | stepEnd => exact settled_flush _ call
  | contentPart =>
    dsimp only
    split <;> exact logged
  | toolCall =>
    dsimp only
    split
    · exact logged
    · intro closed
      dsimp only at closed
      split at closed
      case isTrue awaited => exact absurd awaited (closed ▸ List.not_mem_nil)
      case isFalse =>
        exact absurd closed (List.append_ne_nil_of_right_ne_nil _ (List.cons_ne_nil _ _))
  | toolResult toolCallId result => exact settled.appendToolResult call toolCallId result

theorem Settled.perform (settled : memory.Settled) (op : ContextOp) :
    (memory.perform op).Settled := by
  cases op with
  | appendMessage call =>
    change (memory.appendMessage call _).Settled
    unfold appendMessage
    dsimp only
    split
    case isTrue busy => exact fun closed => absurd closed (of_decide_eq_true busy)
    case isFalse => exact settled.log call _
  | appendLoopEvent call event => exact settled.appendLoopEvent call event
  | undo call count =>
    change (memory.undo call count).1.Settled
    by_cases idle : count ≤ 0 ∨ memory.history = []
    · rw [undo_of_idle idle]
      exact settled
    · rw [not_or, not_le] at idle
      obtain ⟨_, _, -, -, left, -⟩ := undo_done call idle.1 idle.2
      rw [left]
      exact fun _ => rfl
  | clear => exact fun _ => rfl
  | applyCompaction call =>
    exact settled_flush _ call
  | popMatchedMessage matcher =>
    change (memory.popMatchedMessage matcher).1.Settled
    unfold popMatchedMessage
    split
    case h_1 last waits =>
      intro closed
      have none : memory.deferredMessages = [] := settled (by split at closed <;> exact closed)
      rw [none] at waits
      cases waits
    case h_2 =>
      split
      · exact settled
      · split <;> exact settled
  | tokenCountWithPending | estimateTokensForMessages => exact settled

variable {ops : List ResumableOp}

theorem replayable_of_run (run : Transition.Run advance Allowed {} ops memory) :
    memory.Replayable ∧ memory.Settled := by
  refine run.invariant (fun memory => memory.Replayable ∧ memory.Settled)
    ⟨⟨{}, rfl, rfl, rfl, rfl, rfl, fun _ _ found => found⟩, fun _ => rfl⟩ ?_
  rintro memory op after ⟨replayable, settled⟩ allowed next
  cases op with
  | live op =>
    cases next
    exact ⟨replayable.restores (restores_perform allowed), settled.perform op⟩
  | resume time =>
    refine ⟨replayable.resume next, ?_⟩
    obtain ⟨restored, replayed, same⟩ := replayable
    cases (resume_eq replayed time).symm.trans next
    have start : { restored with records := memory.records, openSteps := [] }.Settled :=
      fun closed => same.deferred ▸ settled (same.pending.trans closed)
    exact start.interrupt { time } _

/-- After every run, with resumes in it, the log restores the memory that the run has reached. -/
theorem replay_resembles (run : Transition.Run advance Allowed {} ops memory) :
    ∃ restored, replayContext memory.records = some restored ∧ memory.Resembles restored :=
  (replayable_of_run run).1

/-- A message waits only while a call is open. -/
theorem nothing_waits (run : Transition.Run advance Allowed {} ops memory)
    (closed : memory.pendingToolResultIds = []) : memory.deferredMessages = [] :=
  (replayable_of_run run).2 closed

/-- After every run a resume gives each open call its one result, and lets in what has waited behind
them.  It logs these results, and the next resume finds nothing to do. -/
theorem resume_closes (run : Transition.Run advance Allowed {} ops memory) (time : ℤ) :
    ∃ resumed, memory.resume time = some resumed ∧
      resumed.history.map (·.bare) =
        (memory.history ++ memory.pendingToolResultIds.map (toolMessage · interrupted) ++
          memory.deferredMessages).map (·.bare) ∧
      resumed.pendingToolResultIds = [] ∧
      resumed.records = memory.records ++ interruptions time memory.pendingToolResultIds ∧
      ∀ time', ∃ again, resumed.resume time' = some again ∧ again.records = resumed.records ∧
        again.history.map (·.bare) = resumed.history.map (·.bare) := by
  obtain ⟨replayable, settled⟩ := replayable_of_run run
  have ⟨restored, replayed, same⟩ := replayable
  have resumed := resume_eq replayed time
  have closed := interrupt_pending { time } (show
    { restored with records := memory.records, openSteps := [] }.pendingToolResultIds = _ from rfl)
  refine ⟨_, resumed, ?_, closed, ?_, fun time' => ?_⟩
  · refine (congrArg (List.map _) (finishResume_history
      { restored with records := memory.records } { time })).trans ?_
    have waiting : (if memory.hasOpenToolExchange then memory.deferredMessages else []) =
        memory.deferredMessages := by
      by_cases busy : memory.pendingToolResultIds = []
      · rw [settled busy, ite_self]
      · exact if_pos (decide_eq_true busy)
    unfold hasOpenToolExchange at waiting ⊢
    rw [← same.pending, ← same.deferred, waiting, List.map_append, List.map_append, List.map_append,
      List.map_append, same.history]
  · rw [resume_records replayed resumed, same.pending]
  · obtain ⟨restored', replayed', same'⟩ := replayable.resume resumed
    have nothing := closed.symm.trans same'.pending
    refine ⟨_, resume_eq replayed' time', ?_, ?_⟩
    · rw [← nothing]
      rfl
    · rw [← nothing]
      exact same'.history.symm

/-! ## An interrupted call -/

/-- A message comes while a call is open, and the process ends before its result. -/
def interruptedCall : List ResumableOp :=
  [.live (.appendLoopEvent {} (.stepBegin "step")),
    .live (.appendLoopEvent {} (.toolCall "step" "call" "Read" none)),
    .live (.appendMessage {} (.ofText .user "hello")), .resume 5,
    .live (.appendLoopEvent {} (.stepBegin "next"))]

theorem interruptedCall_run : ∃ memory,
    Transition.Run advance Allowed {} interruptedCall memory ∧
      memory.pendingToolResultIds = [] :=
  ⟨_, .cons ⟨rfl, rfl⟩ rfl <| .cons ⟨rfl, rfl⟩ rfl <| .cons rfl rfl <| .cons trivial rfl <|
    .cons ⟨rfl, rfl⟩ rfl .nil, rfl⟩

theorem replay_resembles_interruptedCall : ∃ memory,
    Transition.Run advance Allowed {} interruptedCall memory ∧
      ∃ restored, replayContext memory.records = some restored ∧ memory.Resembles restored := by
  obtain ⟨memory, run, -⟩ := interruptedCall_run
  exact ⟨memory, run, replay_resembles run⟩

theorem nothing_waits_interruptedCall : ∃ memory,
    Transition.Run advance Allowed {} interruptedCall memory ∧ memory.deferredMessages = [] := by
  obtain ⟨memory, run, closed⟩ := interruptedCall_run
  exact ⟨memory, run, nothing_waits run closed⟩

theorem resume_closes_interruptedCall : ∃ memory,
    Transition.Run advance Allowed {} interruptedCall memory ∧
      ∃ resumed, memory.resume 7 = some resumed ∧ resumed.pendingToolResultIds = [] := by
  obtain ⟨memory, run, -⟩ := interruptedCall_run
  obtain ⟨resumed, closes, -, closed, -⟩ := resume_closes run 7
  exact ⟨memory, run, resumed, closes, closed⟩

end ContextMemory

end KimiCli
