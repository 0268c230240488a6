import KimiCli.Context.Machine
import KimiCli.Lib.Positions

/-!
# The objects in the history

A message is an object of its own, whatever other message has the same content.  `survivors` is what
an operation leaves of a list that runs beside the history, and `TrackedContext` carries such a
list: a number for each object, given when it enters the history.
-/

namespace KimiCli

/-- One message earlier and later: its content, its tool calls and its cached estimate may have
changed in place, but the first estimate is kept. -/
structure SameObject (before after : ContextMessage) : Prop where
  role : after.role = before.role
  origin : after.origin = before.origin
  variant : after.variant = before.variant
  estimate : ∀ n ∈ before.estimate, after.estimate = some n

theorem SameObject.refl (message : ContextMessage) : SameObject message message :=
  ⟨rfl, rfl, rfl, fun _ known => known⟩

theorem SameObject.trans {first second third : ContextMessage} (one : SameObject first second)
    (two : SameObject second third) : SameObject first third :=
  ⟨two.role.trans one.role, two.origin.trans one.origin, two.variant.trans one.variant,
    fun n known => two.estimate n (one.estimate n known)⟩

/-- The objects of the first list are those that the second one begins with. -/
def GrowsTo (before after : List ContextMessage) : Prop :=
  ∀ (i : ℕ) (message : ContextMessage), before[i]? = some message →
    ∃ message', after[i]? = some message' ∧ SameObject message message'

namespace GrowsTo

variable {before between after : List ContextMessage}

theorem refl (messages : List ContextMessage) : GrowsTo messages messages :=
  fun _ message here => ⟨message, here, .refl message⟩

theorem trans (one : GrowsTo before between) (two : GrowsTo between after) : GrowsTo before after :=
  fun i message here => by
    obtain ⟨message', here', same⟩ := one i message here
    obtain ⟨message'', here'', same'⟩ := two i message' here'
    exact ⟨message'', here'', same.trans same'⟩

theorem append (messages added : List ContextMessage) : GrowsTo messages (messages ++ added) :=
  fun i message here => by
    obtain ⟨lt, -⟩ := List.getElem?_eq_some_iff.1 here
    exact ⟨message, by rw [List.getElem?_append_left lt, here], .refl message⟩

theorem mapIdx {change : ℕ → ContextMessage → ContextMessage}
    (same : ∀ i message, SameObject message (change i message)) :
    GrowsTo before (before.mapIdx change) :=
  fun i message here => ⟨change i message, by rw [List.getElem?_mapIdx, here]; rfl, same i message⟩

theorem map {change : ContextMessage → ContextMessage}
    (same : ∀ message, SameObject message (change message)) : GrowsTo before (before.map change) :=
  fun i message here => ⟨change message, by rw [List.getElem?_map, here]; rfl, same message⟩

theorem length_le (grows : GrowsTo before after) : before.length ≤ after.length := by
  by_contra more
  rw [not_le] at more
  obtain ⟨message, here, -⟩ := grows after.length _ (List.getElem?_eq_getElem more)
  rw [List.getElem?_eq_none le_rfl] at here
  cases here

end GrowsTo

/-! ## What a piece of an operation appends -/

/-- Messages are appended or changed in place, and the count stays as it is. -/
structure Appends (before after : ContextMemory) : Prop where
  history : GrowsTo before.history after.history
  tokenCount : after.tokenCount = before.tokenCount
  covered : after.tokenCountCoveredMessageCount = before.tokenCountCoveredMessageCount

theorem Appends.refl (memory : ContextMemory) : Appends memory memory := ⟨.refl _, rfl, rfl⟩

theorem Appends.trans {before between after : ContextMemory} (one : Appends before between)
    (two : Appends between after) : Appends before after :=
  ⟨one.history.trans two.history, two.tokenCount.trans one.tokenCount,
    two.covered.trans one.covered⟩

namespace ContextMemory

variable (memory : ContextMemory) (call : ContextCall)

theorem appends_logRecord (record : ContextRecord) :
    Appends memory (memory.logRecord call record) := by
  unfold logRecord
  split <;> exact ⟨.refl _, rfl, rfl⟩

theorem appends_pushHistory (messages : List ContextMessage) :
    Appends memory (memory.pushHistory call messages) := ⟨.append _ _, rfl, rfl⟩

theorem appends_flush :
    Appends memory (memory.flushDeferredMessagesIfToolExchangeClosed call) := by
  unfold flushDeferredMessagesIfToolExchangeClosed
  split
  · exact .refl memory
  · exact ⟨.append _ _, rfl, rfl⟩

theorem appends_appendMessage (message : ContextMessage) :
    Appends memory (memory.appendMessage call message) := by
  have logged := memory.appends_logRecord call (.appendMessage message)
  unfold appendMessage
  dsimp only
  split
  · exact ⟨logged.history, logged.tokenCount, logged.covered⟩
  · exact logged.trans (appends_pushHistory _ call _)

theorem appends_appendToolResult (toolCallId : String) (result : ToolResult) :
    Appends memory (memory.appendToolResult call toolCallId result) := by
  have logged := memory.appends_logRecord call (.appendLoopEvent (.toolResult toolCallId result))
  unfold appendToolResult
  dsimp only
  split
  · exact logged
  · refine Appends.trans ?_ (appends_flush _ call)
    have pushed := logged.trans (appends_pushHistory _ call
      [{ createToolMessage toolCallId (toolResultOutputForModel result) with
        isError := result.isError }])
    exact ⟨pushed.history, pushed.tokenCount, pushed.covered⟩

theorem appends_closePendingToolResults :
    Appends memory (memory.closePendingToolResults call) :=
  List.foldlRecOn (motive := Appends memory) _ _ (.refl memory)
    fun between appended toolCallId _ =>
      appended.trans (between.appends_appendToolResult call toolCallId _)

theorem appends_appendStepBegin (uuid : String) :
    Appends memory (memory.appendStepBegin call uuid) := by
  have pushed := (memory.appends_closePendingToolResults call).trans
    (appends_pushHistory _ call
      [{ role := .assistant, content := [], toolCalls := []
         step := some (memory.closePendingToolResults call).steps }])
  exact ⟨pushed.history, pushed.tokenCount, pushed.covered⟩

theorem appends_estimateRange (start stop : ℕ) :
    Appends memory (memory.estimateRange start stop).2 := by
  refine ⟨.mapIdx fun i message => ?_, rfl, rfl⟩
  split
  · refine ⟨rfl, rfl, rfl, fun n known => ?_⟩
    have known : message.estimate = some n := known
    change some (estimateTokensForMessage message) = _
    rw [estimateTokensForMessage, known]
    rfl
  · exact .refl message

theorem appends_updateStep {change : ContextMessage → ContextMessage}
    (same : ∀ message, SameObject message (change message)) (step : ℕ) :
    Appends memory (memory.updateStep step change) := by
  refine ⟨.map fun message => ?_, rfl, rfl⟩
  split
  · exact same message
  · exact .refl message

theorem appends_appendLoopEvent (event : LoopRecordedEvent)
    (open_ : ∀ uuid usage, event ≠ .stepEnd uuid usage) :
    Appends memory (memory.appendLoopEvent call event).1 := by
  have logged := memory.appends_logRecord call (.appendLoopEvent event)
  unfold appendLoopEvent
  cases event with
  | stepBegin uuid => exact logged.trans (appends_appendStepBegin _ call uuid)
  | stepEnd uuid usage => exact absurd rfl (open_ uuid usage)
  | contentPart stepUuid =>
    dsimp only
    cases (memory.logRecord call _).openSteps.lookup stepUuid with
    | none => exact logged
    | some step =>
      refine logged.trans (appends_updateStep _ (fun message => ?_) step)
      exact ⟨rfl, rfl, rfl, fun _ known => known⟩
  | toolCall stepUuid toolCallId name args =>
    dsimp only
    cases (memory.logRecord call _).openSteps.lookup stepUuid with
    | none => exact logged
    | some step =>
      have updated := appends_updateStep (memory.logRecord call
          (.appendLoopEvent (.toolCall stepUuid toolCallId name args)))
        (fun message => (⟨rfl, rfl, rfl, fun _ known => known⟩ : SameObject message
          { message with
            toolCalls := message.toolCalls ++
              [{ id := toolCallId, name, arguments := args.map Json.stringify }] })) step
      have appended := logged.trans updated
      exact ⟨appended.history, appended.tokenCount, appended.covered⟩
  | toolResult toolCallId result => exact appends_appendToolResult memory call toolCallId result

/-! ## The end of a step -/

/-- The messages that a usage report of the step covers. -/
def coveredCount (uuid : String) : ℕ :=
  ((memory.openSteps.lookup uuid).bind fun step =>
    memory.history.findIdx? fun (message : ContextMessage) => message.step = some step).elim
      memory.history.length (· + 1)

theorem coveredCount_le (uuid : String) : memory.coveredCount uuid ≤ memory.history.length := by
  unfold coveredCount
  cases found : (memory.openSteps.lookup uuid).bind fun step =>
      memory.history.findIdx? fun (message : ContextMessage) => message.step = some step with
  | none => exact le_rfl
  | some i =>
    obtain ⟨step, -, here⟩ := Option.bind_eq_some_iff.1 found
    exact (List.findIdx?_eq_some_iff_getElem.1 here).1

/-- What `step.end` has before it flushes, if a usage is reported. -/
def counted (uuid : String) (usage : TokenUsage) : ContextMemory :=
  let memory' := { memory with openSteps := memory.openSteps.filter (·.1 ≠ uuid) }
  let totalUsage :=
    usage.inputCacheRead + usage.inputCacheCreation + usage.inputOther + usage.output
  let estimated :=
    memory'.estimateRange memory.tokenCountCoveredMessageCount (memory.coveredCount uuid)
  { (if 0 < totalUsage then { memory' with tokenCount := totalUsage }
    else { estimated.2 with tokenCount := memory.tokenCount + estimated.1 }) with
    tokenCountCoveredMessageCount := memory.coveredCount uuid }

theorem appendStepEnd_some (uuid : String) (usage : TokenUsage) :
    memory.appendStepEnd call uuid (some usage) =
      (memory.counted uuid usage).flushDeferredMessagesIfToolExchangeClosed call := rfl

theorem grows_counted (uuid : String) (usage : TokenUsage) :
    GrowsTo memory.history (memory.counted uuid usage).history := by
  unfold counted
  dsimp only
  split
  · exact .refl _
  · exact (appends_estimateRange { memory with
      openSteps := memory.openSteps.filter (·.1 ≠ uuid) } _ _).history

theorem appends_appendStepEnd (uuid : String) :
    Appends memory (memory.appendStepEnd call uuid none) := by
  have appended := appends_flush
    { memory with openSteps := memory.openSteps.filter (·.1 ≠ uuid) } call
  exact ⟨appended.history, appended.tokenCount, appended.covered⟩

end ContextMemory

/-! ## What an undo removes -/

namespace UndoScan

/-- The indices that the loop hands to `onContextMessageRemoved`, in its order. -/
def removals (count : ℤ) (history : List ContextMessage) : ℕ → ℕ → List ℕ
  | 0, _ => []
  | i + 1, removedUserCount =>
    match history[i]? with
    | none => removals count history i removedUserCount
    | some message =>
      if message.isInjection then removals count history i removedUserCount
      else if message.isCompactionSummary then []
      else
        i :: if message.isRealUserPrompt then
            if count ≤ ((removedUserCount + 1 : ℕ) : ℤ) then []
            else removals count history i (removedUserCount + 1)
          else removals count history i removedUserCount

variable {count : ℤ} {history : List ContextMessage}

theorem remove_covered_eq (scan : UndoScan) (i : ℕ) (message : ContextMessage) :
    (scan.remove i message).memory.tokenCountCoveredMessageCount =
      Positions.shrunk scan.memory.tokenCountCoveredMessageCount i := by
  unfold remove Positions.shrunk
  dsimp only
  split <;> rfl

/-- The loop erases what is removed, and shortens the covered part by it.  `history` is the history
that the undo has started with. -/
theorem loop_removals (count : ℤ) (history : List ContextMessage) : ∀ (i : ℕ) (scan : UndoScan),
    (∀ j < i, scan.memory.history[j]? = history[j]?) →
    (loop count i scan).memory.history =
      (removals count history i scan.removedUserCount).foldl List.eraseIdx scan.memory.history ∧
    (loop count i scan).memory.tokenCountCoveredMessageCount =
      (removals count history i scan.removedUserCount).foldl Positions.shrunk
        scan.memory.tokenCountCoveredMessageCount
  | 0, _, _ => ⟨rfl, rfl⟩
  | i + 1, scan, same => by
    have below (j : ℕ) (lt : j < i) : scan.memory.history[j]? = history[j]? :=
      same j (Nat.lt_succ_of_lt lt)
    rw [loop, removals, same i i.lt_succ_self]
    cases history[i]? with
    | none => exact loop_removals count history i scan below
    | some message =>
      have erased (j : ℕ) (lt : j < i) :
          (scan.remove i message).memory.history[j]? = history[j]? := by
        rw [remove_history, List.getElem?_eraseIdx_of_lt lt, below j lt]
      dsimp only
      split
      · exact loop_removals count history i scan below
      split
      · exact ⟨rfl, rfl⟩
      rw [List.foldl_cons, List.foldl_cons, ← remove_history, ← remove_covered_eq scan i message]
      split
      · have found : (scan.remove i message).removedUserCount = scan.removedUserCount := rfl
        rw [found]
        split
        · exact ⟨rfl, rfl⟩
        · exact loop_removals count history i
            { scan.remove i message with removedUserCount := scan.removedUserCount + 1 } erased
      · exact loop_removals count history i (scan.remove i message) erased

end UndoScan

namespace ContextMemory

variable (memory : ContextMemory) (call : ContextCall)

/-- The indices that an undo hands to `onContextMessageRemoved`. -/
def removals (count : ℤ) : List ℕ :=
  if count ≤ 0 then [] else UndoScan.removals count memory.history memory.history.length 0

theorem undo_removals (count : ℤ) :
    (memory.undo call count).1.history =
      (memory.removals count).foldl List.eraseIdx memory.history ∧
    (memory.undo call count).1.tokenCountCoveredMessageCount =
      (memory.removals count).foldl Positions.shrunk memory.tokenCountCoveredMessageCount := by
  unfold undo removals
  split
  · exact ⟨rfl, rfl⟩
  split
  case isTrue empty =>
    rw [empty]
    exact ⟨rfl, rfl⟩
  case isFalse =>
    have done := UndoScan.loop_removals count memory.history memory.history.length
      { memory := memory.logRecord call (.undo count) } fun j _ => by
        rw [logRecord_history]
    rw [logRecord_history, (memory.appends_logRecord call _).covered] at done
    dsimp only
    rw [logRecord_history]
    split <;> exact done

/-! ## What an operation leaves -/

/-- Whether the message that is popped is one of the history. -/
def popsHistory (matcher : Option PromptOrigin → Option String → Bool) : Bool :=
  memory.deferredMessages.isEmpty &&
    memory.history.getLast?.any fun last => matcher last.origin last.variant

end ContextMemory

/-- What an operation leaves of a list that runs beside the history. -/
def ContextMemory.survivors {α : Type*} (memory : ContextMemory) : ContextOp → List α → List α
  | .undo _ count, messages => (memory.removals count).foldl List.eraseIdx messages
  | .clear _, _ => []
  | .applyCompaction _ _ compactedCount _ _, messages => messages.drop compactedCount
  | .popMatchedMessage matcher, messages =>
    if memory.popsHistory matcher then messages.dropLast else messages
  | _, messages => messages

/-- How many messages an operation puts in front of what it leaves. -/
def ContextOp.summaries : ContextOp → ℕ
  | .applyCompaction .. => 1
  | _ => 0

namespace ContextMemory

variable (memory : ContextMemory) (call : ContextCall)

theorem popMatchedMessage_history (matcher : Option PromptOrigin → Option String → Bool) :
    (memory.popMatchedMessage matcher).1.history =
      if memory.popsHistory matcher then memory.history.dropLast else memory.history := by
  unfold popMatchedMessage popsHistory
  cases waiting : memory.deferredMessages.getLast? with
  | some =>
    have some : memory.deferredMessages.isEmpty = false := by
      cases deferred : memory.deferredMessages with
      | nil => rw [deferred] at waiting; cases waiting
      | cons => rfl
    rw [some]
    dsimp only
    split <;> rfl
  | none =>
    have none : memory.deferredMessages.isEmpty = true := by
      rw [List.getLast?_eq_none_iff.1 waiting]
      rfl
    rw [none]
    cases memory.history.getLast? with
    | none => rfl
    | some =>
      dsimp only
      rw [Option.any_some, Bool.true_and]
      split <;> rfl

theorem summarized_history (result : CompactionResult) :
    (memory.summarized call result).history =
      summaryMessage result.summary :: memory.history.drop result.compactedCount := by
  rw [summarized]
  rw [logRecord_history]

theorem grows_perform (op : ContextOp) :
    op.summaries ≤ (memory.perform op).history.length ∧
      GrowsTo (memory.survivors op memory.history)
        ((memory.perform op).history.drop op.summaries) := by
  cases op with
  | appendMessage call =>
    exact ⟨Nat.zero_le _, (memory.appends_appendMessage call _).history⟩
  | appendLoopEvent call event =>
    refine ⟨Nat.zero_le _, ?_⟩
    by_cases ends : ∃ uuid usage, event = .stepEnd uuid usage
    · obtain ⟨uuid, usage, rfl⟩ := ends
      have logged := memory.appends_logRecord call (.appendLoopEvent (.stepEnd uuid usage))
      refine logged.history.trans ?_
      cases usage with
      | none => exact (appends_appendStepEnd _ call uuid).history
      | some usage => exact (grows_counted _ uuid usage).trans (appends_flush _ call).history
    · exact (memory.appends_appendLoopEvent call event fun uuid usage same =>
        ends ⟨uuid, usage, same⟩).history
  | undo call count =>
    refine ⟨Nat.zero_le _, ?_⟩
    have left : (memory.undo call count).1.history =
      memory.survivors (.undo call count) memory.history := (memory.undo_removals call count).1
    rw [← left]
    exact .refl _
  | clear => exact ⟨Nat.zero_le _, .refl _⟩
  | applyCompaction call summary compactedCount tokensBefore tokensAfter =>
    have flushed := (appends_flush (memory.summarized call
      { summary, compactedCount, tokensBefore, tokensAfter }) call).history
    rw [summarized_history] at flushed
    have grown : GrowsTo (summaryMessage summary :: memory.history.drop compactedCount)
        (memory.perform (.applyCompaction call summary compactedCount tokensBefore
          tokensAfter)).history := flushed
    refine ⟨(Nat.succ_le_succ (Nat.zero_le _)).trans grown.length_le, fun i message here => ?_⟩
    rw [List.getElem?_drop, Nat.add_comm]
    exact grown (i + 1) message here
  | popMatchedMessage matcher =>
    refine ⟨Nat.zero_le _, ?_⟩
    have left : (memory.popMatchedMessage matcher).1.history =
      memory.survivors (.popMatchedMessage matcher) memory.history :=
      memory.popMatchedMessage_history matcher
    rw [← left]
    exact .refl _
  | tokenCountWithPending => exact ⟨Nat.zero_le _, (memory.appends_estimateRange _ _).history⟩
  | estimateTokensForMessages start stop =>
    exact ⟨Nat.zero_le _, (memory.appends_estimateRange start stop).history⟩

theorem survivors_map {α β : Type*} (f : α → β) (op : ContextOp) (messages : List α) :
    (memory.survivors op messages).map f = memory.survivors op (messages.map f) := by
  unfold survivors
  split
  · exact Positions.map_foldl_eraseIdx f _ _
  · rfl
  · exact List.map_drop ..
  · split
    · exact List.map_dropLast ..
    · rfl
  · rfl

theorem survivors_sublist {α : Type*} (op : ContextOp) (messages : List α) :
    (memory.survivors op messages).Sublist messages := by
  unfold survivors
  split
  · exact Positions.foldl_eraseIdx_sublist _ _
  · exact List.nil_sublist _
  · exact List.drop_sublist _ _
  · split
    · exact List.dropLast_sublist _
    · exact .refl _
  · exact .refl _

theorem length_survivors {α β : Type*} (op : ContextOp) {messages : List α} {others : List β}
    (same : messages.length = others.length) :
    (memory.survivors op messages).length = (memory.survivors op others).length := by
  have unmarked : messages.map (fun _ => ()) = others.map fun _ => () := by
    rw [List.map_const', List.map_const', same]
  calc (memory.survivors op messages).length
      = (memory.survivors op (messages.map fun _ => ())).length := by
        rw [← survivors_map, List.length_map]
    _ = (memory.survivors op others).length := by
        rw [unmarked, ← survivors_map, List.length_map]

end ContextMemory

/-! ## Numbered objects -/

/-- A context with a number for each object in its history. -/
structure TrackedContext where
  memory : ContextMemory := {}
  ids : List ℕ := []
  created : ℕ := 0

namespace TrackedContext

def perform (context : TrackedContext) (op : ContextOp) : TrackedContext :=
  let memory := context.memory.perform op
  let kept := context.memory.survivors op context.ids
  let added := memory.history.length - op.summaries - kept.length
  { memory
    ids := List.range' context.created op.summaries ++ kept ++
      List.range' (context.created + op.summaries) added
    created := context.created + op.summaries + added }

def next (context : TrackedContext) (op : ContextOp) : Option TrackedContext :=
  some (context.perform op)

/-- Every object in the history has one number, and no two have the same. -/
structure Numbered (context : TrackedContext) : Prop where
  length : context.ids.length = context.memory.history.length
  nodup : context.ids.Nodup
  created : ∀ id ∈ context.ids, id < context.created

variable {context : TrackedContext}

@[simp] theorem perform_memory (op : ContextOp) :
    (context.perform op).memory = context.memory.perform op := rfl

theorem perform_ids (op : ContextOp) : (context.perform op).ids =
    List.range' context.created op.summaries ++ context.memory.survivors op context.ids ++
      List.range' (context.created + op.summaries) ((context.memory.perform op).history.length -
        op.summaries - (context.memory.survivors op context.ids).length) := rfl

theorem numbered_empty : Numbered {} := ⟨rfl, List.nodup_nil, fun _ mem => nomatch mem⟩

theorem Numbered.perform (numbered : context.Numbered) (op : ContextOp) :
    (context.perform op).Numbered := by
  obtain ⟨front, grows⟩ := context.memory.grows_perform op
  have le := grows.length_le
  rw [List.length_drop, ← context.memory.length_survivors op numbered.length] at le
  have kept : (context.memory.survivors op context.ids).Sublist context.ids :=
    context.memory.survivors_sublist op _
  refine ⟨?_, ?_, fun id mem => ?_⟩
  · rw [perform_ids, perform_memory, List.length_append, List.length_append, List.length_range',
      List.length_range']
    omega
  · refine List.nodup_append'.2 ⟨List.nodup_append'.2 ⟨List.nodup_range', numbered.nodup.sublist
      kept, fun id new old => ?_⟩, List.nodup_range', fun id old new => ?_⟩
    · have lt := numbered.created id (kept.subset old)
      have le := (List.mem_range'_1.1 new).1
      omega
    · have le := (List.mem_range'_1.1 new).1
      rcases List.mem_append.1 old with first | old
      · have lt := (List.mem_range'_1.1 first).2
        omega
      · have lt := numbered.created id (kept.subset old)
        omega
  · rcases List.mem_append.1 mem with mem | new
    · rcases List.mem_append.1 mem with first | old
      · have lt := (List.mem_range'_1.1 first).2
        exact lt.trans_le (Nat.le_add_right _ _)
      · have lt := numbered.created id (kept.subset old)
        exact lt.trans_le ((Nat.le_add_right _ _).trans (Nat.le_add_right _ _))
    · exact (List.mem_range'_1.1 new).2

theorem Numbered.origin (numbered : context.Numbered) (op : ContextOp) {j id : ℕ}
    {message : ContextMessage} (number : (context.perform op).ids[j]? = some id)
    (here : (context.perform op).memory.history[j]? = some message) :
    context.created ≤ id ∨ ∃ (i : ℕ) (before : ContextMessage), context.ids[i]? = some id ∧
      context.memory.history[i]? = some before ∧ SameObject before message := by
  obtain ⟨front, grows⟩ := context.memory.grows_perform op
  rw [perform_ids, List.append_assoc] at number
  rcases Nat.lt_or_ge j op.summaries with lt | le
  · rw [List.getElem?_append_left (by rwa [List.length_range'])] at number
    exact .inl (List.mem_range'_1.1 (List.mem_of_getElem? number)).1
  · rw [List.getElem?_append_right (by rwa [List.length_range']), List.length_range'] at number
    rcases Nat.lt_or_ge (j - op.summaries) (context.memory.survivors op context.ids).length
      with lt | past
    · rw [List.getElem?_append_left lt] at number
      -- the survivors of both lists are those of the pairs
      have pairs : (context.memory.survivors op
          (context.memory.history.zip context.ids)).map Prod.snd =
          context.memory.survivors op context.ids := by
        rw [ContextMemory.survivors_map, List.map_snd_zip numbered.length.le]
      have pairs' : (context.memory.survivors op
          (context.memory.history.zip context.ids)).map Prod.fst =
          context.memory.survivors op context.memory.history := by
        rw [ContextMemory.survivors_map, List.map_fst_zip numbered.length.ge]
      rw [← pairs, List.getElem?_map] at number
      obtain ⟨⟨before, _⟩, pair, rfl⟩ := Option.map_eq_some_iff.1 number
      obtain ⟨after, there, same⟩ := grows (j - op.summaries) before (by
        rw [← pairs', List.getElem?_map, pair]
        rfl)
      rw [List.getElem?_drop, Nat.add_sub_cancel' le] at there
      cases there.symm.trans here
      obtain ⟨i, old⟩ := List.mem_iff_getElem?.1
        ((context.memory.survivors_sublist op _).subset (List.mem_of_getElem? pair))
      obtain ⟨there, numbered⟩ := List.getElem?_zip_eq_some.1 old
      exact .inr ⟨i, before, numbered, there, same⟩
    · rw [List.getElem?_append_right past] at number
      have new := (List.mem_range'_1.1 (List.mem_of_getElem? number)).1
      exact .inl (by omega)

theorem run_numbered {ops : List ContextOp}
    (run : Transition.Run next Transition.Always {} ops context) : context.Numbered := by
  refine run.invariant _ numbered_empty ?_
  intro context op after numbered _ step
  cases step
  exact numbered.perform op

end TrackedContext

end KimiCli
