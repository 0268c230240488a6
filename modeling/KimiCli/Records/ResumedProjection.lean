import KimiCli.Context.Projector
import KimiCli.Records.LiveReplay

/-!
# Projections after any run

`project` throws on a tool result that has nothing to be sent.  Only a tool that answers with empty
texts alone makes one: the results that the context makes up itself can all be sent, and no undo,
compaction or resume takes the text from a message.
-/

namespace KimiCli

/-- The result is not made of empty texts alone. -/
def ToolResult.Speaks (result : ToolResult) : Prop :=
  result.isError ≠ some true → ∀ parts, result.output = .inr parts → parts ≠ [] →
    ∃ part ∈ parts, part ≠ .text ""

namespace ContextMemory

variable {memory : ContextMemory}

theorem toolResultOutputForModel_text (output : String) (failed : Option Bool) :
    ∃ text, toolResultOutputForModel { output := .inl output, isError := failed } = .inl text ∧
      text ≠ "" := by
  unfold toolResultOutputForModel
  dsimp only
  split <;> [split <;> [skip; split]; split]
  · exact ⟨_, rfl, by decide⟩
  case isTrue.isFalse.isTrue filled _ => exact ⟨output, rfl, mt String.isEmpty_iff.2 filled⟩
  · exact ⟨_, rfl, by simp [toolErrorStatus]⟩
  · exact ⟨_, rfl, by decide⟩
  case isFalse.isFalse filled => exact ⟨output, rfl, fun blank => filled (.inl (blank ▸ rfl))⟩

theorem toolMessage_taken {result : ToolResult} (speaks : result.Speaks) (toolCallId : String) :
    ¬(toolMessage toolCallId result).IsRejected := by
  rintro ⟨-, -, empty⟩
  obtain ⟨output | parts, failed⟩ := result
  · obtain ⟨text, out, filled⟩ := toolResultOutputForModel_text output failed
    rw [toolMessage, out] at empty
    exact filled (ContentPart.text.inj (empty (.text text) List.mem_cons_self))
  · rw [toolMessage, toolResultOutputForModel] at empty
    dsimp only at empty
    split at empty
    · have status := ContentPart.text.inj (empty _ List.mem_cons_self)
      split at status <;> exact absurd status (by decide)
    case isFalse filled =>
      split at empty
      · have status := ContentPart.text.inj (empty _ List.mem_cons_self)
        exact absurd status (by decide)
      case isFalse fine =>
        obtain ⟨part, mem, ne⟩ := speaks fine parts rfl filled
        exact ne (empty part mem)

theorem interrupted_speaks : interrupted.Speaks :=
  fun fine => absurd rfl fine

/-- Nothing in the memory makes a projection throw. -/
abbrev Sendable (memory : ContextMemory) : Prop := memory.Each fun message => ¬message.IsRejected

theorem sendable_of_empty (history : memory.history = [])
    (deferred : memory.deferredMessages = []) : memory.Sendable where
  history _ mem := absurd (history ▸ mem) List.not_mem_nil
  deferred _ mem := absurd (deferred ▸ mem) List.not_mem_nil

theorem sendable_appendToolResult (sendable : memory.Sendable) (call : ContextCall)
    (toolCallId : String) {result : ToolResult} (speaks : result.Speaks) :
    (memory.appendToolResult call toolCallId result).Sendable := by
  have logged := sendable.logRecord call (.appendLoopEvent (.toolResult toolCallId result))
  unfold ContextMemory.appendToolResult
  dsimp only
  split
  · exact logged
  · have pushed := logged.pushHistory call (List.forall_mem_singleton.2
      (toolMessage_taken speaks toolCallId))
    refine Each.flush ?_ call
    exact ⟨pushed.history, pushed.deferred⟩

theorem sendable_interrupt (sendable : memory.Sendable) (call : ContextCall) (ids : List String) :
    (interrupt call memory ids).Sendable :=
  List.foldlRecOn ids _ sendable fun _ before toolCallId _ =>
    sendable_appendToolResult before call toolCallId interrupted_speaks

theorem sendable_estimateRange (sendable : memory.Sendable) (start stop : ℕ) :
    (memory.estimateRange start stop).2.Sendable where
  history message mem := by
    obtain ⟨i, lt, rfl⟩ := List.mem_mapIdx.1 mem
    have old := sendable.history _ (List.getElem_mem lt)
    split <;> exact old
  deferred := sendable.deferred

theorem sendable_appendLoopEvent (sendable : memory.Sendable) (call : ContextCall)
    {event : LoopRecordedEvent}
    (speaks : ∀ toolCallId result, event = .toolResult toolCallId result → result.Speaks) :
    (memory.appendLoopEvent call event).1.Sendable := by
  have logged := sendable.logRecord call (.appendLoopEvent event)
  unfold ContextMemory.appendLoopEvent
  cases event with
  | stepBegin uuid =>
    have closed := sendable_interrupt logged call
      (memory.logRecord call (.appendLoopEvent (.stepBegin uuid))).pendingToolResultIds
    exact ⟨(closed.pushHistory call (List.forall_mem_singleton.2 fun rejected =>
      Role.noConfusion rejected.2.1)).history, closed.deferred⟩
  | stepEnd uuid usage =>
    cases usage with
    | none =>
      refine Each.flush ?_ call
      exact ⟨logged.history, logged.deferred⟩
    | some usage =>
      refine Each.flush (show Sendable (counted _ uuid usage) from ?_) call
      unfold counted
      dsimp only
      split
      · exact ⟨logged.history, logged.deferred⟩
      · exact ⟨(sendable_estimateRange logged _ _).history, logged.deferred⟩
  | contentPart stepUuid part =>
    dsimp only
    split
    · exact logged
    · refine logged.updateStep fun message mem _ rejected => logged.history message mem ?_
      exact ⟨rejected.1, rejected.2.1, fun part mem =>
        rejected.2.2 part (List.mem_append_left _ mem)⟩
  | toolCall =>
    dsimp only
    split
    · exact logged
    · refine ⟨(logged.updateStep fun message mem _ => ?_).history, logged.deferred⟩
      exact logged.history message mem
  | toolResult toolCallId result =>
    exact sendable_appendToolResult sendable call toolCallId (speaks toolCallId result rfl)

/-- What is appended has something to be sent. -/
def Speaks : ResumableOp → Prop
  | .live (.appendMessage _ message) => ¬message.IsRejected
  | .live (.appendLoopEvent _ (.toolResult _ result)) => result.Speaks
  | _ => True

theorem sendable_perform (sendable : memory.Sendable) {op : ContextOp}
    (speaks : Speaks (.live op)) : (memory.perform op).Sendable := by
  cases op with
  | appendMessage => exact sendable.appendMessage speaks
  | appendLoopEvent call =>
    refine sendable_appendLoopEvent sendable call fun toolCallId result same => ?_
    subst same
    exact speaks
  | undo call count => exact Each.undo sendable count
  | clear => exact sendable_of_empty rfl rfl
  | applyCompaction call summary compactedCount tokensBefore tokensAfter =>
    have replaced : (memory.summarized call
        { summary, compactedCount, tokensBefore, tokensAfter }).Sendable := by
      refine ⟨?_, (sendable.logRecord call _).deferred⟩
      rw [summarized_history]
      refine List.forall_mem_cons.2 ⟨fun rejected => ?_, fun message mem =>
        sendable.history message (List.mem_of_mem_drop mem)⟩
      cases rejected.2.1
    have flushed := replaced.flush call
    exact ⟨flushed.history, flushed.deferred⟩
  | popMatchedMessage matcher => exact Each.popMatchedMessage sendable matcher
  | tokenCountWithPending => exact sendable_estimateRange sendable _ _
  | estimateTokensForMessages start stop => exact sendable_estimateRange sendable start stop

/-- After every run, with resumes in it, the history can be projected. -/
theorem project_of_run {ops : List ResumableOp}
    (run : Transition.Run advance (fun memory op => Allowed memory op ∧ Speaks op) {} ops memory) :
    ∃ out, project memory.history = .ok out := by
  have kept := run.invariant (fun memory => memory.Replayable ∧ memory.Sendable)
    ⟨⟨{}, rfl, rfl, rfl, rfl, rfl, fun _ _ found => found⟩, sendable_of_empty rfl rfl⟩ ?_
  · exact project_ok_iff.2 kept.2.history
  rintro memory op after ⟨replayable, sendable⟩ ⟨allowed, speaks⟩ next
  cases op with
  | live =>
    cases next
    exact ⟨replayable.restores (restores_perform allowed), sendable_perform sendable speaks⟩
  | resume time =>
    refine ⟨replayable.resume next, ?_⟩
    obtain ⟨restored, replayed, same⟩ := replayable
    cases (resume_eq replayed time).symm.trans next
    refine sendable_interrupt ⟨fun message mem => ?_, same.deferred ▸ sendable.deferred⟩ _ _
    obtain ⟨old, inside, bare⟩ := List.mem_map.1 (same.history ▸ List.mem_map_of_mem mem)
    have kept := sendable.history old inside
    change ¬old.bare.IsRejected at kept
    rwa [bare] at kept

theorem project_of_run_interruptedCall : ∃ memory,
    Transition.Run advance (fun memory op => Allowed memory op ∧ Speaks op) {} interruptedCall
      memory ∧ ∃ out, project memory.history = .ok out := by
  obtain ⟨memory, run⟩ : ∃ memory, Transition.Run advance
      (fun memory op => Allowed memory op ∧ Speaks op) {} interruptedCall memory :=
    ⟨_, .cons ⟨⟨rfl, rfl⟩, trivial⟩ rfl <| .cons ⟨⟨rfl, rfl⟩, trivial⟩ rfl <|
      .cons ⟨rfl, fun rejected => Role.noConfusion rejected.2.1⟩ rfl <|
      .cons ⟨trivial, trivial⟩ rfl <| .cons ⟨⟨rfl, rfl⟩, trivial⟩ rfl .nil⟩
  exact ⟨memory, run, project_of_run run⟩

end ContextMemory

end KimiCli
