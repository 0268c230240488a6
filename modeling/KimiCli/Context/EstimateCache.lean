import KimiCli.Context.Machine

/-!
# The cached estimates

`estimateTokensForMessage` keeps the estimate of a message object for as long as the object lives,
and `content.part` and `tool.call` push into the object of the open step.  So an estimate is that of
the message as it is as long as nothing that has tokens is pushed into a message that has been
estimated; the first such push makes it stale for good.
-/

namespace KimiCli

/-- The estimate of a message as it is now. -/
def computedEstimate (message : ContextMessage) : ℕ :=
  estimateTokensForMessage { message with estimate := none }

def HasCurrentEstimate (message : ContextMessage) : Prop :=
  estimateTokensForMessage message = computedEstimate message

/-- The tokens of what an operation pushes into a message. -/
def ContextOp.pushedTokens : ContextOp → ℕ
  | .appendLoopEvent _ (.contentPart _ part) => estimateTokensForContentPart part
  | .appendLoopEvent _ (.toolCall _ _ name args) =>
    estimateTokens name +
      estimateTokens ((args.map Json.stringify).elim Json.null Json.string).stringify
  | _ => 0

/-- What has tokens is pushed only into a message whose estimate has not been taken. -/
def ContextMemory.PushesInTime (memory : ContextMemory) (op : ContextOp) : Prop :=
  ∀ step change, memory.push op = some (step, change) →
    ∀ message ∈ memory.history, message.step = some step →
      message.estimate = none ∨ op.pushedTokens = 0

variable {message : ContextMessage} {memory : ContextMemory}

theorem computedEstimate_eq (message : ContextMessage) : computedEstimate message =
    estimateTokens message.role.text + (message.content.map estimateTokensForContentPart).sum +
      (message.toolCalls.map fun call => estimateTokens call.name +
        estimateTokens (call.arguments.elim Json.null Json.string).stringify).sum := rfl

theorem hasCurrentEstimate_iff :
    HasCurrentEstimate message ↔ ∀ n ∈ message.estimate, n = computedEstimate message := by
  unfold HasCurrentEstimate
  cases known : message.estimate with
  | none =>
    refine ⟨fun _ _ absent => (nomatch absent), fun _ => ?_⟩
    rw [estimateTokensForMessage, known]
    rfl
  | some n =>
    have cached : estimateTokensForMessage message = n := by
      rw [estimateTokensForMessage, known]
      rfl
    rw [cached]
    exact ⟨fun current _ same => Option.some.inj same ▸ current, fun all => all n rfl⟩

theorem hasCurrentEstimate_of_none (absent : message.estimate = none) :
    HasCurrentEstimate message := by
  rw [hasCurrentEstimate_iff, absent]
  exact fun _ absent => nomatch absent

theorem estimateFree_hasCurrentEstimate : EstimateFree HasCurrentEstimate where
  made _ absent _ := hasCurrentEstimate_of_none absent
  estimated message current := by
    rw [hasCurrentEstimate_iff]
    rintro _ ⟨⟩
    exact current

namespace ContextMemory

variable {op : ContextOp}

theorem computedEstimate_push {step : ℕ} {change : ContextMessage → ContextMessage}
    (found : memory.push op = some (step, change)) (message : ContextMessage) :
    computedEstimate (change message) = computedEstimate message + op.pushedTokens ∧
      (change message).estimate = message.estimate := by
  unfold push at found
  split at found
  case h_3 => cases found
  all_goals
    obtain ⟨_, -, same⟩ := Option.map_eq_some_iff.1 found
    obtain ⟨-, rfl⟩ := Prod.mk.inj same
    refine ⟨?_, rfl⟩
    rw [computedEstimate_eq, computedEstimate_eq, ContextOp.pushedTokens, List.map_append,
      List.sum_append, List.map_singleton, List.sum_singleton]
    ring

theorem mem_perform_of_push {step : ℕ} {change : ContextMessage → ContextMessage}
    (found : memory.push op = some (step, change)) (mem : message ∈ memory.history)
    (here : message.step = some step) : change message ∈ (memory.perform op).history := by
  have updated (change' : ContextMessage → ContextMessage) (call : ContextCall)
      (record : ContextRecord) :
      change' message ∈ ((memory.logRecord call record).updateStep step change').history := by
    refine List.mem_map.2 ⟨message, ?_, if_pos here⟩
    rwa [logRecord_history]
  have openSteps (call : ContextCall) (record : ContextRecord) :
      (memory.logRecord call record).openSteps = memory.openSteps := by
    unfold logRecord
    split <;> rfl
  unfold push at found
  split at found
  · obtain ⟨other, known, same⟩ := Option.map_eq_some_iff.1 found
    obtain ⟨rfl, rfl⟩ := Prod.mk.inj same
    rw [perform, appendLoopEvent]
    rw [openSteps, known]
    exact updated _ _ _
  · obtain ⟨other, known, same⟩ := Option.map_eq_some_iff.1 found
    obtain ⟨rfl, rfl⟩ := Prod.mk.inj same
    rw [perform, appendLoopEvent]
    rw [openSteps, known]
    exact updated _ _ _
  · cases found

theorem Each.perform_current (each : memory.Each HasCurrentEstimate)
    (inTime : memory.PushesInTime op) : (memory.perform op).Each HasCurrentEstimate := by
  refine each.perform estimateFree_hasCurrentEstimate.ownMessages op
    (fun _ message _ => hasCurrentEstimate_of_none message.notEstimated)
    fun step change found message mem here => ?_
  obtain ⟨computed, cached⟩ := computedEstimate_push found message
  rw [hasCurrentEstimate_iff, cached, computed]
  rcases inTime step change found message mem here with absent | nothing
  · rw [absent]
    exact fun _ absent => nomatch absent
  · rw [nothing]
    exact hasCurrentEstimate_iff.1 (each.history message mem)

theorem pushesInTime_of_current (each : memory.Each HasCurrentEstimate)
    (current : ∀ message ∈ (memory.perform op).history, HasCurrentEstimate message) :
    memory.PushesInTime op := by
  intro step change found message mem here
  obtain ⟨computed, cached⟩ := computedEstimate_push found message
  have after := hasCurrentEstimate_iff.1 (current _ (mem_perform_of_push found mem here))
  rw [cached, computed] at after
  cases known : message.estimate with
  | none => exact .inl rfl
  | some n =>
    have before := hasCurrentEstimate_iff.1 (each.history message mem) n known
    have now := after n known
    exact .inr (by omega)

theorem run_current {ops : List ContextOp}
    (run : Transition.Run next PushesInTime {} ops memory) : memory.Each HasCurrentEstimate := by
  refine run.invariant _ ⟨fun _ mem => (nomatch mem), fun _ mem => nomatch mem⟩ ?_
  intro memory op after each inTime step
  cases step
  exact each.perform_current inTime

/-- As long as every push comes in time, the estimate of every message is that of the message as it
is; and the first push that does not makes one stale. -/
theorem estimates_current_iff (ops : List ContextOp) (memory : ContextMemory)
    (run : Transition.Run next PushesInTime {} ops memory) :
    (∀ message ∈ memory.history,
      estimateTokensForMessage message = computedEstimate message) ∧
    ∀ op, (∀ message ∈ (memory.perform op).history,
      estimateTokensForMessage message = computedEstimate message) ↔ memory.PushesInTime op :=
  have current := run_current run
  ⟨current.history, fun _ =>
    ⟨pushesInTime_of_current current, fun inTime => (current.perform_current inTime).history⟩⟩

/-- A step whose estimate is taken after its text. -/
def estimatedStep : List ContextOp :=
  [.appendLoopEvent {} (.stepBegin "step"),
    .appendLoopEvent {} (.contentPart "step" (.text "Hello")), .tokenCountWithPending]

theorem estimates_current_estimatedStep :
    ∃ memory, Transition.Run next PushesInTime {} estimatedStep memory ∧
      ∀ message ∈ memory.history,
        estimateTokensForMessage message = computedEstimate message := by
  obtain ⟨memory, run⟩ : ∃ memory, Transition.Run next PushesInTime {} estimatedStep memory := by
    refine ⟨_, .cons (fun _ _ => nofun) rfl (.cons ?_ rfl (.cons (fun _ _ => nofun) rfl .nil))⟩
    intro _ _ _ message mem _
    obtain rfl := List.mem_singleton.1 mem
    exact .inl rfl
  exact ⟨memory, run, (estimates_current_iff _ _ run).1⟩

/-- The estimate is taken while the step is open, as a compaction does that is asked for then. -/
theorem estimate_of_openStep_stale : ¬∀ (ops : List ContextOp) (memory : ContextMemory),
    Transition.Run next Transition.Always {} ops memory →
      ∀ message ∈ memory.history,
        estimateTokensForMessage message = computedEstimate message := by
  intro all
  have stale := all
    [.appendLoopEvent {} (.stepBegin "step"), .estimateTokensForMessages 0 1,
      .appendLoopEvent {} (.contentPart "step" (.text "Hello"))] _
    (.cons trivial rfl (.cons trivial rfl (.cons trivial rfl .nil)))
    _ (List.mem_singleton.2 rfl)
  exact absurd stale (by decide)

end ContextMemory

end KimiCli
