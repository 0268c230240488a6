import KimiCli.Context.EstimateCache
import Mathlib.Data.Rat.Floor

/-!
# Micro compaction

Tool results before a cutoff are sent to the model as a marker.  `compact` replaces them in what is
sent, `measureEffect` counts what that saves, each with a loop of its own.  Numbers of the
configuration are rational.
-/

namespace KimiCli

structure MicroCompactionConfig where
  keepRecentMessages : ℚ := 20
  minContentTokens : ℚ := 100
  cacheMissedThresholdMs : ℚ := 60 * 60 * 1000
  truncatedMarker : String := "[Old tool result content cleared]"
  minContextUsageRatio : ℚ := 1 / 2

structure MicroCompaction where
  cutoff : ℚ := 0
  config : MicroCompactionConfig := {}

def estimateTokensForContentParts (parts : List ContentPart) : ℕ :=
  (parts.map estimateTokensForContentPart).sum

namespace MicroCompaction

variable (micro : MicroCompaction)

def reset (maxCutoff : ℚ) : MicroCompaction := { micro with cutoff := min micro.cutoff maxCutoff }

/-- A new object with the marker as its content. -/
def truncated (message : ContextMessage) : ContextMessage :=
  { message with
    content := [.text micro.config.truncatedMarker]
    step := none
    estimate := none }

/-- The loop of `compact` from message number `i`. -/
def compactFrom (i : ℕ) : List ContextMessage → List ContextMessage
  | [] => []
  | message :: messages =>
    if i < micro.cutoff ∧ message.role = .tool ∧ message.toolCallId ≠ none ∧
        estimateTokensForContentParts message.content ≥ micro.config.minContentTokens then
      micro.truncated message :: compactFrom (i + 1) messages
    else message :: compactFrom (i + 1) messages

/-- `enabled` is the experimental flag `micro_compaction`. -/
def compact (enabled : Bool) (messages : List ContextMessage) : List ContextMessage :=
  if enabled then micro.compactFrom 0 messages else messages

structure Effect where
  truncatedToolResultCount : ℕ
  truncatedToolResultTokensBefore : ℕ
  truncatedToolResultTokensAfter : ℕ

/-- The loop of `measureEffect` from message number `i`, where `markerTokenCount` is computed when
it is first needed. -/
def measureFrom (config : MicroCompactionConfig) (cutoff : ℚ) (i : ℕ)
    (markerTokenCount : Option ℕ) (effect : Effect) : List ContextMessage → Effect
  | [] => effect
  | message :: messages =>
    if ¬ i < cutoff then effect
    else if message.role ≠ .tool ∨ message.toolCallId = none then
      measureFrom config cutoff (i + 1) markerTokenCount effect messages
    else
      let contentTokens := estimateTokensForContentParts message.content
      if contentTokens < config.minContentTokens then
        measureFrom config cutoff (i + 1) markerTokenCount effect messages
      else
        let marker := markerTokenCount.getD
          (estimateTokensForContentParts [.text config.truncatedMarker])
        let counted := {
          truncatedToolResultCount := effect.truncatedToolResultCount + 1
          truncatedToolResultTokensBefore := effect.truncatedToolResultTokensBefore + contentTokens
          truncatedToolResultTokensAfter := effect.truncatedToolResultTokensAfter + marker }
        measureFrom config cutoff (i + 1) (some marker) counted messages

def measureEffect (messages : List ContextMessage) (cutoff : ℚ) : Effect :=
  measureFrom micro.config cutoff 0 none ⟨0, 0, 0⟩ messages

/-! ## Detection -/

/-- What `detect` reads of the agent. -/
structure DetectInput where
  enabled : Bool
  now : ℤ
  history : List ContextMessage
  lastAssistantAt : Option ℤ
  tokenCountWithPending : ℤ
  maxContextTokens : Option ℕ

/-- The event `micro_compaction_finished`, without the configuration and the thinking level. -/
structure MicroCompactionFinished extends Effect where
  tokensBefore : ℤ
  tokensAfter : ℤ
  previousCutoff : ℚ
  cutoff : ℚ
  messageCount : ℕ
  cacheAgeMs : ℤ

def contextUsageRatio (input : DetectInput) : ℚ :=
  match input.maxContextTokens with
  | some max => if max > 0 then input.tokenCountWithPending / max else 1
  | none => 1

/-- The length of the context under a cutoff, from the effect of that cutoff. -/
def accounted (history : List ContextMessage) (effect : Effect) : ℤ :=
  estimateTokensForMessages history - effect.truncatedToolResultTokensBefore +
    effect.truncatedToolResultTokensAfter

/-- The state afterwards, the cutoff that is recorded and the event that is tracked. -/
def detect (input : DetectInput) :
    MicroCompaction × Option ℚ × Option MicroCompactionFinished :=
  if ¬ input.enabled then (micro, none, none)
  else
    match input.lastAssistantAt with
    | none => (micro, none, none)
    | some lastAssistantAt =>
      let cacheAgeMs := input.now - lastAssistantAt
      if cacheAgeMs < micro.config.cacheMissedThresholdMs then (micro, none, none)
      else if contextUsageRatio input < micro.config.minContextUsageRatio then (micro, none, none)
      else
        let nextCutoff := max 0 (input.history.length - micro.config.keepRecentMessages)
        let effect := micro.measureEffect input.history nextCutoff
        let previousEffect := micro.measureEffect input.history micro.cutoff
        ({ micro with cutoff := nextCutoff }, some nextCutoff,
          if micro.cutoff = nextCutoff then none
          else some {
            effect with
            tokensBefore := accounted input.history previousEffect
            tokensAfter := accounted input.history effect
            previousCutoff := micro.cutoff
            cutoff := nextCutoff
            messageCount := input.history.length
            cacheAgeMs })

/-! ## The two loops -/

variable {micro} {message : ContextMessage} {messages : List ContextMessage} {i : ℕ}

theorem compactFrom_of_le (late : micro.cutoff ≤ i) : micro.compactFrom i messages = messages := by
  induction messages generalizing i with
  | nil => rfl
  | cons message messages ih =>
    have next : micro.cutoff ≤ (i + 1 : ℕ) := late.trans (Nat.cast_le.2 (Nat.le_succ i))
    rw [compactFrom, if_neg fun inside => absurd inside.1 (not_lt.2 late), ih next]

theorem estimate_truncated (current : HasCurrentEstimate message) :
    estimateTokensForMessage (micro.truncated message) +
        estimateTokensForContentParts message.content =
      estimateTokensForMessage message +
        estimateTokensForContentParts [.text micro.config.truncatedMarker] := by
  have fresh : estimateTokensForMessage (micro.truncated message) =
      computedEstimate (micro.truncated message) := rfl
  rw [fresh, current, computedEstimate_eq, computedEstimate_eq, estimateTokensForContentParts,
    estimateTokensForContentParts]
  simp only [truncated]
  omega

theorem compactFrom_accounting {markerTokenCount : Option ℕ} {effect : Effect}
    (current : ∀ message ∈ messages, message.role = .tool → HasCurrentEstimate message)
    (marker : ∀ n ∈ markerTokenCount,
      n = estimateTokensForContentParts [.text micro.config.truncatedMarker]) :
    estimateTokensForMessages (micro.compactFrom i messages) +
        (measureFrom micro.config micro.cutoff i markerTokenCount effect
          messages).truncatedToolResultTokensBefore + effect.truncatedToolResultTokensAfter =
      estimateTokensForMessages messages +
        (measureFrom micro.config micro.cutoff i markerTokenCount effect
          messages).truncatedToolResultTokensAfter + effect.truncatedToolResultTokensBefore := by
  induction messages generalizing i markerTokenCount effect with
  | nil =>
    rw [compactFrom, measureFrom]
    omega
  | cons message messages ih =>
    have step (first : ContextMessage) (rest : List ContextMessage) :
        estimateTokensForMessages (first :: rest) =
          estimateTokensForMessage first + estimateTokensForMessages rest := by
      rw [estimateTokensForMessages, List.map_cons, List.sum_cons]
      rfl
    rw [List.forall_mem_cons] at current
    rw [measureFrom]
    by_cases early : i < micro.cutoff
    · rw [if_neg (not_not_intro early), compactFrom]
      by_cases other : message.role ≠ .tool ∨ message.toolCallId = none
      · have kept := @ih (i + 1) markerTokenCount effect current.2 marker
        rw [if_pos other, if_neg, step, step]
        · omega
        · rintro ⟨-, role, id, -⟩
          exact other.elim (absurd role) id
      · rw [if_neg other]
        rw [not_or, not_not] at other
        by_cases small :
            estimateTokensForContentParts message.content < micro.config.minContentTokens
        · have kept := @ih (i + 1) markerTokenCount effect current.2 marker
          simp only [if_pos small]
          rw [if_neg fun inside => absurd inside.2.2.2 (not_le.2 small), step, step]
          omega
        · have known : markerTokenCount.getD
              (estimateTokensForContentParts [.text micro.config.truncatedMarker]) =
                estimateTokensForContentParts [.text micro.config.truncatedMarker] := by
            cases markerTokenCount with
            | none => rfl
            | some n => exact marker n rfl
          have replaced : estimateTokensForMessage (micro.truncated message) + _ = _ :=
            estimate_truncated (current.1 other.1)
          simp only [if_neg small, known]
          rw [if_pos ⟨early, other.1, other.2, not_lt.1 small⟩, step, step]
          have kept := @ih (i + 1)
            (some (estimateTokensForContentParts [.text micro.config.truncatedMarker]))
            ⟨effect.truncatedToolResultCount + 1,
              effect.truncatedToolResultTokensBefore +
                estimateTokensForContentParts message.content,
              effect.truncatedToolResultTokensAfter +
                estimateTokensForContentParts [.text micro.config.truncatedMarker]⟩
            current.2 fun n same => (Option.some.inj same).symm
          simp only at kept
          omega
    · rw [if_pos early, compactFrom_of_le (not_lt.1 early)]
      omega

/-! ## What is kept -/

theorem getElem?_compactFrom (k : ℕ) : (micro.compactFrom i messages)[k]? =
    messages[k]?.map fun message =>
      if (i + k : ℕ) < micro.cutoff ∧ message.role = .tool ∧ message.toolCallId ≠ none ∧
          estimateTokensForContentParts message.content ≥ micro.config.minContentTokens then
        micro.truncated message
      else message := by
  induction messages generalizing i k with
  | nil => rfl
  | cons message messages ih =>
    have first : (micro.compactFrom i (message :: messages)) =
        (if i < micro.cutoff ∧ message.role = .tool ∧ message.toolCallId ≠ none ∧
            estimateTokensForContentParts message.content ≥ micro.config.minContentTokens then
          micro.truncated message
        else message) :: micro.compactFrom (i + 1) messages := by
      rw [compactFrom]
      split <;> rfl
    rw [first]
    cases k with
    | zero => rfl
    | succ =>
      rw [List.getElem?_cons_succ, List.getElem?_cons_succ, ih, Nat.add_right_comm]
      rfl

/-- Two histories have the same shape: as many messages, with the same roles and ids. -/
structure SameShape (before after : List ContextMessage) : Prop where
  length : after.length = before.length
  roles : after.map (·.role) = before.map (·.role)
  toolCallIds : after.map (·.toolCallId) = before.map (·.toolCallId)

theorem sameShape_compactFrom : SameShape messages (micro.compactFrom i messages) := by
  have kept {α : Type} (f : ContextMessage → α)
      (same : ∀ message, f (micro.truncated message) = f message) :
      (micro.compactFrom i messages).map f = messages.map f := by
    refine List.ext_getElem? fun k => ?_
    rw [List.getElem?_map, List.getElem?_map, getElem?_compactFrom, Option.map_map]
    refine congrArg (Option.map · _) (funext fun message => ?_)
    rw [Function.comp_apply]
    split
    · exact same message
    · rfl
  refine ⟨?_, kept _ fun _ => rfl, kept _ fun _ => rfl⟩
  have lengths := congrArg List.length (kept (fun message => message.role) fun _ => rfl)
  rwa [List.length_map, List.length_map] at lengths

theorem getElem?_compact_of_le {enabled : Bool} {k : ℕ} (late : micro.cutoff ≤ k) :
    (micro.compact enabled messages)[k]? = messages[k]? := by
  rw [compact]
  split
  case isTrue =>
    rw [getElem?_compactFrom]
    cases messages[k]? with
    | none => rfl
    | some =>
      rw [Option.map_some, if_neg]
      rw [Nat.zero_add]
      exact fun inside => absurd inside.1 (not_lt.2 late)
  case isFalse => rfl

theorem compact_take (enabled : Bool) (n : ℕ) :
    micro.compact enabled (messages.take n) = (micro.compact enabled messages).take n := by
  rw [compact, compact]
  split
  case isTrue =>
    refine List.ext_getElem? fun k => ?_
    rw [getElem?_compactFrom, List.getElem?_take, List.getElem?_take, getElem?_compactFrom]
    split <;> rfl
  case isFalse => rfl

end MicroCompaction

/-! ## The estimates of tool results -/

namespace ContextMemory

/-- Only the assistant's messages are of steps, and only those are changed in place. -/
def ToolsCurrent (message : ContextMessage) : Prop :=
  (message.step.isSome → message.role = .assistant) ∧
    (message.role = .tool → HasCurrentEstimate message)

theorem ownMessages_toolsCurrent : OwnMessages ToolsCurrent where
  made _ absent _ own := ⟨own, fun _ => hasCurrentEstimate_of_none absent⟩
  estimated message kept :=
    ⟨kept.1, fun tool => estimateFree_hasCurrentEstimate.estimated message (kept.2 tool)⟩

variable {memory : ContextMemory}

theorem push_role {op : ContextOp} {step : ℕ} {change : ContextMessage → ContextMessage}
    (found : memory.push op = some (step, change)) (message : ContextMessage) :
    (change message).role = message.role ∧ (change message).step = message.step := by
  unfold push at found
  split at found
  · obtain ⟨_, -, same⟩ := Option.map_eq_some_iff.1 found
    obtain ⟨-, rfl⟩ := Prod.mk.inj same
    exact ⟨rfl, rfl⟩
  · obtain ⟨_, -, same⟩ := Option.map_eq_some_iff.1 found
    obtain ⟨-, rfl⟩ := Prod.mk.inj same
    exact ⟨rfl, rfl⟩
  · cases found

theorem Each.perform_toolsCurrent (each : memory.Each ToolsCurrent) (op : ContextOp) :
    (memory.perform op).Each ToolsCurrent := by
  refine each.perform ownMessages_toolsCurrent op (fun _ message _ => ⟨?_, fun _ => ?_⟩)
    fun step change found message mem here => ?_
  · rw [message.notOfStep]
    exact nofun
  · exact hasCurrentEstimate_of_none message.notEstimated
  · obtain ⟨role, same⟩ := push_role found message
    have assistant := (each.history message mem).1 (by rw [here]; rfl)
    refine ⟨fun _ => role.trans assistant, fun tool => ?_⟩
    rw [role, assistant] at tool
    cases tool

/-- The estimate of a tool result is never stale. -/
theorem run_toolsCurrent {ops : List ContextOp}
    (run : Transition.Run next Transition.Always {} ops memory) :
    ∀ message ∈ memory.history, message.role = .tool → HasCurrentEstimate message := by
  have each : memory.Each ToolsCurrent := by
    refine run.invariant _ ⟨fun _ mem => (nomatch mem), fun _ mem => nomatch mem⟩ ?_
    intro memory op after each _ step
    cases step
    exact each.perform_toolsCurrent op
  exact fun message mem => (each.history message mem).2

end ContextMemory

namespace MicroCompaction

variable (micro : MicroCompaction)

theorem compact_accounts {messages : List ContextMessage}
    (current : ∀ message ∈ messages, message.role = .tool → HasCurrentEstimate message) :
    (estimateTokensForMessages (micro.compact true messages) : ℤ) =
      accounted messages (micro.measureEffect messages micro.cutoff) := by
  have counted := @compactFrom_accounting micro messages 0 none ⟨0, 0, 0⟩ current nofun
  rw [accounted, measureEffect, compact, if_pos rfl]
  simp only at counted
  omega

/-- With the flag, what `measureEffect` counts is what `compact` saves, in every history of which
the tool results have current estimates, as those of every run of the context have. -/
theorem compact_spec (messages : List ContextMessage) :
    ((∀ message ∈ messages, message.role = .tool → HasCurrentEstimate message) →
      (estimateTokensForMessages (micro.compact true messages) : ℤ) =
        accounted messages (micro.measureEffect messages micro.cutoff)) ∧
    (∀ ops memory, Transition.Run ContextMemory.next Transition.Always {} ops memory →
      ∀ message ∈ memory.history, message.role = .tool → HasCurrentEstimate message) ∧
    ∀ enabled, SameShape messages (micro.compact enabled messages) ∧
      (∀ k : ℕ, micro.cutoff ≤ k → (micro.compact enabled messages)[k]? = messages[k]?) ∧
      ∀ n, micro.compact enabled (messages.take n) = (micro.compact enabled messages).take n := by
  refine ⟨compact_accounts micro, fun _ _ => ContextMemory.run_toolsCurrent, fun enabled =>
    ⟨?_, fun _ => getElem?_compact_of_le, compact_take enabled⟩⟩
  rw [compact]
  split
  case isTrue => exact sameShape_compactFrom
  case isFalse => exact ⟨rfl, rfl, rfl⟩

/-- A file is read. -/
def readFile : List ContextOp :=
  [.appendLoopEvent {} (.stepBegin "step"),
    .appendLoopEvent {} (.toolCall "step" "call" "Read" none),
    .appendLoopEvent {} (.toolResult "call" { output := .inl "the text of the file" })]

/-- The result in the history of a run is replaced, and what is counted is what that saves. -/
theorem readFile_accounted : ∃ memory, Transition.Run ContextMemory.next Transition.Always {}
      readFile memory ∧
    let micro : MicroCompaction := { cutoff := 2, config := { minContentTokens := 1 } }
    (micro.measureEffect memory.history micro.cutoff).truncatedToolResultCount = 1 ∧
    (estimateTokensForMessages (micro.compact true memory.history) : ℤ) =
      accounted memory.history (micro.measureEffect memory.history micro.cutoff) := by
  obtain ⟨memory, run, one⟩ : ∃ memory, Transition.Run ContextMemory.next Transition.Always {}
      readFile memory ∧ (measureEffect { cutoff := 2, config := { minContentTokens := 1 } }
        memory.history 2).truncatedToolResultCount = 1 :=
    ⟨_, .cons trivial rfl <| .cons trivial rfl <| .cons trivial rfl .nil, by decide +kernel⟩
  obtain ⟨accounts, current, -⟩ :=
    compact_spec { cutoff := 2, config := { minContentTokens := 1 } } memory.history
  exact ⟨memory, run, one, accounts (current readFile memory run)⟩

/-- A short result. -/
def toolResult : ContextMessage :=
  { role := .tool, content := [.text "done"], toolCalls := [], toolCallId := some "call" }

/-- Without the flag nothing is replaced, and `measureEffect` does not ask for it. -/
theorem not_accounted_without_flag : ¬∀ (enabled : Bool) (micro : MicroCompaction)
    (messages : List ContextMessage),
      (estimateTokensForMessages (micro.compact enabled messages) : ℤ) =
        accounted messages (micro.measureEffect messages micro.cutoff) := by
  intro all
  have same := all false { cutoff := 1, config := { minContentTokens := 1 } } [toolResult]
  revert same
  decide +kernel

end MicroCompaction

end KimiCli
