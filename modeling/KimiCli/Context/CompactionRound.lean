import KimiCli.Context.EstimateCache
import KimiCli.Context.Objects
import KimiCli.Context.SafeSplits

/-!
# A round of the full compaction

`compactionRound` of `agent/compaction/full.ts`.  While the round waits for its summary the context
may go on: the round accepts every history that still begins with the objects of its snapshot.  It
counts the rest of the snapshot; `applyCompaction` takes the whole history for counted.
-/

namespace KimiCli

namespace TrackedContext

/-- The first lines of a round, which estimate the whole history. -/
def beginRound (snapshot : TrackedContext) : TrackedContext :=
  snapshot.perform (.estimateTokensForMessages 0 snapshot.memory.history.length)

/-- The end of a round, with the context as it is then; `none` if the round is cancelled. -/
def endRound (snapshot live : TrackedContext) (call : ContextCall) (summary : String)
    (compactedCount : ℕ) : Option ContextMemory :=
  let tokensBefore :=
    (snapshot.memory.estimateRange 0 snapshot.memory.history.length).1
  if snapshot.ids <+: live.ids then
    let recent := live.memory.estimateRange compactedCount snapshot.memory.history.length
    let tokensAfter := estimateTokens summary + recent.1
    some (recent.2.applyCompaction call { summary, compactedCount, tokensBefore, tokensAfter })
  else none

end TrackedContext

/-! ## Sums of estimates -/

theorem estimateTokensForMessages_append (messages others : List ContextMessage) :
    estimateTokensForMessages (messages ++ others) =
      estimateTokensForMessages messages + estimateTokensForMessages others := by
  unfold estimateTokensForMessages
  rw [List.map_append, List.sum_append]

/-- An estimate is at least one, whether it is cached or not. -/
def IsCounted (message : ContextMessage) : Prop := message.estimate ≠ some 0

theorem isCounted_of_none {message : ContextMessage} (absent : message.estimate = none) :
    IsCounted message := by
  rw [IsCounted, absent]
  exact nofun

theorem estimateFree_isCounted : EstimateFree IsCounted where
  made _ absent _ := isCounted_of_none absent
  estimated message counted := by
    have pos := DefaultCompactionStrategy.estimateTokensForMessage_pos counted
    exact fun zero => pos.ne' (Option.some.inj zero)

theorem estimateTokensForMessages_eq_zero {messages : List ContextMessage}
    (counted : ∀ message ∈ messages, IsCounted message) :
    estimateTokensForMessages messages = 0 ↔ messages = [] := by
  refine ⟨fun zero => ?_, fun empty => by rw [empty]; rfl⟩
  rcases messages with _ | ⟨message, messages⟩
  · rfl
  · have pos := DefaultCompactionStrategy.estimateTokensForMessage_pos
      (counted message List.mem_cons_self)
    rw [estimateTokensForMessages, List.map_cons, List.sum_cons] at zero
    omega

namespace ContextMemory

variable {memory : ContextMemory}

theorem run_counted {context : TrackedContext} {ops : List ContextOp}
    (run : Transition.Run TrackedContext.next Transition.Always {} ops context) :
    context.memory.Each IsCounted := by
  refine run.invariant (fun context => context.memory.Each IsCounted)
    ⟨fun _ mem => (nomatch mem), fun _ mem => nomatch mem⟩ ?_
  intro context op after each _ step
  cases step
  refine each.perform estimateFree_isCounted.ownMessages op
    (fun _ message _ => isCounted_of_none message.notEstimated)
    fun step change found message mem _ => ?_
  rw [IsCounted, (computedEstimate_push found message).2]
  exact each.history message mem

theorem estimates_estimateRange (start stop : ℕ) :
    (memory.estimateRange start stop).2.history.map estimateTokensForMessage =
      memory.history.map estimateTokensForMessage := by
  refine List.ext_getElem? fun i => ?_
  rw [List.getElem?_map, List.getElem?_map, estimateRange, List.getElem?_mapIdx]
  cases memory.history[i]? with
  | none => rfl
  | some =>
    rw [Option.map_some, Option.map_some, Option.map_some]
    split <;> rfl

/-- The messages that `applyCompaction` flushes. -/
def flushed (memory : ContextMemory) : List ContextMessage :=
  if memory.hasOpenToolExchange then [] else memory.deferredMessages

theorem flush_history (call : ContextCall) :
    (memory.flushDeferredMessagesIfToolExchangeClosed call).history =
      memory.history ++ memory.flushed := by
  unfold flushDeferredMessagesIfToolExchangeClosed flushed
  cases memory.hasOpenToolExchange with
  | true => rw [if_pos (.inl rfl), if_pos rfl, List.append_nil]
  | false =>
    rw [if_neg Bool.false_ne_true]
    split
    case isTrue idle =>
      rcases idle with no | none
      · cases no
      · rw [none, List.append_nil]
    case isFalse => rfl

theorem applyCompaction_history (call : ContextCall) (result : CompactionResult) :
    (memory.applyCompaction call result).history =
      summaryMessage result.summary ::
        (memory.history.drop result.compactedCount ++ memory.flushed) := by
  have same : (memory.summarized call result).flushed = memory.flushed := by
    have logged : (memory.logRecord call (.applyCompaction result)).flushed = memory.flushed := by
      unfold logRecord
      split <;> rfl
    exact logged
  have after : (memory.applyCompaction call result).history =
    ((memory.summarized call result).flushDeferredMessagesIfToolExchangeClosed call).history := rfl
  rw [after, flush_history, summarized_history, same, List.cons_append]

theorem tokenCountWithPending_applyCompaction (call : ContextCall) (result : CompactionResult) :
    (memory.applyCompaction call result).tokenCountWithPending.1 = result.tokensAfter := by
  have covered : (memory.applyCompaction call result).tokenCountCoveredMessageCount =
    (memory.applyCompaction call result).history.length := rfl
  have count : (memory.applyCompaction call result).tokenCount = result.tokensAfter := rfl
  rw [tokenCountWithPending, estimateRange]
  rw [covered, count, List.take_length, List.drop_length]
  exact add_zero _

end ContextMemory

namespace TrackedContext

open ContextMemory

variable {snapshot live : TrackedContext} {summary : String} {compactedCount : ℕ}

theorem endRound_of_accepted (call : ContextCall) (summary : String) (compactedCount : ℕ)
    (accepted : snapshot.ids <+: live.ids) :
    snapshot.endRound live call summary compactedCount =
      some ((live.memory.estimateRange compactedCount
        snapshot.memory.history.length).2.applyCompaction call
          { summary, compactedCount
            tokensBefore := (snapshot.memory.estimateRange 0 snapshot.memory.history.length).1
            tokensAfter := (estimateTokens summary + (live.memory.estimateRange compactedCount
              snapshot.memory.history.length).1 : ℕ) }) := if_pos accepted

theorem length_le_of_accepted (numbered : snapshot.Numbered) (numbered' : live.Numbered)
    (accepted : snapshot.ids <+: live.ids) :
    snapshot.memory.history.length ≤ live.memory.history.length := by
  rw [← numbered.length, ← numbered'.length]
  exact accepted.length_le

/-- A round counts exactly the rest of its snapshot; what has arrived since is in the history, but
not in the count. -/
theorem endRound_eq {call : ContextCall} {after : ContextMemory} (numbered : snapshot.Numbered)
    (numbered' : live.Numbered) (le : compactedCount ≤ snapshot.memory.history.length)
    (applied : snapshot.endRound live call summary compactedCount = some after) :
    (estimateTokens summary + estimateTokensForMessages after.history.tail : ℤ) =
      after.tokenCountWithPending.1 +
        estimateTokensForMessages (live.memory.history.drop snapshot.memory.history.length ++
          live.memory.flushed) := by
  unfold endRound at applied
  split at applied
  case isFalse => cases applied
  case isTrue accepted =>
    have enough := length_le_of_accepted numbered numbered' accepted
    cases applied
    rw [applyCompaction_history, tokenCountWithPending_applyCompaction, List.tail_cons]
    have waiting : (live.memory.estimateRange compactedCount
      snapshot.memory.history.length).2.flushed = live.memory.flushed := rfl
    have rest : live.memory.history.drop compactedCount =
        (live.memory.history.take snapshot.memory.history.length).drop compactedCount ++
          live.memory.history.drop snapshot.memory.history.length := by
      conv_lhs => rw [← List.take_append_drop snapshot.memory.history.length live.memory.history]
      rw [List.drop_append_of_le_length (by rw [List.length_take]; omega)]
    have kept : estimateTokensForMessages ((live.memory.estimateRange compactedCount
        snapshot.memory.history.length).2.history.drop compactedCount) =
        estimateTokensForMessages (live.memory.history.drop compactedCount) := by
      unfold estimateTokensForMessages
      rw [List.map_drop, estimates_estimateRange, List.map_drop]
    rw [waiting, estimateTokensForMessages_append, kept, rest, estimateTokensForMessages_append,
      estimateTokensForMessages_append]
    have recent : (live.memory.estimateRange compactedCount
      snapshot.memory.history.length).1 = estimateTokensForMessages
        ((live.memory.history.take snapshot.memory.history.length).drop compactedCount) := rfl
    rw [recent]
    push_cast
    ring

/-- The count after a round covers the summary and all that stays exactly if nothing has arrived
since the snapshot and nothing is flushed. -/
theorem endRound_counts_iff (ops rest : List ContextOp) (snapshot live : TrackedContext)
    (begun : Transition.Run next Transition.Always {} ops snapshot)
    (waited : Transition.Run next Transition.Always snapshot.beginRound rest live)
    (call : ContextCall) (summary : String) (compactedCount : ℕ)
    (le : compactedCount ≤ snapshot.memory.history.length) (after : ContextMemory)
    (applied : snapshot.endRound live call summary compactedCount = some after) :
    (estimateTokens summary + estimateTokensForMessages after.history.tail : ℤ) ≤
        after.tokenCountWithPending.1 ↔
      live.memory.history.length = snapshot.memory.history.length ∧
        (live.memory.hasOpenToolExchange = true ∨ live.memory.deferredMessages = []) := by
  have all : Transition.Run next Transition.Always {} _ live :=
    (Transition.Run.snoc begun trivial rfl).trans waited
  have numbered := run_numbered begun
  have numbered' := run_numbered all
  have counted := run_counted all
  have enough : snapshot.memory.history.length ≤ live.memory.history.length := by
    unfold endRound at applied
    split at applied
    case isTrue accepted => exact length_le_of_accepted numbered numbered' accepted
    case isFalse => cases applied
  have arrived : estimateTokensForMessages
      (live.memory.history.drop snapshot.memory.history.length ++ live.memory.flushed) = 0 ↔
      live.memory.history.length = snapshot.memory.history.length ∧
        (live.memory.hasOpenToolExchange = true ∨ live.memory.deferredMessages = []) := by
    rw [estimateTokensForMessages_eq_zero, List.append_eq_nil_iff, List.drop_eq_nil_iff]
    · refine and_congr ⟨fun le => le.antisymm enough, fun eq => eq.le⟩ ?_
      unfold flushed
      cases live.memory.hasOpenToolExchange <;> simp
    · intro message mem
      rcases List.mem_append.1 mem with inside | waiting
      · exact counted.history message (List.mem_of_mem_drop inside)
      · refine counted.deferred message ?_
        unfold flushed at waiting
        split at waiting
        · cases waiting
        · exact waiting
  rw [endRound_eq numbered numbered' le applied, ← arrived]
  omega

/-- A prompt and its answer. -/
def answeredPrompt : List ContextOp :=
  [.appendMessage {} (.ofText .user "hello"), .appendMessage {} (.ofText .assistant "hi")]

theorem endRound_counts_answeredPrompt : ∃ snapshot after,
    Transition.Run next Transition.Always {} answeredPrompt snapshot ∧
      snapshot.endRound snapshot.beginRound {} "Greetings." 2 = some after ∧
      (estimateTokens "Greetings." + estimateTokensForMessages after.history.tail : ℤ) ≤
        after.tokenCountWithPending.1 := by
  obtain ⟨snapshot, begun, length, applied⟩ : ∃ snapshot,
      Transition.Run next Transition.Always {} answeredPrompt snapshot ∧
        snapshot.memory.history.length = 2 ∧ snapshot.beginRound.memory.history.length = 2 ∧
        snapshot.beginRound.memory.deferredMessages = [] ∧
        snapshot.ids <+: snapshot.beginRound.ids :=
    ⟨_, .cons trivial rfl (.cons trivial rfl .nil), rfl, rfl, rfl, ⟨[], rfl⟩⟩
  obtain ⟨length', waiting, accepted⟩ := applied
  have ended := endRound_of_accepted {} "Greetings." 2 accepted
  refine ⟨snapshot, _, begun, ended, ?_⟩
  exact (endRound_counts_iff answeredPrompt [] snapshot _ begun .nil {} _ 2 length.ge _ ended).2
    ⟨length'.trans length.symm, .inr waiting⟩

/-- A prompt that is sent while the summary is awaited. -/
theorem endRound_misses_prompt : ¬∀ (ops : List ContextOp) (messages : List NewMessage)
    (snapshot live : TrackedContext),
    Transition.Run next Transition.Always {} ops snapshot →
    Transition.Run next Transition.Always snapshot.beginRound
      (messages.map (.appendMessage {})) live →
    ∀ (summary : String) (compactedCount : ℕ), compactedCount ≤ snapshot.memory.history.length →
    ∀ after, snapshot.endRound live {} summary compactedCount = some after →
      (estimateTokens summary + estimateTokensForMessages after.history.tail : ℤ) ≤
        after.tokenCountWithPending.1 := by
  intro all
  have counts := all answeredPrompt [.ofText .user "wait"] _ _
    (.cons trivial rfl (.cons trivial rfl .nil)) (.cons trivial rfl .nil) "Greetings." 2
    (le_of_eq rfl) _ (endRound_of_accepted {} "Greetings." 2 ⟨[2], rfl⟩)
  exact absurd counts (by decide)

end TrackedContext

end KimiCli
