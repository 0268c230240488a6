import KimiCli.Context.CompactionRound

/-!
# The token count of the context

`_tokenCount` counts the first `tokenCountCoveredMessageCount` messages of the history, and
`tokenCountWithPending` adds an estimate for each of the others.  Two operations can break that: a
pop of a covered message leaves the covered part longer than the history, and an undo takes local
estimates from a count that a provider has reported.
-/

namespace KimiCli

/-- A context with the bound below which the numbers of its objects are that were there at the last
usage report or compaction. -/
structure AccountedContext extends TrackedContext where
  reported : ℕ := 0

namespace AccountedContext

def perform (context : AccountedContext) (op : ContextOp) : AccountedContext :=
  let performed := context.toTrackedContext.perform op
  { performed with
    reported :=
      match op with
      | .appendLoopEvent _ (.stepEnd _ (some _)) => context.created
      | .applyCompaction .. => performed.created
      | _ => context.reported }

def next (context : AccountedContext) (op : ContextOp) : Option AccountedContext :=
  some (context.perform op)

/-- The two conditions on the counters. -/
structure Consistent (memory : ContextMemory) : Prop where
  count : 0 ≤ memory.tokenCount
  covered : memory.tokenCountCoveredMessageCount ≤ memory.history.length

/-- A pop takes no covered message of the history, and an undo takes no more from the count than
is in it. -/
def Accountable (memory : ContextMemory) : ContextOp → Prop
  | .popMatchedMessage matcher => memory.popsHistory matcher = true →
    memory.tokenCountCoveredMessageCount < memory.history.length
  | .undo _ count => 0 < count → ∀ kept removed, memory.history = kept ++ removed →
    Undone count (canUndoHistory memory.history count) kept removed →
    (estimateTokensForMessages
      (coveredRemoved memory.tokenCountCoveredMessageCount kept removed) : ℤ) ≤ memory.tokenCount
  | _ => True

end AccountedContext

/-! ## What an undo takes from the count -/

variable {memory : ContextMemory} {call : ContextCall} {count : ℤ}
  {kept removed kept' removed' : List ContextMessage}

theorem Undone.length_le {complete : Bool} (undone : Undone count complete kept removed)
    (undone' : Undone count complete kept' removed')
    (same : kept ++ removed = kept' ++ removed') : kept.length ≤ kept'.length := by
  by_contra shorter
  rw [not_le] at shorter
  rcases List.append_eq_append_iff.1 same with ⟨between, eq, -⟩ | ⟨between, eq, rest⟩
  · rw [eq, List.length_append] at shorter
    omega
  · have nonempty : between ≠ [] := by
      rintro rfl
      rw [eq, List.append_nil] at shorter
      omega
    cases complete with
    | true =>
      obtain ⟨reached, -⟩ := undone.enough rfl
      obtain ⟨reached', prompt, more, split, real⟩ := undone'.enough rfl
      obtain ⟨first, between, rfl⟩ := List.exists_cons_of_ne_nil nonempty
      rw [rest, List.cons_append] at split
      obtain rfl := List.head_eq_of_cons_eq split
      rw [rest, List.countP_append, List.countP_cons_of_pos real] at reached'
      push_cast at reached'
      omega
    | false =>
      obtain ⟨-, boundary⟩ := undone.short rfl
      have summary := boundary (between.getLast nonempty) (by
        rw [eq, List.getLast?_append_of_ne_nil _ nonempty, List.getLast?_eq_some_getLast nonempty]
        rfl)
      have reached := undone'.reach (between.getLast nonempty) (by
        rw [rest]
        exact List.mem_append_left _ (List.getLast_mem nonempty))
      rw [summary] at reached
      cases reached

theorem Undone.unique {complete : Bool} (undone : Undone count complete kept removed)
    (undone' : Undone count complete kept' removed')
    (same : kept ++ removed = kept' ++ removed') : kept = kept' ∧ removed = removed' :=
  List.append_inj same
    ((undone.length_le undone' same).antisymm (undone'.length_le undone same.symm))

theorem coveredRemoved_length (covered : ℕ) (le : covered ≤ kept.length + removed.length) :
    covered - (coveredRemoved covered kept removed).length ≤
      (kept ++ removed.filter (·.isInjection)).length := by
  have parts := List.length_eq_length_filter_add (l := removed.take (covered - kept.length))
    (·.isInjection)
  have sub := ((List.take_sublist (covered - kept.length) removed).filter
    (·.isInjection)).length_le
  rw [List.length_take] at parts
  rw [coveredRemoved, List.length_append]
  omega

namespace ContextMemory

theorem undo_accounting (memory : ContextMemory) (call : ContextCall) (positive : 0 < count) :
    ∃ kept removed,
    memory.history = kept ++ removed ∧
      Undone count (canUndoHistory memory.history count) kept removed ∧
      (memory.undo call count).1.tokenCount = memory.tokenCount - estimateTokensForMessages
        (coveredRemoved memory.tokenCountCoveredMessageCount kept removed) ∧
      (memory.tokenCountCoveredMessageCount ≤ memory.history.length →
        (memory.undo call count).1.tokenCountCoveredMessageCount ≤
          (memory.undo call count).1.history.length) := by
  by_cases empty : memory.history = []
  · rw [undo_of_idle (.inr empty), empty]
    refine ⟨[], [], rfl, ⟨fun _ mem => (nomatch mem), fun yes => (nomatch yes), fun _ =>
      ⟨positive, fun _ mem => nomatch mem⟩⟩, ?_, id⟩
    rw [coveredRemoved, List.take_nil, List.filter_nil]
    exact (sub_zero memory.tokenCount).symm
  · obtain ⟨kept, removed, split, undone, after, -⟩ := undo_done call positive empty
    have logged := memory.appends_logRecord call (.undo count)
    refine ⟨kept, removed, split, undone, ?_, fun le => ?_⟩
    · rw [after]
      unfold without
      rw [logged.tokenCount, logged.covered]
    · rw [split, List.length_append] at le
      have shrunk := coveredRemoved_length memory.tokenCountCoveredMessageCount le
      rw [after]
      unfold without
      rwa [logged.covered, List.append_nil]

theorem counters_perform (memory : ContextMemory) (op : ContextOp)
    (appending : ∀ call uuid usage, op ≠ .appendLoopEvent call (.stepEnd uuid (some usage)))
    (keeping : op.summaries = 0) (undoing : ∀ call count, op ≠ .undo call count)
    (clearing : ∀ call, op ≠ .clear call) :
    (memory.perform op).tokenCount = memory.tokenCount ∧
      (memory.perform op).tokenCountCoveredMessageCount =
        memory.tokenCountCoveredMessageCount := by
  have of_appends {after : ContextMemory} (appends : Appends memory after) :
      after.tokenCount = memory.tokenCount ∧
        after.tokenCountCoveredMessageCount = memory.tokenCountCoveredMessageCount :=
    ⟨appends.tokenCount, appends.covered⟩
  cases op with
  | appendMessage call => exact of_appends (memory.appends_appendMessage call _)
  | appendLoopEvent call event =>
    by_cases ends : ∃ uuid usage, event = .stepEnd uuid usage
    · obtain ⟨uuid, usage, rfl⟩ := ends
      cases usage with
      | none =>
        exact of_appends ((memory.appends_logRecord call _).trans
          (appends_appendStepEnd _ call uuid))
      | some usage => exact absurd rfl (appending call uuid usage)
    · exact of_appends (memory.appends_appendLoopEvent call event fun uuid usage same =>
        ends ⟨uuid, usage, same⟩)
  | undo call count => exact absurd rfl (undoing call count)
  | clear call => exact absurd rfl (clearing call)
  | applyCompaction => cases keeping
  | popMatchedMessage =>
    rw [perform, popMatchedMessage]
    split
    · split <;> exact ⟨rfl, rfl⟩
    · split
      · exact ⟨rfl, rfl⟩
      · split <;> exact ⟨rfl, rfl⟩
  | tokenCountWithPending => exact of_appends (memory.appends_estimateRange _ _)
  | estimateTokensForMessages start stop =>
    exact of_appends (memory.appends_estimateRange start stop)

/-- A usage report counts messages that are there, and a count that is not negative. -/
theorem counters_stepEnd (memory : ContextMemory) (call : ContextCall) (uuid : String)
    (usage : TokenUsage) :
    let after := memory.perform (.appendLoopEvent call (.stepEnd uuid (some usage)))
    (0 ≤ memory.tokenCount → 0 ≤ after.tokenCount) ∧
      after.tokenCountCoveredMessageCount ≤ memory.history.length := by
  intro after
  have logged := memory.appends_logRecord call (.appendLoopEvent (.stepEnd uuid (some usage)))
  have flushed := appends_flush ((memory.logRecord call
    (.appendLoopEvent (.stepEnd uuid (some usage)))).counted uuid usage) call
  have count : after.tokenCount = _ := flushed.tokenCount
  have covered : after.tokenCountCoveredMessageCount = _ := flushed.covered
  constructor
  · intro natural
    rw [count, counted]
    split
    · exact Int.natCast_nonneg _
    · rw [logged.tokenCount]
      exact add_nonneg natural (Int.natCast_nonneg _)
  · rw [covered, ← logRecord_history (.appendLoopEvent (.stepEnd uuid (some usage)))]
    exact coveredCount_le _ uuid

end ContextMemory

namespace AccountedContext

open ContextMemory

theorem Consistent.grow (consistent : Consistent memory) {after : ContextMemory}
    (count : after.tokenCount = memory.tokenCount)
    (covered : after.tokenCountCoveredMessageCount = memory.tokenCountCoveredMessageCount)
    (grows : GrowsTo memory.history after.history) : Consistent after where
  count := by rw [count]; exact consistent.count
  covered := by rw [covered]; exact consistent.covered.trans grows.length_le

theorem consistent_appendLoopEvent (consistent : Consistent memory) (call : ContextCall)
    (event : LoopRecordedEvent) : Consistent (memory.appendLoopEvent call event).1 := by
  have grows := (memory.grows_perform (.appendLoopEvent call event)).2
  by_cases reports : ∃ uuid usage, event = .stepEnd uuid (some usage)
  · obtain ⟨uuid, usage, rfl⟩ := reports
    obtain ⟨count, covered⟩ := counters_stepEnd memory call uuid usage
    exact ⟨count consistent.count, covered.trans grows.length_le⟩
  · obtain ⟨count, covered⟩ := counters_perform memory (.appendLoopEvent call event)
      (fun _ uuid usage same => reports ⟨uuid, usage, (ContextOp.appendLoopEvent.inj same).2⟩) rfl
      (fun _ _ => nofun) fun _ => nofun
    exact consistent.grow count covered grows

theorem consistent_undo_iff (consistent : Consistent memory) (call : ContextCall) (count : ℤ) :
    Consistent (memory.undo call count).1 ↔ Accountable memory (.undo call count) := by
  by_cases positive : 0 < count
  · obtain ⟨kept, removed, split, undone, total, covered⟩ := undo_accounting memory call positive
    have natural : 0 ≤ (memory.undo call count).1.tokenCount ↔
        (estimateTokensForMessages (coveredRemoved memory.tokenCountCoveredMessageCount kept
          removed) : ℤ) ≤ memory.tokenCount := by
      rw [total]
      exact sub_nonneg
    constructor
    · intro after _ kept' removed' split' undone'
      obtain ⟨rfl, rfl⟩ := undone.unique undone' (split.symm.trans split')
      exact natural.1 after.count
    · intro accountable
      exact ⟨natural.2 (accountable positive kept removed split undone), covered consistent.covered⟩
  · rw [undo_of_idle (.inl (not_lt.1 positive))]
    exact ⟨fun _ no => absurd no positive, fun _ => consistent⟩

theorem consistent_pop_iff (consistent : Consistent memory)
    (matcher : Option PromptOrigin → Option String → Bool) :
    Consistent (memory.popMatchedMessage matcher).1 ↔
      Accountable memory (.popMatchedMessage matcher) := by
  obtain ⟨count, covered⟩ := counters_perform memory (.popMatchedMessage matcher)
    (fun _ _ _ => nofun) rfl (fun _ _ => nofun) fun _ => nofun
  have history := memory.popMatchedMessage_history matcher
  have length : memory.popsHistory matcher = true →
      (memory.popMatchedMessage matcher).1.history.length + 1 = memory.history.length := by
    intro pops
    rw [history, if_pos pops, List.length_dropLast]
    refine Nat.sub_add_cancel (List.length_pos_iff.2 fun empty => ?_)
    rw [popsHistory, empty] at pops
    simp at pops
  constructor
  · intro after pops
    have le := after.covered
    rw [show (memory.popMatchedMessage matcher).1.tokenCountCoveredMessageCount = _ from
      covered] at le
    have shorter := length pops
    omega
  · intro accountable
    refine ⟨count.symm ▸ consistent.count, ?_⟩
    rw [show (memory.popMatchedMessage matcher).1.tokenCountCoveredMessageCount = _ from covered]
    by_cases pops : memory.popsHistory matcher = true
    · have lt := accountable pops
      have shorter := length pops
      omega
    · rw [history, if_neg pops]
      exact consistent.covered

/-- An operation keeps the counters consistent exactly if it is accountable. -/
theorem consistent_perform_iff (consistent : Consistent memory) (op : ContextOp) :
    Consistent (memory.perform op) ↔ Accountable memory op := by
  have trivially (after : Consistent (memory.perform op)) (accountable : Accountable memory op) :
      Consistent (memory.perform op) ↔ Accountable memory op :=
    ⟨fun _ => accountable, fun _ => after⟩
  cases op with
  | appendMessage call message =>
    have appends := memory.appends_appendMessage call message.toContextMessage
    exact trivially (consistent.grow appends.tokenCount appends.covered appends.history) trivial
  | appendLoopEvent call event =>
    exact trivially (consistent_appendLoopEvent consistent call event) trivial
  | undo call count => exact consistent_undo_iff consistent call count
  | clear => exact trivially ⟨le_rfl, le_rfl⟩ trivial
  | applyCompaction =>
    exact trivially ⟨Int.natCast_nonneg _, le_rfl⟩ trivial
  | popMatchedMessage matcher => exact consistent_pop_iff consistent matcher
  | tokenCountWithPending =>
    have appends := memory.appends_estimateRange memory.tokenCountCoveredMessageCount
      memory.history.length
    exact trivially (consistent.grow appends.tokenCount appends.covered appends.history) trivial
  | estimateTokensForMessages start stop =>
    have appends := memory.appends_estimateRange start stop
    exact trivially (consistent.grow appends.tokenCount appends.covered appends.history) trivial

/-! ## The messages after the last report -/

variable {context : AccountedContext}

/-- Every object is numbered, and the covered ones were there at the last report. -/
structure Accounted (context : AccountedContext) : Prop where
  numbered : context.toTrackedContext.Numbered
  consistent : Consistent context.memory
  old : ∀ id ∈ context.ids.take context.memory.tokenCountCoveredMessageCount, id < context.reported

theorem take_ids_perform (op : ContextOp) (keeping : op.summaries = 0) {k : ℕ}
    (le : k ≤ (context.memory.survivors op context.ids).length) :
    (context.perform op).ids.take k = (context.memory.survivors op context.ids).take k := by
  have ids : (context.perform op).ids = _ := TrackedContext.perform_ids op
  rw [ids, keeping, List.range'_zero, List.nil_append, List.take_append_of_le_length le]

/-- An operation that is no report keeps the bound, if what it leaves of the covered part was
covered. -/
theorem Accounted.old_perform (accounted : context.Accounted) (op : ContextOp) {covered id : ℕ}
    (keeping : op.summaries = 0)
    (le : covered ≤ (context.memory.survivors op context.ids).length)
    (sub : id ∈ (context.memory.survivors op context.ids).take covered →
      id ∈ context.ids.take context.memory.tokenCountCoveredMessageCount)
    (mem : id ∈ (context.perform op).ids.take covered) : id < context.reported := by
  rw [take_ids_perform op keeping le] at mem
  exact accounted.old id (sub mem)

theorem Accounted.perform (accounted : context.Accounted) {op : ContextOp}
    (accountable : Accountable context.memory op) : (context.perform op).Accounted := by
  have numbered := accounted.numbered.perform op
  have consistent := (consistent_perform_iff accounted.consistent op).2 accountable
  have length := accounted.numbered.length
  have le := accounted.consistent.covered
  refine ⟨numbered, consistent, fun id mem => ?_⟩
  -- an operation that leaves the covered part as it is
  have of_same (covered : (context.memory.perform op).tokenCountCoveredMessageCount =
        context.memory.tokenCountCoveredMessageCount) (keeping : op.summaries = 0)
      (left : context.memory.survivors op context.ids = context.ids) : id < context.reported := by
    refine accounted.old_perform _ keeping ?_ (fun inside => ?_) (covered ▸ mem)
    · rw [left, length]
      exact le
    · rwa [left] at inside
  cases op with
  | appendMessage call =>
    exact of_same (context.memory.appends_appendMessage call _).covered rfl rfl
  | appendLoopEvent call event =>
    by_cases reports : ∃ uuid usage, event = .stepEnd uuid (some usage)
    · obtain ⟨uuid, usage, rfl⟩ := reports
      have covered := (counters_stepEnd context.memory call uuid usage).2
      have inside := take_ids_perform (.appendLoopEvent call (.stepEnd uuid (some usage))) rfl
        (covered.trans length.ge)
      have mem : id ∈ (context.perform
          (.appendLoopEvent call (.stepEnd uuid (some usage)))).ids.take
        (context.memory.perform (.appendLoopEvent call
          (.stepEnd uuid (some usage)))).tokenCountCoveredMessageCount := mem
      rw [inside] at mem
      exact accounted.numbered.created id (List.mem_of_mem_take mem)
    · have covered := (counters_perform context.memory (.appendLoopEvent call event)
        (fun _ uuid usage same => reports ⟨uuid, usage, (ContextOp.appendLoopEvent.inj same).2⟩) rfl
        (fun _ _ => nofun) fun _ => nofun).2
      have bound := of_same covered rfl rfl
      cases event with
      | stepEnd uuid usage =>
        cases usage with
        | none => exact bound
        | some usage => exact absurd ⟨uuid, usage, rfl⟩ reports
      | _ => exact bound
  | undo call count =>
    have covered := (context.memory.undo_removals call count).2
    have left := consistent.covered
    have history : (context.memory.perform (.undo call count)).history.length = _ :=
      congrArg List.length (context.memory.undo_removals call count).1
    rw [history] at left
    refine accounted.old_perform (.undo call count) rfl ?_ (fun inside => ?_) mem
    · rw [context.memory.length_survivors (.undo call count) length]
      exact left
    · refine Positions.mem_take_of_foldl_eraseIdx (context.memory.removals count) _ _ ?_
      rw [← covered]
      exact inside
  | clear => exact nomatch mem
  | applyCompaction => exact numbered.created id (List.mem_of_mem_take mem)
  | popMatchedMessage matcher =>
    have covered := (counters_perform context.memory (.popMatchedMessage matcher)
      (fun _ _ _ => nofun) rfl (fun _ _ => nofun) fun _ => nofun).2
    by_cases pops : context.memory.popsHistory matcher = true
    · have lt := accountable pops
      have left : context.memory.survivors (.popMatchedMessage matcher) context.ids =
        context.ids.dropLast := if_pos pops
      refine accounted.old_perform (.popMatchedMessage matcher) rfl ?_ (fun inside => ?_)
        (covered ▸ mem)
      · rw [left, List.length_dropLast, length]
        omega
      · rw [left, List.dropLast_eq_take, List.take_take] at inside
        exact (List.take_prefix_take_left (Nat.min_le_left _ _)).subset inside
    · exact of_same covered rfl (if_neg pops)
  | tokenCountWithPending => exact of_same rfl rfl rfl
  | estimateTokensForMessages => exact of_same rfl rfl rfl

theorem run_accounted {ops : List ContextOp}
    (run : Transition.Run next (fun context op => Accountable context.memory op) {} ops context) :
    context.Accounted := by
  refine run.invariant _ ⟨TrackedContext.numbered_empty, ⟨le_rfl, le_rfl⟩,
    fun _ mem => nomatch mem⟩ ?_
  intro context op after accounted accountable step
  cases step
  exact accounted.perform accountable

/-- As long as every pop and every undo is accountable the counters are consistent, and every
message that the last report has not seen is counted by its estimate; the first that is not breaks
the counters. -/
theorem accounting_iff (ops : List ContextOp) (context : AccountedContext)
    (run : Transition.Run next (fun context op => Accountable context.memory op) {} ops context) :
    0 ≤ context.memory.tokenCount ∧
      context.memory.tokenCountCoveredMessageCount ≤ context.memory.history.length ∧
      context.memory.tokenCountWithPending.1 = context.memory.tokenCount +
        estimateTokensForMessages
          (context.memory.history.drop context.memory.tokenCountCoveredMessageCount) ∧
      (∀ i id, context.ids[i]? = some id → context.reported ≤ id →
        context.memory.tokenCountCoveredMessageCount ≤ i) ∧
      ∀ op, (0 ≤ (context.memory.perform op).tokenCount ∧
        (context.memory.perform op).tokenCountCoveredMessageCount ≤
          (context.memory.perform op).history.length) ↔ Accountable context.memory op := by
  have accounted := run_accounted run
  refine ⟨accounted.consistent.count, accounted.consistent.covered, ?_, fun i id here new => ?_,
    fun op => ?_⟩
  · rw [tokenCountWithPending, estimateRange]
    rw [List.take_length]
  · by_contra covered
    rw [not_le] at covered
    refine absurd (accounted.old id (List.mem_iff_getElem?.2 ⟨i, ?_⟩)) (not_lt.2 new)
    rw [List.getElem?_take_of_lt covered, here]
  · rw [← consistent_perform_iff accounted.consistent]
    exact ⟨fun both => ⟨both.1, both.2⟩, fun after => ⟨after.count, after.covered⟩⟩

/-- A prompt, and a step that reports what it has used. -/
def reportedStep : List ContextOp :=
  [.appendMessage {} (.ofText .user "hello"), .appendLoopEvent {} (.stepBegin "step"),
    .appendLoopEvent {} (.stepEnd "step"
      (some { inputOther := 1, output := 0, inputCacheRead := 0, inputCacheCreation := 0 }))]

theorem accounting_reportedStep : ∃ context,
    Transition.Run next (fun context op => Accountable context.memory op) {} reportedStep context ∧
      0 ≤ context.memory.tokenCount ∧
      context.memory.tokenCountCoveredMessageCount ≤ context.memory.history.length := by
  obtain ⟨context, run⟩ : ∃ context, Transition.Run next
      (fun context op => Accountable context.memory op) {} reportedStep context :=
    ⟨_, .cons trivial rfl (.cons trivial rfl (.cons trivial rfl .nil))⟩
  obtain ⟨count, covered, -⟩ := accounting_iff _ _ run
  exact ⟨context, run, count, covered⟩

/-- The reminder that is popped has been covered by a compaction; and the prompt that is undone is
estimated at more than the report of its step. -/
theorem counters_of_pop_of_undo :
    (¬∀ (ops : List ContextOp) (context : AccountedContext),
      Transition.Run next Transition.Always {} ops context →
      context.memory.tokenCountCoveredMessageCount ≤ context.memory.history.length) ∧
    ¬∀ (ops : List ContextOp) (context : AccountedContext),
      Transition.Run next Transition.Always {} ops context → 0 ≤ context.memory.tokenCount := by
  refine ⟨fun all => ?_, fun all => ?_⟩
  · have covered := all
      [.appendMessage {} (.ofText .user "hello"), .appendMessage {} (.ofText .assistant "hi"),
        .appendMessage {} { NewMessage.ofText .user "swarm" with
          origin := some .injection, variant := some "swarm_mode" },
        .applyCompaction {} "Greetings." 2 0 3,
        .popMatchedMessage fun origin variant =>
          origin = some .injection ∧ variant = some "swarm_mode"] _
      (.cons trivial rfl (.cons trivial rfl (.cons trivial rfl (.cons trivial rfl
        (.cons trivial rfl .nil)))))
    exact absurd covered (by decide)
  · have natural := all (reportedStep ++ [.undo {} 1]) _
      (.cons trivial rfl (.cons trivial rfl (.cons trivial rfl (.cons trivial rfl .nil))))
    exact absurd natural (by decide)

end AccountedContext

end KimiCli
