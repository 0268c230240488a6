import KimiCli.Context.Injector

/-!
# Where the reminder of an injector is

The index that an injector remembers is the position of one message: the last one that it has
appended, or has found again.  The three callbacks move the index as the operations move the
message, because a compaction never splits right behind a user message.
-/

namespace KimiCli

/-! ## The counts of the strategy -/

namespace DefaultCompactionStrategy

variable {strategy : DefaultCompactionStrategy} {snapshot : List ContextMessage} {count : ℕ}

theorem Chooses.last (chooses : strategy.Chooses snapshot count) :
    0 < count ∧ ∃ message ∈ snapshot[count - 1]?, message.role ≠ .user := by
  induction chooses with
  | computed source some =>
    rcases computeCompactCount_cases source with zero | ⟨k, eq, can, -⟩
    · exact absurd zero some
    · obtain ⟨message, here, notUser, -⟩ := canSplitAfter_iff.1 can
      rw [eq]
      exact ⟨k.succ_pos, message, here, notUser⟩
  | @reduced count _ ih =>
    obtain ⟨pos, message, here, notUser⟩ := ih
    have lt : count - 1 < snapshot.length := (List.getElem?_eq_some_iff.1 here).1
    have length : (snapshot.take count).length = count := by
      rw [List.length_take]
      omega
    unfold reduceCompactOnOverflow
    dsimp only
    cases found : reduceScan _ (snapshot.take count) ((snapshot.take count).length - 2) 0 none with
    | none =>
      rw [Option.getD_none, length]
      exact ⟨pos, message, here, notUser⟩
    | some =>
      rcases reduceScan_some found with no | ⟨k, -, -, rfl, can⟩
      · cases no
      · obtain ⟨message, here, notUser, -⟩ := canSplitAfter_iff.1 can
        rw [List.getElem?_take] at here
        split at here
        · exact ⟨k.succ_pos, message, here, notUser⟩
        · cases here

end DefaultCompactionStrategy

/-! ## The callbacks -/

namespace TrackedContext

variable {context : TrackedContext}

theorem idxOf?_perform (op : ContextOp) {id : ℕ} (old : id < context.created) :
    (context.perform op).ids.idxOf? id =
      ((context.memory.survivors op context.ids).idxOf? id).map (· + op.summaries) := by
  have front : id ∉ List.range' context.created op.summaries := fun mem =>
    absurd (List.mem_range'_1.1 mem).1 (not_le.2 old)
  rw [perform_ids, Positions.idxOf?_append_of_not_mem,
    Positions.idxOf?_append_of_not_mem_left front, List.length_range']
  intro mem
  have le := (List.mem_range'_1.1 mem).1
  omega

end TrackedContext

namespace DynamicInjector

variable {ids : List ℕ} {id : ℕ}

theorem removed_idxOf? (id : ℕ) (nodup : ids.Nodup) (removals : List ℕ) :
    removals.foldl onContextMessageRemoved (ids.idxOf? id) =
      (removals.foldl List.eraseIdx ids).idxOf? id := by
  induction removals generalizing ids with
  | nil => rfl
  | cons r removals ih =>
    have once : onContextMessageRemoved (ids.idxOf? id) r = (ids.eraseIdx r).idxOf? id :=
      (Positions.idxOf?_eraseIdx nodup r).symm
    rw [List.foldl_cons, List.foldl_cons, once, ih (nodup.sublist (List.eraseIdx_sublist ids r))]

theorem compacted_idxOf? (nodup : ids.Nodup) {count : ℕ} (pos : 0 < count)
    (apart : ids.idxOf? id ≠ some (count - 1)) :
    onCompacted (ids.idxOf? id) count = ((ids.drop count).idxOf? id).map (· + 1) := by
  rw [Positions.idxOf?_drop nodup]
  cases position : ids.idxOf? id with
  | none => rfl
  | some i =>
    rw [position] at apart
    have other : i ≠ count - 1 := fun same => apart (congrArg some same)
    rw [onCompacted, Option.bind_some, Option.bind_some]
    by_cases behind : count ≤ i
    · rw [if_pos (by omega), if_pos behind, Option.map_some]
      congr 1
      omega
    · rw [if_neg (by omega), if_neg behind, Option.map_none]

theorem assigns_of_silent (injector : DynamicInjector) {agent : injector.Agent}
    {history : List ContextMessage} {injectedAt : Option ℕ} {fields : injector.Fields}
    (silent : (injector.getInjection agent history injectedAt fields).2.2.filter (· ≠ "") = none) :
    (injector.getInjection agent history injectedAt fields).1 = injectedAt ∨
      ∃ i message, (injector.getInjection agent history injectedAt fields).1 = some i ∧
        injectedAt = none ∧ history[i]? = some message ∧
        message.isInjectionOf injector.injectionVariant = true := by
  rcases injector.assigns agent history injectedAt fields with
    same | ⟨-, text, mem, spoken⟩ | ⟨noIndex, -, i, index, message, here, own⟩
  · exact .inl same
  · exact absurd (Option.filter_eq_none_iff.1 silent text mem) (not_not.2 (decide_eq_true spoken))
  · exact .inr ⟨i, message, index, noIndex, here, own⟩

end DynamicInjector

/-! ## The invariant -/

theorem SameObject.isInjectionOf {before after : ContextMessage} (same : SameObject before after)
    (variant : String) : after.isInjectionOf variant = before.isInjectionOf variant := by
  rw [ContextMessage.isInjectionOf, ContextMessage.isInjectionOf, ContextMessage.isInjection,
    ContextMessage.isInjection, same.origin, same.variant]

namespace InjectedContext

variable {injector : DynamicInjector} {context : InjectedContext injector}

/-- Injections are user messages. -/
def UserInjection (message : ContextMessage) : Prop :=
  message.origin = some .injection → message.role = .user

/-- The index is the position of one message, which is an injection of the variant. -/
structure Placed (context : InjectedContext injector) : Prop where
  numbered : context.toTrackedContext.Numbered
  users : context.memory.Each UserInjection
  old : ∀ id ∈ context.placed, id < context.created
  position : context.injectedAt = context.placed.bind fun id => context.ids.idxOf? id
  own : ∀ id ∈ context.placed, ∀ (i : ℕ) (message : ContextMessage), context.ids[i]? = some id →
    context.memory.history[i]? = some message →
    message.isInjectionOf injector.injectionVariant = true

theorem estimateFree_userInjection : EstimateFree UserInjection where
  made _ _ noInjection injection := absurd injection noInjection
  estimated _ user := user

theorem users_perform (users : context.memory.Each UserInjection) (op : ContextOp)
    (appended : ∀ call message, op = .appendMessage call message →
      UserInjection message.toContextMessage) :
    (context.memory.perform op).Each UserInjection := by
  refine users.perform estimateFree_userInjection.ownMessages op appended ?_
  intro step change found message mem _
  have user := users.history message mem
  unfold ContextMemory.push at found
  split at found
  · obtain ⟨_, -, same⟩ := Option.map_eq_some_iff.1 found
    obtain ⟨-, rfl⟩ := Prod.mk.inj same
    exact user
  · obtain ⟨_, -, same⟩ := Option.map_eq_some_iff.1 found
    obtain ⟨-, rfl⟩ := Prod.mk.inj same
    exact user
  · cases found

theorem Placed.own_perform (placed : context.Placed) (op : ContextOp) {id : ℕ}
    (mem : id ∈ context.placed) {i : ℕ} {message : ContextMessage}
    (number : (context.toTrackedContext.perform op).ids[i]? = some id)
    (here : (context.toTrackedContext.perform op).memory.history[i]? = some message) :
    message.isInjectionOf injector.injectionVariant = true := by
  rcases placed.numbered.origin op number here with new | ⟨j, before, number', here', same⟩
  · exact absurd (placed.old id mem) (not_lt.2 new)
  · rw [same.isInjectionOf]
    exact placed.own id mem j before number' here'

theorem callbacks_none (memory : ContextMemory) (op : ContextOp) :
    callbacks memory op none = none := by
  cases op with
  | undo =>
    exact List.foldlRecOn (motive := (· = none)) _ _ rfl fun _ nothing _ _ => by rw [nothing]; rfl
  | _ => rfl

section

variable (placed : context.Placed)
include placed

theorem Placed.apart {id : ℕ} (mem : id ∈ context.placed) {strategy : DefaultCompactionStrategy}
    {snapshot : List ContextMessage} {count : ℕ} (grows : GrowsTo snapshot context.memory.history)
    (chooses : strategy.Chooses snapshot count) :
    context.ids.idxOf? id ≠ some (count - 1) := by
  intro same
  have number := (Positions.idxOf?_eq_some_iff_getElem? placed.numbered.nodup).1 same
  obtain ⟨-, before, here, notUser⟩ := chooses.last
  obtain ⟨after, here', object⟩ := grows _ before here
  have own := placed.own id mem _ after number here'
  have injection : after.isInjection = true := (Bool.and_eq_true_iff.1 own).1
  have user := placed.users.history after (List.mem_of_getElem? here')
    (of_decide_eq_true injection)
  exact notUser (object.role.symm.trans user)

theorem Placed.callbacks_position {id : ℕ} (mem : id ∈ context.placed) {agent : injector.Agent}
    {op : ContextOp} (allowed : context.Allowed (.context agent op)) :
    callbacks context.memory op (context.ids.idxOf? id) =
      ((context.memory.survivors op context.ids).idxOf? id).map (· + op.summaries) := by
  have same (left : context.memory.survivors op context.ids = context.ids)
      (noSummary : op.summaries = 0) : context.ids.idxOf? id =
      ((context.memory.survivors op context.ids).idxOf? id).map (· + op.summaries) := by
    rw [left, noSummary]
    exact Option.map_id'.symm
  cases op with
  | undo call count =>
    have removed := DynamicInjector.removed_idxOf? id placed.numbered.nodup
      (context.memory.removals count)
    exact removed.trans Option.map_id'.symm
  | clear => rfl
  | applyCompaction =>
    obtain ⟨strategy, snapshot, grows, chooses⟩ := allowed
    exact DynamicInjector.compacted_idxOf? placed.numbered.nodup chooses.last.1
      (placed.apart mem grows chooses)
  | popMatchedMessage => exact False.elim allowed
  | _ => exact same rfl rfl

theorem Placed.performContext {agent : injector.Agent} {op : ContextOp}
    (allowed : context.Allowed (.context agent op)) :
    (context.perform (.context agent op)).Placed where
  numbered := placed.numbered.perform op
  users := users_perform placed.users op fun call message same => by
    rw [same] at allowed
    exact allowed
  old id mem := (placed.old id mem).trans_le
    ((Nat.le_add_right _ _).trans (Nat.le_add_right _ _))
  position := by
    have position := placed.position
    have moved : (context.perform (.context agent op)).injectedAt =
      callbacks context.memory op context.injectedAt := rfl
    have same : (context.perform (.context agent op)).placed = context.placed := rfl
    rw [moved, same, position]
    cases here : context.placed with
    | none => exact callbacks_none context.memory op
    | some id =>
      rw [Option.bind_some, Option.bind_some, placed.callbacks_position here allowed]
      exact (context.toTrackedContext.idxOf?_perform op (placed.old id here)).symm
  own _ mem _ _ number here := placed.own_perform op mem number here

theorem inject_appends (idle : context.memory.hasOpenToolExchange = false) (call : ContextCall)
    (message : NewMessage) :
    (context.memory.perform (.appendMessage call message)).history =
        context.memory.history ++ [message.toContextMessage] ∧
      (context.toTrackedContext.perform (.appendMessage call message)).ids =
        context.ids ++ [context.created] := by
  have history : (context.memory.perform (.appendMessage call message)).history =
      context.memory.history ++ [message.toContextMessage] := by
    have logged : (context.memory.logRecord call
        (.appendMessage message.toContextMessage)).hasOpenToolExchange = false := by
      rw [← idle]
      unfold ContextMemory.logRecord
      split <;> rfl
    rw [ContextMemory.perform, ContextMemory.appendMessage, logged, if_neg Bool.false_ne_true,
      ContextMemory.pushHistory, ContextMemory.logRecord_history]
  refine ⟨history, ?_⟩
  have left : context.memory.survivors (.appendMessage call message) context.ids =
    context.ids := rfl
  have noSummary : (ContextOp.appendMessage call message).summaries = 0 := rfl
  rw [TrackedContext.perform_ids, history, left, noSummary, placed.numbered.length,
    List.length_append, List.length_singleton, Nat.sub_zero, Nat.add_sub_cancel_left,
    List.range'_zero, List.nil_append, Nat.add_zero]
  rfl

theorem Placed.appends (idle : context.memory.hasOpenToolExchange = false) (call : ContextCall)
    (injection : String) (fields : injector.Fields) :
    ({ context.toTrackedContext.perform
        (.appendMessage call (systemReminder injection injector.injectionVariant)) with
      injectedAt := some context.memory.history.length
      fields
      appended := some context.created
      placed := some context.created } : InjectedContext injector).Placed := by
  obtain ⟨history, ids⟩ := inject_appends placed idle call
    (systemReminder injection injector.injectionVariant)
  have numbered := placed.numbered.perform
    (.appendMessage call (systemReminder injection injector.injectionVariant))
  have last : (context.ids ++ [context.created])[context.ids.length]? = some context.created :=
    List.getElem?_concat_length
  have nodup : (context.ids ++ [context.created]).Nodup := ids ▸ numbered.nodup
  refine ⟨numbered, ?_, ?_, ?_, ?_⟩
  · exact users_perform placed.users
      (.appendMessage call (systemReminder injection injector.injectionVariant)) fun _ _ same => by
        cases same
        exact fun _ => rfl
  · rintro id ⟨⟩
    refine numbered.created context.created ?_
    rw [ids]
    exact List.mem_append_right _ List.mem_cons_self
  · dsimp only
    rw [Option.bind_some, ids, ← placed.numbered.length]
    exact ((Positions.idxOf?_eq_some_iff_getElem? nodup).2 last).symm
  · rintro id ⟨⟩ i message number here
    dsimp only at number here
    rw [ids] at number
    rw [TrackedContext.perform_memory, history] at here
    have same := (Positions.idxOf?_eq_some_iff_getElem? nodup).2 number
    rw [(Positions.idxOf?_eq_some_iff_getElem? nodup).2 last, Option.some.injEq] at same
    rw [← same, placed.numbered.length, List.getElem?_concat_length] at here
    cases here
    exact Bool.and_eq_true_iff.2 ⟨rfl, decide_eq_true rfl⟩

theorem Placed.finds {i : ℕ} {message : ContextMessage}
    (here : context.memory.history[i]? = some message)
    (own : message.isInjectionOf injector.injectionVariant = true) (fields : injector.Fields) :
    ({ context with injectedAt := some i, fields, placed := context.ids[i]? } :
      InjectedContext injector).Placed := by
  obtain ⟨lt, -⟩ := List.getElem?_eq_some_iff.1 here
  rw [← placed.numbered.length] at lt
  have number : context.ids[i]? = some context.ids[i] := List.getElem?_eq_getElem lt
  rw [number]
  refine ⟨placed.numbered, placed.users, ?_, ?_, ?_⟩
  · rintro id ⟨⟩
    exact placed.numbered.created _ (List.getElem_mem lt)
  · exact ((Positions.idxOf?_eq_some_iff_getElem? placed.numbered.nodup).2 number).symm
  · rintro id ⟨⟩ j message' number' here'
    have same := (Positions.idxOf?_eq_some_iff_getElem? placed.numbered.nodup).2 number'
    rw [(Positions.idxOf?_eq_some_iff_getElem? placed.numbered.nodup).2 number,
      Option.some.injEq] at same
    dsimp only at here'
    rw [← same, here] at here'
    cases here'
    exact own

theorem Placed.inject (idle : context.memory.hasOpenToolExchange = false) (call : ContextCall)
    (agent : injector.Agent) : (context.inject call agent).Placed := by
  unfold InjectedContext.inject
  dsimp only
  split
  case h_1 injection _ => exact placed.appends idle call injection _
  case h_2 silent =>
    rcases injector.assigns_of_silent silent with same | ⟨i, message, index, noIndex, here, own⟩
    · rw [if_pos same, same]
      exact ⟨placed.numbered, placed.users, placed.old, placed.position, placed.own⟩
    · rw [index, noIndex, if_neg (Option.some_ne_none i), Option.bind_some]
      exact placed.finds here own _

end

/-! ## The position in every run -/

theorem run_placed {ops : List (InjectorOp injector)} {fields : injector.Fields}
    (run : Transition.Run next Allowed { fields } ops context) : context.Placed := by
  refine run.invariant _ ?_ ?_
  · exact ⟨TrackedContext.numbered_empty, ⟨fun _ mem => (nomatch mem), fun _ mem => (nomatch mem)⟩,
      fun _ mem => (nomatch mem), rfl, fun _ mem => (nomatch mem)⟩
  · intro context op after placed allowed step
    cases step
    cases op with
    | inject call agent => exact placed.inject allowed call agent
    | context => exact placed.performContext allowed

end InjectedContext

/-- The injector may take over a reminder that it has not appended. -/
def DynamicInjector.Adopts (injector : DynamicInjector) : Prop :=
  ∃ agent history fields, (injector.getInjection agent history none fields).1 ≠ none

namespace InjectedContext

variable {injector : DynamicInjector} {context : InjectedContext injector}

/-- Without one, the index is of what has been appended. -/
theorem run_appended (own : ¬injector.Adopts) {ops : List (InjectorOp injector)}
    {fields : injector.Fields} (run : Transition.Run next Allowed { fields } ops context) :
    context.placed = context.appended := by
  refine run.invariant (fun context => context.placed = context.appended) rfl ?_
  intro context op after same _ step
  cases step
  cases op with
  | context => exact same
  | inject call agent =>
    change (context.inject call agent).placed = (context.inject call agent).appended
    unfold InjectedContext.inject
    dsimp only
    split
    case h_1 => rfl
    case h_2 silent =>
      rcases injector.assigns_of_silent silent with kept | ⟨i, -, index, noIndex, -⟩
      · dsimp only
        rw [if_pos kept, same]
      · rw [noIndex] at index
        refine absurd ⟨agent, context.memory.history, context.fields, ?_⟩ own
        rw [index]
        exact Option.some_ne_none i

/-- The index is the position of the message that is placed, and it is gone with the message; unless
the injector adopts a reminder, that message is the last one it has appended. -/
theorem injectedAt_position {ops : List (InjectorOp injector)} {fields : injector.Fields}
    (run : Transition.Run next Allowed { fields } ops context) :
    (∀ i, context.injectedAt = some i → ∃ message id, context.memory.history[i]? = some message ∧
      message.isInjectionOf injector.injectionVariant = true ∧
      context.ids[i]? = some id ∧ context.placed = some id) ∧
    (context.injectedAt = none ↔ ∀ id ∈ context.placed, id ∉ context.ids) ∧
    (¬injector.Adopts → context.placed = context.appended) := by
  have placed := run_placed run
  refine ⟨fun i here => ?_, ?_, fun own => run_appended own run⟩
  · rw [placed.position] at here
    obtain ⟨id, mem, index⟩ := Option.bind_eq_some_iff.1 here
    have number := (Positions.idxOf?_eq_some_iff_getElem? placed.numbered.nodup).1 index
    have lt := (List.getElem?_eq_some_iff.1 number).1
    rw [placed.numbered.length] at lt
    have message := List.getElem?_eq_getElem lt
    exact ⟨_, id, message, placed.own id mem i _ number message, number, mem⟩
  · rw [placed.position, Option.bind_eq_none_iff]
    exact forall₂_congr fun id _ => List.idxOf?_eq_none_iff

/-- A reminder of the plan stays when the prompt before it is undone. -/
def undonePrompt : List (InjectorOp planTrackerInjector) :=
  [.context none (.appendMessage {} (.ofText .user "hello")), .inject {} (some "1 of 2 done"),
    .context none (.undo {} 1)]

theorem injectedAt_position_undonePrompt : ∃ context,
    Transition.Run next Allowed { fields := false } undonePrompt context ∧
      context.injectedAt = some 0 ∧
      ∃ message id, context.memory.history[0]? = some message ∧
        message.isInjectionOf "plan_tracker" = true ∧
        context.ids[0]? = some id ∧ context.placed = some id := by
  obtain ⟨context, run, index⟩ : ∃ context,
      Transition.Run next Allowed { fields := false } undonePrompt context ∧
        context.injectedAt = some 0 :=
    ⟨_, .cons (fun injection => nomatch injection) rfl
      (.cons rfl rfl (.cons trivial rfl .nil)), rfl⟩
  exact ⟨context, run, index, (injectedAt_position run).1 0 index⟩

/-- `/reload` appends a reminder, and the next `inject` finds it. -/
def reloaded : List (InjectorOp pluginSessionStartInjector) :=
  [.context none (.appendMessage {} (systemReminder "reloaded" PluginSessionStartInjector.VARIANT)),
    .inject {} none]

theorem injectedAt_not_appended : ¬∀ (injector : DynamicInjector)
    (ops : List (InjectorOp injector)) (fields : injector.Fields)
    (context : InjectedContext injector), Transition.Run next Allowed { fields } ops context →
    ∀ i, context.injectedAt = some i → ∃ message id, context.memory.history[i]? = some message ∧
      message.isInjectionOf injector.injectionVariant = true ∧
      context.ids[i]? = some id ∧ context.appended = some id := by
  intro all
  obtain ⟨_, _, -, -, -, appended⟩ := all pluginSessionStartInjector reloaded () _
    (.cons (fun _ => rfl) rfl (.cons rfl rfl .nil)) 0 rfl
  cases appended

end InjectedContext

end KimiCli
