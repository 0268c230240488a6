import KimiCli.Agent.ToolDedup

/-!
# When a batch of deduplicated calls settles

The ids of the calls come from the model and may repeat.  What registration leaves in the books and
what each finalization changes is stated for any list of calls; a batch settles exactly when every
id that counts as a duplicate comes after an original with the same key.
-/

namespace KimiCli

namespace ToolCallDeduplicator

/-! ## What is registered -/

/-- Some call with this id repeats the key of a call before it. -/
def Repeats (calls : List DedupCall) (id : String) : Prop :=
  ∃ before call, before ++ [call] <+: calls ∧ call.toolCallId = id ∧
    call.key ∈ before.map DedupCall.key

/-- The key of the last call with this id. -/
def lastKey (calls : List DedupCall) (id : String) : Option String :=
  (calls.reverse.find? (·.toolCallId = id)).map DedupCall.key

/-- The books after the calls have been registered from empty ones. -/
structure Registered (consecutive : Consecutive) (calls : List DedupCall)
    (dedup : ToolCallDeduplicator) : Prop where
  stepCalls : dedup.stepCalls = calls.map DedupCall.key
  consecutive : dedup.consecutive = consecutive
  called : ∀ id, dedup.callKeyByCallId.get id = lastKey calls id
  synthetic : ∀ id, id ∈ dedup.syntheticCallIds ↔ Repeats calls id
  deferred : ∀ key, dedup.stepDeferreds.get key =
    if key ∈ calls.map DedupCall.key then some {} else none
  index : ∀ id index, dedup.originalCallIndex.get id = some index →
    ∃ before call, before ++ [call] <+: calls ∧ call.toolCallId = id ∧ before.length = index
  indexed : ∀ call ∈ calls, ¬Repeats calls call.toolCallId →
    ∃ index, dedup.originalCallIndex.get call.toolCallId = some index

variable {calls before : List DedupCall} {call : DedupCall} {id key : String}
  {dedup : ToolCallDeduplicator} {consecutive : Consecutive}

theorem mem_of_at (here : before ++ [call] <+: calls) : call ∈ calls :=
  here.subset (List.mem_append_right _ List.mem_cons_self)

theorem repeats_concat : Repeats (calls ++ [call]) id ↔
    Repeats calls id ∨ call.toolCallId = id ∧ call.key ∈ calls.map DedupCall.key := by
  constructor
  · rintro ⟨before, other, here, same, mem⟩
    rcases List.prefix_concat_iff.1 here with eq | earlier
    · obtain ⟨rfl, last⟩ := List.append_inj' eq rfl
      obtain rfl := List.head_eq_of_cons_eq last
      exact .inr ⟨same, mem⟩
    · exact .inl ⟨before, other, earlier, same, mem⟩
  · rintro (⟨before, other, here, same, mem⟩ | ⟨same, mem⟩)
    · exact ⟨before, other, here.trans (List.prefix_append _ _), same, mem⟩
    · exact ⟨calls, call, List.prefix_refl _, same, mem⟩

theorem lastKey_concat : lastKey (calls ++ [call]) id =
    if call.toolCallId = id then some call.key else lastKey calls id := by
  rw [lastKey, List.reverse_append, List.reverse_singleton, List.singleton_append, List.find?_cons]
  by_cases same : call.toolCallId = id
  · rw [if_pos same, decide_eq_true same]
    rfl
  · rw [if_neg same, decide_eq_false same]
    rfl

theorem lastKey_of_mem (mem : call ∈ calls) :
    ∃ key ∈ calls.map DedupCall.key, lastKey calls call.toolCallId = some key := by
  cases found : calls.reverse.find? (·.toolCallId = call.toolCallId) with
  | none => exact absurd (by simp) (List.find?_eq_none.1 found call (List.mem_reverse.2 mem))
  | some last =>
    have listed : last ∈ calls := List.mem_reverse.1 (List.mem_of_find?_eq_some found)
    refine ⟨last.key, List.mem_map_of_mem listed, ?_⟩
    rw [lastKey, found, Option.map_some]

theorem Registered.beginStep (dedup : ToolCallDeduplicator) :
    Registered dedup.consecutive [] dedup.beginStep where
  stepCalls := rfl
  consecutive := rfl
  called _ := rfl
  synthetic id := by
    refine iff_of_false (Finset.notMem_empty id) ?_
    rintro ⟨before, call, here, -⟩
    exact absurd (List.prefix_nil.1 here) (by simp)
  deferred _ := rfl
  index _ _ found := nomatch found
  indexed _ mem := nomatch mem

theorem checkSameStep_eq (dedup : ToolCallDeduplicator) (call : DedupCall) :
    dedup.checkSameStep call.toolCallId call.toolName call.args =
      let registered := { dedup with
        stepCalls := dedup.stepCalls ++ [call.key]
        callKeyByCallId := dedup.callKeyByCallId.set call.toolCallId call.key }
      match dedup.stepDeferreds.get call.key with
      | some _ =>
        (some dedupPlaceholderResult,
          { registered with syntheticCallIds := insert call.toolCallId dedup.syntheticCallIds })
      | none =>
        (none,
          { registered with
            stepDeferreds := dedup.stepDeferreds.set call.key {}
            originalCallIndex :=
              dedup.originalCallIndex.set call.toolCallId dedup.stepCalls.length }) := rfl

theorem Registered.checkSameStep (reg : Registered consecutive calls dedup) (call : DedupCall) :
    Registered consecutive (calls ++ [call])
        (dedup.checkSameStep call.toolCallId call.toolName call.args).2 ∧
      (dedup.checkSameStep call.toolCallId call.toolName call.args).1 =
        if call.key ∈ calls.map DedupCall.key then some dedupPlaceholderResult else none := by
  have called (id : String) : (dedup.callKeyByCallId.set call.toolCallId call.key).get id =
      lastKey (calls ++ [call]) id := by
    rw [lastKey_concat]
    split
    case isTrue same => rw [← same, OrderedMap.get_set_self]
    case isFalse other => rw [OrderedMap.get_set_ne _ _ (Ne.symm other), reg.called]
  have stepCalls : dedup.stepCalls ++ [call.key] = (calls ++ [call]).map DedupCall.key := by
    rw [reg.stepCalls, List.map_append, List.map_singleton]
  have later {id : String} {index : ℕ} (found : dedup.originalCallIndex.get id = some index) :
      ∃ before other, before ++ [other] <+: calls ++ [call] ∧ other.toolCallId = id ∧
        before.length = index := by
    obtain ⟨before, other, here, same, length⟩ := reg.index id index found
    exact ⟨before, other, here.trans (List.prefix_append _ _), same, length⟩
  have keys (key : String) : key ∈ (calls ++ [call]).map DedupCall.key ↔
      key ∈ calls.map DedupCall.key ∨ key = call.key := by
    rw [List.map_append, List.map_singleton, List.mem_append, List.mem_singleton]
  have deferred := reg.deferred call.key
  rw [checkSameStep_eq]
  by_cases mem : call.key ∈ calls.map DedupCall.key
  · rw [if_pos mem] at deferred ⊢
    rw [deferred]
    refine ⟨⟨stepCalls, reg.consecutive, called, fun id => ?_, fun key => ?_,
      fun id index found => later found, fun other inside fresh => ?_⟩, rfl⟩
    · rw [Finset.mem_insert, reg.synthetic, repeats_concat, or_comm, eq_comm (a := id),
        and_iff_left mem]
    · rw [reg.deferred]
      refine if_congr ⟨fun listed => (keys key).2 (.inl listed), fun either => ?_⟩ rfl rfl
      rcases (keys key).1 either with listed | rfl
      · exact listed
      · exact mem
    · rw [repeats_concat, not_or] at fresh
      rcases List.mem_append.1 inside with listed | last
      · exact reg.indexed other listed fresh.1
      · obtain rfl := List.mem_singleton.1 last
        exact absurd ⟨rfl, mem⟩ fresh.2
  · rw [if_neg mem] at deferred ⊢
    rw [deferred]
    refine ⟨⟨stepCalls, reg.consecutive, called, fun id => ?_, fun key => ?_,
      fun id index found => ?_, fun other inside fresh => ?_⟩, rfl⟩
    · rw [reg.synthetic, repeats_concat]
      exact ⟨.inl, fun either => either.resolve_right fun last => mem last.2⟩
    · by_cases same : key = call.key
      · rw [same, OrderedMap.get_set_self, if_pos ((keys _).2 (.inr rfl))]
      · rw [OrderedMap.get_set_ne _ _ same, reg.deferred]
        refine if_congr ⟨fun listed => (keys key).2 (.inl listed), fun either => ?_⟩ rfl rfl
        exact ((keys key).1 either).resolve_right same
    · by_cases same : id = call.toolCallId
      · rw [same, OrderedMap.get_set_self] at found
        refine ⟨calls, call, List.prefix_refl _, same.symm, ?_⟩
        rw [← Option.some.inj found, reg.stepCalls, List.length_map]
      · rw [OrderedMap.get_set_ne _ _ same] at found
        exact later found
    · by_cases same : other.toolCallId = call.toolCallId
      · exact ⟨_, by rw [same, OrderedMap.get_set_self]⟩
      · rw [OrderedMap.get_set_ne _ _ same]
        rw [repeats_concat, not_or] at fresh
        refine reg.indexed other ((List.mem_append.1 inside).resolve_right fun last => ?_) fresh.1
        exact same (congrArg _ (List.mem_singleton.1 last))

theorem checkAll_append (dedup : ToolCallDeduplicator) (calls rest : List DedupCall) :
    dedup.checkAll (calls ++ rest) =
      ((dedup.checkAll calls).1 ++ ((dedup.checkAll calls).2.checkAll rest).1,
        ((dedup.checkAll calls).2.checkAll rest).2) := by
  induction calls generalizing dedup with
  | nil => rfl
  | cons call calls ih =>
    simp only [List.cons_append, checkAll, ih]

theorem registered_checkAll (dedup : ToolCallDeduplicator) (calls : List DedupCall) :
    Registered dedup.consecutive calls (dedup.registered calls) := by
  induction calls using List.reverseRecOn with
  | nil => exact Registered.beginStep dedup
  | append_singleton calls call ih =>
    rw [registered, checkAll_append]
    exact (ih.checkSameStep call).1

theorem checkAll_cached (dedup : ToolCallDeduplicator) (calls : List DedupCall) :
    (dedup.beginStep.checkAll calls).1.length = calls.length ∧
      ∀ before call, before ++ [call] <+: calls →
        (dedup.beginStep.checkAll calls).1[before.length]? = some
          (if call.key ∈ before.map DedupCall.key then some dedupPlaceholderResult else none) := by
  induction calls using List.reverseRecOn with
  | nil => exact ⟨rfl, fun before call here => absurd (List.prefix_nil.1 here) (by simp)⟩
  | append_singleton calls last ih =>
    have cached := ((registered_checkAll dedup calls).checkSameStep last).2
    rw [checkAll_append]
    refine ⟨by simp [ih.1, checkAll], fun before call here => ?_⟩
    rcases List.prefix_concat_iff.1 here with eq | earlier
    · obtain ⟨rfl, same⟩ := List.append_inj' eq rfl
      obtain rfl := List.head_eq_of_cons_eq same
      rw [List.getElem?_append_right ih.1.le, ih.1, Nat.sub_self]
      exact congrArg some cached
    · have shorter : before.length < (dedup.beginStep.checkAll calls).1.length := by
        rw [ih.1]
        exact Nat.lt_of_lt_of_le (by simp) earlier.length_le
      rw [List.getElem?_append_left shorter]
      exact ih.2 before call earlier

/-! ## What is finalized -/

/-- An original call of the finalized ones settled the key of its id with this result. -/
def Resolved (registered : ToolCallDeduplicator) (calls finalized : List DedupCall) (key : String)
    (result : ExecutableToolResult) : Prop :=
  ∃ before call index, before ++ [call] <+: finalized ∧
    call.toolCallId ∉ before.map DedupCall.toolCallId ∧ ¬Repeats calls call.toolCallId ∧
    lastKey calls call.toolCallId = some key ∧
    registered.originalCallIndex.get call.toolCallId = some index ∧
    result = (remind (registered.streak index) call.toolName call.finalArgs call.result).1

/-- The books after these calls have been finalized, compared with those after registration. -/
structure Finalizing (registered : ToolCallDeduplicator) (calls finalized : List DedupCall)
    (dedup : ToolCallDeduplicator) : Prop where
  stepCalls : dedup.stepCalls = registered.stepCalls
  consecutive : dedup.consecutive = registered.consecutive
  called : ∀ id, dedup.callKeyByCallId.get id =
    if id ∈ finalized.map DedupCall.toolCallId then none else lastKey calls id
  synthetic : ∀ id, id ∈ dedup.syntheticCallIds ↔
    Repeats calls id ∧ id ∉ finalized.map DedupCall.toolCallId
  original : ∀ id, id ∉ finalized.map DedupCall.toolCallId →
    dedup.originalCallIndex.get id = registered.originalCallIndex.get id
  present : ∀ key, (∃ deferred, dedup.stepDeferreds.get key = some deferred) ↔
    key ∈ calls.map DedupCall.key
  resolved : ∀ key result, dedup.settledTo (.deferred key) = some result ↔
    Resolved registered calls finalized key result

variable {registered : ToolCallDeduplicator} {finalized : List DedupCall}
  {result : ExecutableToolResult}

theorem Registered.finalizing (reg : Registered consecutive calls registered) :
    Finalizing registered calls [] registered where
  stepCalls := rfl
  consecutive := rfl
  called id := by rw [reg.called, if_neg (by simp)]
  synthetic id := by rw [reg.synthetic, and_iff_left (by simp)]
  original _ _ := rfl
  present key := by
    rw [reg.deferred]
    split
    case isTrue mem => exact iff_of_true ⟨_, rfl⟩ mem
    case isFalse absent => exact iff_of_false (fun ⟨_, found⟩ => nomatch found) absent
  resolved key result := by
    refine iff_of_false (fun settled => ?_) ?_
    · rw [settledTo, reg.deferred] at settled
      split at settled <;> cases settled
    · rintro ⟨before, call, index, here, -⟩
      exact absurd (List.prefix_nil.1 here) (by simp)

theorem mem_ids_concat : id ∈ (finalized ++ [call]).map DedupCall.toolCallId ↔
    id ∈ finalized.map DedupCall.toolCallId ∨ id = call.toolCallId := by
  rw [List.map_append, List.map_singleton, List.mem_append, List.mem_singleton]

theorem resolved_concat : Resolved registered calls (finalized ++ [call]) key result ↔
    Resolved registered calls finalized key result ∨
      call.toolCallId ∉ finalized.map DedupCall.toolCallId ∧ ¬Repeats calls call.toolCallId ∧
        lastKey calls call.toolCallId = some key ∧
        ∃ index, registered.originalCallIndex.get call.toolCallId = some index ∧ result =
          (remind (registered.streak index) call.toolName call.finalArgs call.result).1 := by
  constructor
  · rintro ⟨before, other, index, here, first, fresh, last, found, eq⟩
    rcases List.prefix_concat_iff.1 here with same | earlier
    · obtain ⟨rfl, tail⟩ := List.append_inj' same rfl
      obtain rfl := List.head_eq_of_cons_eq tail
      exact .inr ⟨first, fresh, last, index, found, eq⟩
    · exact .inl ⟨before, other, index, earlier, first, fresh, last, found, eq⟩
  · rintro (⟨before, other, index, here, rest⟩ | ⟨first, fresh, last, index, found, eq⟩)
    · exact ⟨before, other, index, here.trans (List.prefix_append _ _), rest⟩
    · exact ⟨finalized, call, index, List.prefix_refl _, first, fresh, last, found, eq⟩

theorem not_resolved_of_original
    (first : call.toolCallId ∉ finalized.map DedupCall.toolCallId)
    (fresh : ¬Repeats calls call.toolCallId) (last : lastKey calls call.toolCallId = some key) :
    ¬Resolved registered calls finalized key result := by
  rintro ⟨before, other, index, there, -, freshOther, lastOther, -⟩
  have differ : other.toolCallId ≠ call.toolCallId := fun same =>
    first (same ▸ List.mem_map_of_mem (mem_of_at there))
  have inside {id : String} (last : lastKey calls id = some key) :
      ∃ mine ∈ calls, mine.toolCallId = id ∧ mine.key = key := by
    obtain ⟨mine, found, eq⟩ := Option.map_eq_some_iff.1 last
    exact ⟨mine, List.mem_reverse.1 (List.mem_of_find?_eq_some found),
      by simpa using List.find?_some found, eq⟩
  obtain ⟨a, inA, idA, keyA⟩ := inside last
  obtain ⟨b, inB, idB, keyB⟩ := inside lastOther
  obtain ⟨i, hi, rfl⟩ := List.getElem_of_mem inA
  obtain ⟨j, hj, rfl⟩ := List.getElem_of_mem inB
  -- the one of the two that comes later repeats the key of the other
  have later {i j : ℕ} (hi : i < calls.length) (hj : j < calls.length) (order : i < j)
      (same : calls[i].key = calls[j].key) : Repeats calls calls[j].toolCallId := by
    refine ⟨calls.take j, calls[j], ?_, rfl, ?_⟩
    · rw [List.take_append_getElem]
      exact List.take_prefix _ _
    · rw [← same]
      refine List.mem_map_of_mem (List.mem_take_iff_getElem.2 ⟨i, by omega, rfl⟩)
  rcases Nat.lt_trichotomy i j with order | rfl | order
  · exact freshOther (idB ▸ later hi hj order (keyA.trans keyB.symm))
  · exact differ (idB.symm.trans idA)
  · exact fresh (idA ▸ later hj hi order (keyB.trans keyA.symm))

theorem Finalizing.again (inv : Finalizing registered calls finalized dedup)
    (seen : call.toolCallId ∈ finalized.map DedupCall.toolCallId) :
    dedup.finalizeResult call.toolCallId call.toolName call.finalArgs call.result =
        { promise := .settled call.result, dedup } ∧
      Finalizing registered calls (finalized ++ [call]) dedup := by
  have ids (id : String) : id ∈ (finalized ++ [call]).map DedupCall.toolCallId ↔
      id ∈ finalized.map DedupCall.toolCallId := by
    rw [mem_ids_concat]
    refine ⟨fun either => ?_, .inl⟩
    rcases either with mem | rfl
    · exact mem
    · exact seen
  refine ⟨?_, inv.stepCalls, inv.consecutive, fun id => ?_, fun id => ?_, fun id absent => ?_,
    inv.present, fun key result => ?_⟩
  · rw [finalizeResult, inv.called, if_pos seen]
  · rw [inv.called]
    exact if_congr (ids id).symm rfl rfl
  · rw [inv.synthetic, ids]
  · exact inv.original id fun mem => absent ((ids id).2 mem)
  · rw [inv.resolved, resolved_concat]
    exact ⟨.inl, fun either => either.resolve_right fun new => new.1 seen⟩

theorem Finalizing.called_delete (inv : Finalizing registered calls finalized dedup) (id : String) :
    (dedup.callKeyByCallId.delete call.toolCallId).get id =
      if id ∈ (finalized ++ [call]).map DedupCall.toolCallId then none else lastKey calls id := by
  by_cases same : id = call.toolCallId
  · rw [same, OrderedMap.get_delete_self, if_pos (mem_ids_concat.2 (.inr rfl))]
  · rw [OrderedMap.get_delete_ne _ same, inv.called]
    refine if_congr ⟨fun mem => mem_ids_concat.2 (.inl mem), fun mem => ?_⟩ rfl rfl
    exact (mem_ids_concat.1 mem).resolve_right same

theorem Finalizing.duplicate (inv : Finalizing registered calls finalized dedup)
    (mem : call ∈ calls) (first : call.toolCallId ∉ finalized.map DedupCall.toolCallId)
    (repeats : Repeats calls call.toolCallId) :
    ∃ key dedup', lastKey calls call.toolCallId = some key ∧
      dedup.finalizeResult call.toolCallId call.toolName call.finalArgs call.result =
        { promise := .deferred key, dedup := dedup' } ∧
      Finalizing registered calls (finalized ++ [call]) dedup' ∧
      ∀ result, dedup'.settledTo (.deferred key) = some result ↔
        Resolved registered calls finalized key result := by
  obtain ⟨key, listed, last⟩ := lastKey_of_mem mem
  obtain ⟨deferred, present⟩ := (inv.present key).2 listed
  let dedup' := { dedup with
    callKeyByCallId := dedup.callKeyByCallId.delete call.toolCallId
    syntheticCallIds := dedup.syntheticCallIds.erase call.toolCallId }
  refine ⟨key, dedup', last, ?_, ⟨inv.stepCalls, inv.consecutive, inv.called_delete, fun id => ?_,
    fun id absent => ?_, inv.present, fun key result => ?_⟩, inv.resolved key⟩
  · rw [finalizeResult, inv.called, if_neg first, last]
    dsimp only
    rw [if_pos ((inv.synthetic _).2 ⟨repeats, first⟩), present]
  · rw [Finset.mem_erase, inv.synthetic, mem_ids_concat, not_or, and_comm, and_assoc]
  · exact inv.original id fun mem => absent (mem_ids_concat.2 (.inl mem))
  · rw [resolved_concat]
    exact (inv.resolved key result).trans
      ⟨.inl, fun either => either.resolve_right fun new => new.2.1 repeats⟩

theorem Finalizing.original_call (reg : Registered consecutive calls registered)
    (inv : Finalizing registered calls finalized dedup) (mem : call ∈ calls)
    (first : call.toolCallId ∉ finalized.map DedupCall.toolCallId)
    (fresh : ¬Repeats calls call.toolCallId) :
    ∃ index dedup', registered.originalCallIndex.get call.toolCallId = some index ∧
      dedup.finalizeResult call.toolCallId call.toolName call.finalArgs call.result =
        { promise := .settled
            (remind (registered.streak index) call.toolName call.finalArgs call.result).1
          tracked :=
            if 2 ≤ registered.streak index then
              some
                { toolName := call.toolName, repeatCount := registered.streak index
                  action :=
                    (remind (registered.streak index) call.toolName call.finalArgs call.result).2 }
            else none
          dedup := dedup' } ∧
      Finalizing registered calls (finalized ++ [call]) dedup' := by
  obtain ⟨key, listed, last⟩ := lastKey_of_mem mem
  obtain ⟨index, found⟩ := reg.indexed call mem fresh
  obtain ⟨deferred, present⟩ := (inv.present key).2 listed
  have pending : deferred.value = none := by
    refine Option.eq_none_iff_forall_ne_some.2 fun result settled => ?_
    refine not_resolved_of_original first fresh last ((inv.resolved key result).1 ?_)
    rw [settledTo, present]
    exact settled
  let final := remind (registered.streak index) call.toolName call.finalArgs call.result
  let dedup' : ToolCallDeduplicator :=
    { stepDeferreds := dedup.stepDeferreds.set key (deferred.resolve final.1)
      stepCalls := registered.stepCalls
      originalCallIndex := dedup.originalCallIndex.delete call.toolCallId
      syntheticCallIds := dedup.syntheticCallIds
      callKeyByCallId := dedup.callKeyByCallId.delete call.toolCallId
      consecutive := registered.consecutive }
  refine ⟨index, dedup', found, ?_, ⟨rfl, rfl, inv.called_delete, fun id => ?_,
    fun id absent => ?_, fun other => ?_, fun other result => ?_⟩⟩
  · rw [finalizeResult, inv.called, if_neg first, last]
    dsimp only
    rw [if_neg fun mem => fresh ((inv.synthetic _).1 mem).1, inv.original _ first, found]
    simp only [resolve, present, streak, inv.stepCalls, inv.consecutive]
    rfl
  · rw [inv.synthetic, mem_ids_concat, not_or]
    refine and_congr_right fun repeats => (and_iff_left ?_).symm
    rintro rfl
    exact fresh repeats
  · rw [mem_ids_concat, not_or] at absent
    rw [← inv.original id absent.1]
    exact OrderedMap.get_delete_ne _ absent.2
  · by_cases same : other = key
    · rw [same, OrderedMap.get_set_self]
      exact iff_of_true ⟨_, rfl⟩ listed
    · rw [OrderedMap.get_set_ne _ _ same]
      exact inv.present other
  · rw [resolved_concat, settledTo]
    by_cases same : other = key
    · rw [same, OrderedMap.get_set_self, Option.bind_some, Deferred.resolve, pending]
      constructor
      · intro settled
        exact .inr ⟨first, fresh, last, index, found, (Option.some.inj settled).symm⟩
      · rintro (old | ⟨-, -, -, index', found', rfl⟩)
        · exact absurd old (not_resolved_of_original first fresh last)
        · cases found.symm.trans found'
          rfl
    · rw [OrderedMap.get_set_ne _ _ same]
      refine (inv.resolved other result).trans ⟨.inl, fun either => either.resolve_right ?_⟩
      rintro ⟨-, -, last', -⟩
      exact same (Option.some.inj (last'.symm.trans last))

/-! ## One finalization -/

/-- What the finalization of a call gives, by what its id was at registration. -/
inductive Outcome (registered : ToolCallDeduplicator) (calls before : List DedupCall)
    (call : DedupCall) : ExecutableToolResult → Option ToolCallRepeat → Prop
  | again (seen : call.toolCallId ∈ before.map DedupCall.toolCallId) :
      Outcome registered calls before call call.result none
  | duplicate {key : String} {result : ExecutableToolResult}
      (first : call.toolCallId ∉ before.map DedupCall.toolCallId)
      (repeats : Repeats calls call.toolCallId)
      (last : lastKey calls call.toolCallId = some key)
      (resolved : Resolved registered calls before key result) :
      Outcome registered calls before call result none
  | original {index : ℕ} (first : call.toolCallId ∉ before.map DedupCall.toolCallId)
      (fresh : ¬Repeats calls call.toolCallId)
      (found : registered.originalCallIndex.get call.toolCallId = some index) :
      Outcome registered calls before call
        (remind (registered.streak index) call.toolName call.finalArgs call.result).1
        (if 2 ≤ registered.streak index then
          some
            { toolName := call.toolName, repeatCount := registered.streak index
              action :=
                (remind (registered.streak index) call.toolName call.finalArgs call.result).2 }
        else none)

/-- The promise of a call settles: if it is the first call with the id of a duplicate, the calls
before it have an original id with the same last key. -/
def Settles (calls before : List DedupCall) (call : DedupCall) : Prop :=
  call.toolCallId ∉ before.map DedupCall.toolCallId → Repeats calls call.toolCallId →
    ∃ original ∈ before, ¬Repeats calls original.toolCallId ∧
      lastKey calls original.toolCallId = lastKey calls call.toolCallId

theorem exists_first {l : List DedupCall} (mem : call ∈ l) : ∃ before first,
    before ++ [first] <+: l ∧ first.toolCallId = call.toolCallId ∧
      first.toolCallId ∉ before.map DedupCall.toolCallId := by
  obtain ⟨ids, later, split, absent⟩ :=
    List.eq_append_cons_of_mem (List.mem_map_of_mem (f := DedupCall.toolCallId) mem)
  obtain ⟨before, rest, rfl, rfl, tail⟩ := List.map_eq_append_iff.1 split
  obtain ⟨first, rest, rfl, same, -⟩ := List.map_eq_cons_iff.1 tail
  exact ⟨before, first, ⟨rest, by simp⟩, same, same ▸ absent⟩

theorem exists_resolved_iff (reg : Registered consecutive calls registered)
    (part : finalized <+: calls) : (∃ result, Resolved registered calls finalized key result) ↔
      ∃ original ∈ finalized, ¬Repeats calls original.toolCallId ∧
        lastKey calls original.toolCallId = some key := by
  constructor
  · rintro ⟨result, before, call, index, here, -, fresh, last, -⟩
    exact ⟨call, mem_of_at here, fresh, last⟩
  · rintro ⟨original, mem, fresh, last⟩
    obtain ⟨before, call, here, same, first⟩ := exists_first mem
    rw [← same] at fresh last
    obtain ⟨index, found⟩ := reg.indexed call (part.subset (mem_of_at here)) fresh
    exact ⟨_, before, call, index, here, first, fresh, last, found, rfl⟩

theorem Finalizing.finalizeResult (reg : Registered consecutive calls registered)
    (inv : Finalizing registered calls finalized dedup) (here : finalized ++ [call] <+: calls) :
    ∃ promise tracked dedup',
      dedup.finalizeResult call.toolCallId call.toolName call.finalArgs call.result =
        { promise, tracked, dedup := dedup' } ∧
      Finalizing registered calls (finalized ++ [call]) dedup' ∧
      ((∃ result, dedup'.settledTo promise = some result) ↔ Settles calls finalized call) ∧
      ∀ result, dedup'.settledTo promise = some result →
        Outcome registered calls finalized call result tracked := by
  have mem := mem_of_at here
  by_cases seen : call.toolCallId ∈ finalized.map DedupCall.toolCallId
  · obtain ⟨eq, inv'⟩ := inv.again seen
    refine ⟨_, _, _, eq, inv', iff_of_true ⟨_, rfl⟩ fun first => absurd seen first, ?_⟩
    rintro result ⟨⟩
    exact .again seen
  by_cases repeats : Repeats calls call.toolCallId
  · obtain ⟨key, dedup', last, eq, inv', settled⟩ := inv.duplicate mem seen repeats
    refine ⟨_, _, dedup', eq, inv', ?_, fun result resolved =>
      .duplicate seen repeats last ((settled result).1 resolved)⟩
    simp only [settled, Settles, last]
    rw [exists_resolved_iff reg ((List.prefix_append _ _).trans here)]
    exact ⟨fun found _ _ => found, fun settles => settles seen repeats⟩
  · obtain ⟨index, dedup', found, eq, inv'⟩ := inv.original_call reg mem seen repeats
    refine ⟨_, _, dedup', eq, inv', iff_of_true ⟨_, rfl⟩ fun _ no => absurd no repeats, ?_⟩
    rintro result ⟨⟩
    exact .original seen repeats found

/-! ## The batch -/

/-- A position that is not before the next call is at it or behind it. -/
theorem prefix_cases {next : DedupCall} {rest : List DedupCall} (there : finalized <+: before)
    (here : before ++ [call] <+: finalized ++ next :: rest) :
    before = finalized ∧ call = next ∨ finalized ++ [next] <+: before := by
  obtain ⟨between, rfl⟩ := there
  rw [List.append_assoc, List.prefix_append_right_inj] at here
  cases between with
  | nil => exact .inl ⟨List.append_nil _, (List.cons_prefix_cons.1 here).1⟩
  | cons other between =>
    obtain rfl := (List.cons_prefix_cons.1 here).1
    exact .inr ⟨between, by simp⟩

theorem finalizeAll_isSome (reg : Registered consecutive calls registered) (rest : List DedupCall)
    (inv : Finalizing registered calls finalized dedup) (split : finalized ++ rest = calls) :
    (dedup.finalizeAll rest).isSome = true ↔ ∀ before call, before ++ [call] <+: calls →
      finalized <+: before → Settles calls before call := by
  induction rest generalizing finalized dedup with
  | nil =>
    refine iff_of_true rfl fun before call here there => ?_
    rw [List.append_nil] at split
    have long := (there.trans (List.prefix_append before [call])).length_le
    have short := here.length_le
    have shorter := there.length_le
    rw [← split, List.length_append, List.length_singleton] at short
    omega
  | cons next rest ih =>
    have here : finalized ++ [next] <+: calls := ⟨rest, by rw [← split]; simp⟩
    have later : finalized ++ [next] ++ rest = calls := by rw [← split]; simp
    obtain ⟨promise, tracked, dedup', eq, inv', settles, -⟩ := inv.finalizeResult reg here
    have split_all : (∀ before call, before ++ [call] <+: calls → finalized <+: before →
        Settles calls before call) ↔
          Settles calls finalized next ∧ ∀ before call, before ++ [call] <+: calls →
            finalized ++ [next] <+: before → Settles calls before call := by
      constructor
      · exact fun all => ⟨all _ _ here (List.prefix_refl _), fun before call at_ there =>
          all before call at_ ((List.prefix_append _ _).trans there)⟩
      · rintro ⟨now, all⟩ before call at_ there
        rcases prefix_cases there (split ▸ at_) with ⟨rfl, rfl⟩ | behind
        · exact now
        · exact all before call at_ behind
    rw [split_all, ← settles, ← ih inv' later, finalizeAll, eq]
    cases dedup'.settledTo promise with
    | none => simp
    | some => simp

theorem finalizeAll_some (reg : Registered consecutive calls registered) (rest : List DedupCall)
    (inv : Finalizing registered calls finalized dedup) (split : finalized ++ rest = calls)
    {finals : List (ExecutableToolResult × Option ToolCallRepeat)} {dedup' : ToolCallDeduplicator}
    (done : dedup.finalizeAll rest = some (finals, dedup')) :
    Finalizing registered calls calls dedup' ∧ finals.length = rest.length ∧
      ∀ between call, finalized ++ between ++ [call] <+: calls →
        ∃ final ∈ finals[between.length]?,
          Outcome registered calls (finalized ++ between) call final.1 final.2 := by
  induction rest generalizing finalized dedup finals with
  | nil =>
    obtain ⟨rfl, rfl⟩ := Prod.ext_iff.1 (Option.some.inj done)
    rw [List.append_nil] at split
    refine ⟨split ▸ inv, rfl, fun between call here => ?_⟩
    have short := here.length_le
    rw [← split, List.length_append, List.length_append, List.length_singleton] at short
    omega
  | cons next rest ih =>
    have here : finalized ++ [next] <+: calls := ⟨rest, by rw [← split]; simp⟩
    have later : finalized ++ [next] ++ rest = calls := by rw [← split]; simp
    obtain ⟨promise, tracked, middle, eq, inv', -, outcome⟩ := inv.finalizeResult reg here
    rw [finalizeAll, eq] at done
    dsimp only at done
    cases settled : middle.settledTo promise with
    | none => rw [settled] at done; cases done
    | some final =>
      rw [settled] at done
      obtain ⟨⟨others, last⟩, run, same⟩ := Option.map_eq_some_iff.1 done
      obtain ⟨rfl, rfl⟩ := Prod.ext_iff.1 same
      obtain ⟨inv'', length, each⟩ := ih inv' later run
      refine ⟨inv'', by simp [length], fun between call at_ => ?_⟩
      cases between with
      | nil =>
        rw [← split, List.append_nil, List.prefix_append_right_inj] at at_
        obtain rfl := (List.cons_prefix_cons.1 at_).1
        rw [List.append_nil]
        exact ⟨(final, tracked), rfl, outcome final settled⟩
      | cons other between =>
        have tail := at_
        rw [← split, List.append_assoc, List.prefix_append_right_inj] at tail
        obtain rfl := (List.cons_prefix_cons.1 tail).1
        rw [List.length_cons, List.getElem?_cons_succ, List.append_cons]
        exact each between call (by rwa [← List.append_cons])

/-- Whatever came before it, a batch settles exactly when each duplicate id comes after an original
with its last key. -/
theorem batch_settles_iff (dedup : ToolCallDeduplicator) (calls : List DedupCall) :
    ((dedup.registered calls).finalizeAll calls).isSome = true ↔
      ∀ before call, before ++ [call] <+: calls → Settles calls before call := by
  have reg := registered_checkAll dedup calls
  rw [finalizeAll_isSome reg calls reg.finalizing (List.nil_append _)]
  exact ⟨fun all before call here => all before call here List.nil_prefix,
    fun all before call here _ => all before call here⟩

/-- Two calls with one id and the same arguments: the only original waits for itself. -/
def sameCallTwice : List DedupCall :=
  let call : DedupCall :=
    { toolCallId := "call_0", toolName := "Read", args := .object [], finalArgs := .object []
      result := { output := .inl "text" } }
  [call, call]

theorem batch_blocked : ¬∀ (dedup : ToolCallDeduplicator) (calls : List DedupCall),
    ((dedup.registered calls).finalizeAll calls).isSome = true := by
  intro always
  exact absurd (always {} sameCallTwice) (by decide)

end ToolCallDeduplicator

end KimiCli
