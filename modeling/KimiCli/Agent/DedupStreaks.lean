import KimiCli.Agent.DedupBatch
import KimiCli.Lib.TrailingRun

/-!
# Exact streaks

When the ids of a step are distinct, every finalization settles: the first call of a key is the only
one that is executed, the others get its result, and the streak of an original call is the length of
the run of equal keys that ends at it, over all the steps of the turn.
-/

namespace KimiCli

/-- The keys of the calls, in the order of their registration. -/
def dedupKeys (calls : List DedupCall) : List String := calls.map DedupCall.key

/-! ## The carried key and count -/

namespace Consecutive

/-- The run at the end of these keys. -/
def ofKeys (keys : List String) : Consecutive := ⟨keys.getLast?, trailingRun keys⟩

theorem ofKeys_concat (keys : List String) (key : String) :
    (ofKeys keys).next key = ofKeys (keys ++ [key]) := by
  rw [next, ofKeys, ofKeys, trailingRun_concat, List.getLast?_concat]
  split
  case isTrue same => rw [same]
  case isFalse => rfl

theorem foldl_next (past keys : List String) :
    keys.foldl next (ofKeys past) = ofKeys (past ++ keys) := by
  induction keys using List.reverseRecOn with
  | nil => rw [List.foldl_nil, List.append_nil]
  | append_singleton keys key ih =>
    rw [List.foldl_append, ih, List.foldl_cons, List.foldl_nil, ofKeys_concat, List.append_assoc]

end Consecutive

namespace ToolCallDeduplicator

/-! ## Steps with distinct ids -/

section Distinct

variable {calls before before' : List DedupCall} {call call' : DedupCall}
  {dedup : ToolCallDeduplicator} {past : List String} {result : ExecutableToolResult}

section

variable (distinct : (calls.map DedupCall.toolCallId).Nodup)
include distinct

theorem ids_nodup (here : before ++ [call] <+: calls) :
    call.toolCallId ∉ before.map DedupCall.toolCallId := by
  have nodup := distinct.sublist (here.sublist.map DedupCall.toolCallId)
  rw [List.map_append, List.nodup_append] at nodup
  exact fun mem => nodup.2.2 _ mem _ List.mem_cons_self rfl

theorem at_unique (here : before ++ [call] <+: calls) (here' : before' ++ [call'] <+: calls)
    (same : call.toolCallId = call'.toolCallId) : before = before' ∧ call = call' := by
  have apart {b b' : List DedupCall} {c c' : DedupCall} (at_ : b' ++ [c'] <+: calls)
      (same : c.toolCallId = c'.toolCallId) (first : b ++ [c] <+: b' ++ [c']) :
      b = b' ∧ c = c' := by
    rcases List.prefix_concat_iff.1 first with eq | earlier
    · obtain ⟨rfl, last⟩ := List.append_inj' eq rfl
      exact ⟨rfl, List.head_eq_of_cons_eq last⟩
    · exact absurd (same ▸ List.mem_map_of_mem (mem_of_at earlier)) (ids_nodup distinct at_)
  rcases List.prefix_or_prefix_of_prefix here here' with first | second
  · exact apart here' same first
  · obtain ⟨eq, eq'⟩ := apart here same.symm second
    exact ⟨eq.symm, eq'.symm⟩

theorem repeats_iff (here : before ++ [call] <+: calls) :
    Repeats calls call.toolCallId ↔ call.key ∈ dedupKeys before := by
  constructor
  · rintro ⟨before', call', here', same, mem⟩
    obtain ⟨rfl, rfl⟩ := at_unique distinct here' here same
    exact mem
  · exact fun mem => ⟨before, call, here, rfl, mem⟩

theorem lastKey_eq (mem : call ∈ calls) :
    lastKey calls call.toolCallId = some call.key := by
  cases found : calls.reverse.find? (·.toolCallId = call.toolCallId) with
  | none => exact absurd (by simp) (List.find?_eq_none.1 found call (List.mem_reverse.2 mem))
  | some last =>
    have listed : last ∈ calls := List.mem_reverse.1 (List.mem_of_find?_eq_some found)
    have same : last.toolCallId = call.toolCallId := by simpa using List.find?_some found
    rw [lastKey, found, List.inj_on_of_nodup_map distinct listed mem same]
    rfl

end

/-- Before a call whose key is not new there is an original with the key. -/
theorem exists_original (mem : call.key ∈ dedupKeys before) : ∃ earlier first,
    earlier ++ [first] <+: before ∧ first.key = call.key ∧ first.key ∉ dedupKeys earlier := by
  obtain ⟨keys, later, split, absent⟩ := List.eq_append_cons_of_mem mem
  obtain ⟨earlier, rest, rfl, rfl, tail⟩ := List.map_eq_append_iff.1 split
  obtain ⟨first, rest, rfl, same, -⟩ := List.map_eq_cons_iff.1 tail
  exact ⟨earlier, first, ⟨rest, by simp⟩, same, same ▸ absent⟩

theorem key_unique {earlier earlier' : List DedupCall} {first first' : DedupCall}
    (here : earlier ++ [first] <+: before) (new : first.key ∉ dedupKeys earlier)
    (here' : earlier' ++ [first'] <+: before) (new' : first'.key ∉ dedupKeys earlier')
    (same : first.key = first'.key) : earlier = earlier' ∧ first = first' := by
  have apart {b b' : List DedupCall} {c c' : DedupCall} (new' : c'.key ∉ dedupKeys b')
      (same : c.key = c'.key) (order : b ++ [c] <+: b' ++ [c']) : b = b' ∧ c = c' := by
    rcases List.prefix_concat_iff.1 order with eq | behind
    · obtain ⟨rfl, last⟩ := List.append_inj' eq rfl
      exact ⟨rfl, List.head_eq_of_cons_eq last⟩
    · exact absurd (same ▸ List.mem_map_of_mem (mem_of_at behind)) new'
  rcases List.prefix_or_prefix_of_prefix here here' with order | order
  · exact apart new' same order
  · obtain ⟨eq, eq'⟩ := apart new same.symm order
    exact ⟨eq.symm, eq'.symm⟩

/-- The streak of an original call. -/
abbrev runAt (past : List String) (before : List DedupCall) (call : DedupCall) : ℕ :=
  trailingRun (past ++ dedupKeys before ++ [call.key])

/-- What is tracked for a call with this streak. -/
def trackedAt (streak : ℕ) (call : DedupCall) : Option ToolCallRepeat :=
  if 2 ≤ streak then
    some
      { toolName := call.toolName, repeatCount := streak
        action := (remind streak call.toolName call.finalArgs call.result).2 }
  else none

theorem streak_registered (carried : dedup.consecutive = Consecutive.ofKeys past)
    (here : before ++ [call] <+: calls) :
    (dedup.registered calls).streak before.length = runAt past before call := by
  have reg := registered_checkAll dedup calls
  obtain ⟨rest, rfl⟩ := here
  have length : before.length + 1 = (before.map DedupCall.key ++ [call.key]).length := by simp
  rw [streak, reg.stepCalls, reg.consecutive, carried, List.map_append, List.map_append,
    List.map_singleton, length, List.take_left, Consecutive.foldl_next, ← List.append_assoc]
  rfl

theorem outcome_original (distinct : (calls.map DedupCall.toolCallId).Nodup)
    (carried : dedup.consecutive = Consecutive.ofKeys past) (here : before ++ [call] <+: calls)
    (new : call.key ∉ dedupKeys before) {tracked : Option ToolCallRepeat}
    (outcome : Outcome (dedup.registered calls) calls before call result tracked) :
    result = (remind (runAt past before call) call.toolName call.finalArgs call.result).1 ∧
      tracked = trackedAt (runAt past before call) call := by
  cases outcome with
  | again seen => exact absurd seen (ids_nodup distinct here)
  | duplicate _ repeats => exact absurd ((repeats_iff distinct here).1 repeats) new
  | @original index _ _ found =>
    obtain ⟨before', call', here', same, rfl⟩ :=
      (registered_checkAll dedup calls).index _ _ found
    obtain ⟨rfl, rfl⟩ := at_unique distinct here' here same
    rw [streak_registered carried here]
    exact ⟨rfl, rfl⟩

theorem outcome_duplicate (distinct : (calls.map DedupCall.toolCallId).Nodup)
    (carried : dedup.consecutive = Consecutive.ofKeys past) (here : before ++ [call] <+: calls)
    (old : call.key ∈ dedupKeys before) {tracked : Option ToolCallRepeat}
    (outcome : Outcome (dedup.registered calls) calls before call result tracked) :
    tracked = none ∧ ∀ earlier first, earlier ++ [first] <+: before → first.key = call.key →
      first.key ∉ dedupKeys earlier → result =
        (remind (runAt past earlier first) first.toolName first.finalArgs first.result).1 := by
  have repeats := (repeats_iff distinct here).2 old
  cases outcome with
  | again seen => exact absurd seen (ids_nodup distinct here)
  | original _ fresh => exact absurd repeats fresh
  | @duplicate key _ _ _ last resolved =>
    refine ⟨rfl, fun earlier first there same new => ?_⟩
    obtain ⟨earlier', first', index, there', -, fresh', last', found, rfl⟩ := resolved
    have part : before <+: calls := (List.prefix_append _ _).trans here
    obtain ⟨before', call', here', same', rfl⟩ :=
      (registered_checkAll dedup calls).index _ _ found
    obtain ⟨rfl, rfl⟩ := at_unique distinct here' (there'.trans part) same'
    rw [lastKey_eq distinct (mem_of_at (there'.trans part))] at last'
    rw [lastKey_eq distinct (mem_of_at here), ← last'] at last
    have new' : call'.key ∉ dedupKeys before' := fun mem =>
      fresh' ((repeats_iff distinct here').2 mem)
    obtain ⟨rfl, rfl⟩ := key_unique there' new' there new
      ((Option.some.inj last).symm.trans same.symm)
    rw [streak_registered carried here']

theorem settles_of_distinct (distinct : (calls.map DedupCall.toolCallId).Nodup)
    (here : before ++ [call] <+: calls) : Settles calls before call := by
  intro _ repeats
  obtain ⟨earlier, first, there, same, new⟩ :=
    exists_original ((repeats_iff distinct here).1 repeats)
  have at_ : earlier ++ [first] <+: calls := there.trans ((List.prefix_append _ _).trans here)
  refine ⟨first, mem_of_at there, fun again => new ((repeats_iff distinct at_).1 again), ?_⟩
  rw [lastKey_eq distinct (mem_of_at at_), lastKey_eq distinct (mem_of_at here), same]

/-! ## Steps and turns -/

/-- What the calls of a step come to, the keys of the steps before it being `past`. -/
def ExactStep (past : List String) (calls : List DedupCall) (outcomes : List CallOutcome) : Prop :=
  outcomes.length = calls.length ∧ ∀ before call, before ++ [call] <+: calls →
    ∃ outcome ∈ outcomes[before.length]?,
      (call.key ∉ dedupKeys before →
        outcome.cached = none ∧
          outcome.final =
            (remind (runAt past before call) call.toolName call.finalArgs call.result).1 ∧
          outcome.tracked = trackedAt (runAt past before call) call) ∧
      (call.key ∈ dedupKeys before →
        outcome.cached = some dedupPlaceholderResult ∧ outcome.tracked = none ∧
          ∀ earlier first, earlier ++ [first] <+: before → first.key = call.key →
            first.key ∉ dedupKeys earlier →
            ∃ original ∈ outcomes[earlier.length]?, outcome.final = original.final)

theorem lost_eq_nil (distinct : (calls.map DedupCall.toolCallId).Nodup)
    {done : ToolCallDeduplicator} (inv : Finalizing (dedup.registered calls) calls calls done) :
    done.lost = [] := by
  rw [lost, List.map_eq_nil_iff, List.filter_eq_nil_iff]
  rintro ⟨key, deferred⟩ mem pending
  have present := OrderedMap.mem_entries.1 mem
  obtain ⟨call, inside, rfl⟩ := List.mem_map.1 ((inv.present key).1 ⟨deferred, present⟩)
  obtain ⟨earlier, first, there, same, new⟩ :=
    exists_original (List.mem_map_of_mem (f := DedupCall.key) inside)
  have fresh : ¬Repeats calls first.toolCallId := fun again =>
    new ((repeats_iff distinct there).1 again)
  have last : lastKey calls first.toolCallId = some call.key := by
    rw [lastKey_eq distinct (mem_of_at there), same]
  obtain ⟨result, resolved⟩ :=
    (exists_resolved_iff (registered_checkAll dedup calls) (List.prefix_refl calls)).2
      ⟨first, mem_of_at there, fresh, last⟩
  have settled := (inv.resolved call.key result).2 resolved
  rw [settledTo, present, Option.bind_some, of_decide_eq_true pending] at settled
  cases settled

theorem runStep_exact (distinct : (calls.map DedupCall.toolCallId).Nodup)
    (carried : dedup.consecutive = Consecutive.ofKeys past) :
    ∃ outcomes dedup', dedup.runStep calls = some (outcomes, dedup') ∧
      dedup'.consecutive = Consecutive.ofKeys (past ++ dedupKeys calls) ∧ dedup'.lost = [] ∧
      ExactStep past calls outcomes := by
  have reg := registered_checkAll dedup calls
  obtain ⟨⟨finals, done⟩, run⟩ := Option.isSome_iff_exists.1
    ((batch_settles_iff dedup calls).2 fun before call here => settles_of_distinct distinct here)
  obtain ⟨inv, length, each⟩ :=
    finalizeAll_some reg calls reg.finalizing (List.nil_append _) run
  obtain ⟨cachedLength, cached⟩ := checkAll_cached dedup calls
  let outcomes : List CallOutcome := (dedup.beginStep.checkAll calls).1.zipWith
    (fun cached final => ⟨cached, final.1, final.2⟩) finals
  -- the outcome of a call, read back from the two loops
  have at_ (before : List DedupCall) (call : DedupCall) (here : before ++ [call] <+: calls) :
      ∃ final tracked, Outcome (dedup.registered calls) calls before call final tracked ∧
        outcomes[before.length]? = some
          ⟨if call.key ∈ dedupKeys before then some dedupPlaceholderResult else none,
            final, tracked⟩ := by
    obtain ⟨final, found, outcome⟩ := each before call here
    refine ⟨final.1, final.2, outcome, ?_⟩
    rw [List.getElem?_zipWith, cached before call here, found]
    rfl
  have ran : dedup.runStep calls = some (outcomes, done.endStep) := by
    rw [runStep, run]
    rfl
  have settled : done.lost = [] := lost_eq_nil distinct inv
  refine ⟨outcomes, done.endStep, ran, ?_, settled, ?_, fun before call here => ?_⟩
  · rw [endStep, inv.stepCalls, reg.stepCalls, inv.consecutive, reg.consecutive, carried]
    exact Consecutive.foldl_next past _
  · rw [List.length_zipWith, cachedLength, length, Nat.min_self]
  · obtain ⟨final, tracked, outcome, found⟩ := at_ before call here
    refine ⟨_, found, fun new => ?_, fun old => ?_⟩
    · exact ⟨if_neg new, outcome_original distinct carried here new outcome⟩
    · obtain ⟨silent, shared⟩ := outcome_duplicate distinct carried here old outcome
      refine ⟨if_pos old, silent, fun earlier first there same new => ?_⟩
      have inside := there.trans ((List.prefix_append _ _).trans here)
      obtain ⟨original, _, firstOutcome, foundFirst⟩ := at_ earlier first inside
      refine ⟨_, foundFirst, ?_⟩
      rw [shared earlier first there same new,
        (outcome_original distinct carried inside new firstOutcome).1]

/-- What every step of a turn comes to, the keys of the steps before them being `past`. -/
def ExactTurn (past : List String) (steps : List (List DedupCall))
    (outcomes : List (List CallOutcome)) : Prop :=
  outcomes.length = steps.length ∧ ∀ before calls, before ++ [calls] <+: steps →
    ∃ step ∈ outcomes[before.length]?, ExactStep (past ++ before.flatMap dedupKeys) calls step

theorem runSteps_from (steps : List (List DedupCall))
    (distinct : ∀ calls ∈ steps, (calls.map DedupCall.toolCallId).Nodup)
    (carried : dedup.consecutive = Consecutive.ofKeys past) :
    ∃ outcomes dedup', dedup.runSteps steps = some (outcomes, dedup') ∧
      ExactTurn past steps outcomes := by
  induction steps generalizing past dedup with
  | nil =>
    refine ⟨[], dedup, rfl, rfl, fun before calls here => ?_⟩
    exact absurd (List.prefix_nil.1 here) (by simp)
  | cons calls steps ih =>
    obtain ⟨first, dedup', run, carried', -, exactFirst⟩ :=
      runStep_exact (distinct calls List.mem_cons_self) carried
    obtain ⟨rest, dedup'', runRest, length, each⟩ :=
      ih (fun calls mem => distinct calls (List.mem_cons_of_mem _ mem)) carried'
    refine ⟨first :: rest, dedup'', ?_, by simp [length], fun before other here => ?_⟩
    · rw [runSteps, run]
      simp only [Option.bind_some, runRest, Option.map_some]
    · cases before with
      | nil =>
        obtain rfl := (List.cons_prefix_cons.1 here).1
        exact ⟨first, rfl, by simpa using exactFirst⟩
      | cons head before =>
        obtain ⟨rfl, behind⟩ := List.cons_prefix_cons.1 here
        obtain ⟨step, found, exactRest⟩ := each before other behind
        refine ⟨step, found, ?_⟩
        rwa [List.flatMap_cons, ← List.append_assoc]

end Distinct

/-- In a turn whose steps have distinct ids every finalization settles.  The first call of a key in
its step is the only one that is executed, every later one gets its final result, and what the
first one gets depends on its own result and on the length of the run of equal keys that ends at it
in the concatenation of all steps. -/
theorem runSteps_exact (steps : List (List DedupCall))
    (distinct : ∀ calls ∈ steps, (calls.map DedupCall.toolCallId).Nodup) :
    ∃ outcomes dedup, runSteps {} steps = some (outcomes, dedup) ∧
      outcomes.length = steps.length ∧ ∀ before calls, before ++ [calls] <+: steps →
        ∃ step ∈ outcomes[before.length]?, ExactStep (before.flatMap dedupKeys) calls step := by
  have fresh : ({} : ToolCallDeduplicator).consecutive = Consecutive.ofKeys [] := rfl
  obtain ⟨outcomes, dedup, run, length, each⟩ := runSteps_from steps distinct fresh
  exact ⟨outcomes, dedup, run, length, each⟩

/-- The same call in three steps, twice in the last. -/
def readThrice : List (List DedupCall) :=
  let call (id : String) : DedupCall :=
    { toolCallId := id, toolName := "Read", args := .object [], finalArgs := .object []
      result := { output := .inl "text" } }
  [[call "a"], [call "b"], [call "c", call "d"]]

theorem runSteps_readThrice : ∃ outcomes dedup, runSteps {} readThrice = some (outcomes, dedup) ∧
    outcomes.length = 3 ∧ ∀ before calls, before ++ [calls] <+: readThrice →
      ∃ step ∈ outcomes[before.length]?, ExactStep (before.flatMap dedupKeys) calls step :=
  runSteps_exact readThrice (by decide)

example : (runSteps {} readThrice).map (·.1.map (·.map (·.tracked.map (·.action)))) =
    some [[none], [some .none], [some .r1, none]] := by
  decide

end ToolCallDeduplicator

end KimiCli
