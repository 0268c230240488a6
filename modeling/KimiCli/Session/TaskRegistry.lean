import KimiCli.Js.Text
import KimiCli.Lib.OrderedPass
import KimiCli.Lib.Run
import Mathlib.Data.List.Induction
import Mathlib.Logic.Relation

/-!
# The session's task registry

`session/task-registry.ts`: tasks with dependencies, whose statuses are recomputed in one pass over
the map whenever a task is created, deleted or given a status.  What the registry tells
`OrchestrationHooks`, and its file, are left out.  A status may be `undefined`, because `update`
spreads the properties it is given.
-/

namespace KimiCli.TaskRegistry

open Transition

inductive TaskStatus
  | pending
  | inProgress
  | completed
  | failed
  | blocked
  deriving DecidableEq

structure Task where
  id : String
  title : Option String
  description : Option String
  assignee : Option String
  status : Option TaskStatus
  dependencies : List String
  createdAt : ℕ
  updatedAt : ℕ
  result : Option String := none
  deriving DecidableEq

/-- What `Date.now()` gives in the course of a call; `rewrites` is for the tasks rewritten by a
recomputation. -/
structure Readings where
  stamp : ℕ
  createdAt : ℕ
  updatedAt : ℕ
  rewrites : String → ℕ

structure TaskOptions where
  description : Option String := none
  assignee : Option String := none
  dependencies : List String := []

/-- The properties given to `update`: absent, `undefined`, or a value. -/
structure TaskUpdates where
  title : Option (Option String) := none
  description : Option (Option String) := none
  assignee : Option (Option String) := none
  status : Option (Option TaskStatus) := none
  result : Option (Option String) := none

def isBlocked (get : String → Option Task) (dependencies : List String) : Bool :=
  dependencies.any fun depId =>
    match get depId with
    | none => true
    | some dep => dep.status ≠ some .completed

def recomputeBlockedStatuses (rewrites : String → ℕ) (tasks : OrderedMap String Task) :
    OrderedMap String Task :=
  tasks.keys.foldl (fun tasks id =>
    match tasks.get id with
    | none => tasks
    | some task =>
      let shouldBeBlocked := isBlocked tasks.get task.dependencies
      if shouldBeBlocked ∧ task.status ≠ some .blocked then
        tasks.set id { task with status := some .blocked, updatedAt := rewrites id }
      else if !shouldBeBlocked ∧ task.status = some .blocked then
        tasks.set id { task with status := some .pending, updatedAt := rewrites id }
      else tasks) tasks

structure SessionTaskRegistry where
  tasks : OrderedMap String Task := ∅
  idCounter : ℕ := 0
  deriving DecidableEq

def taskId (idCounter stamp : ℕ) : String := s!"task_{idCounter}_{stamp}"

namespace SessionTaskRegistry

def create (s : SessionTaskRegistry) (title : String) (options : TaskOptions) (now : Readings) :
    Task × SessionTaskRegistry :=
  let idCounter := s.idCounter + 1
  let id := taskId idCounter now.stamp
  let task : Task := {
    id, title
    description := options.description
    assignee := options.assignee
    status := if isBlocked s.tasks.get options.dependencies then some .blocked else some .pending
    dependencies := options.dependencies
    createdAt := now.createdAt
    updatedAt := now.updatedAt }
  (task, { tasks := recomputeBlockedStatuses now.rewrites (s.tasks.set id task), idCounter })

/-- `{ ...existing, ...updates }` -/
def spread (existing : Task) (updates : TaskUpdates) (updatedAt : ℕ) : Task :=
  { existing with
    title := updates.title.getD existing.title
    description := updates.description.getD existing.description
    assignee := updates.assignee.getD existing.assignee
    status := updates.status.getD existing.status
    result := updates.result.getD existing.result
    updatedAt }

def update (s : SessionTaskRegistry) (id : String) (updates : TaskUpdates) (now : Readings) :
    Option Task × SessionTaskRegistry :=
  match s.tasks.get id with
  | none => (none, s)
  | some existing =>
    let updated := spread existing updates now.updatedAt
    let tasks := s.tasks.set id updated
    if updates.status.join ≠ none then
      (some updated, { s with tasks := recomputeBlockedStatuses now.rewrites tasks })
    else (some updated, { s with tasks })

def get (s : SessionTaskRegistry) (id : String) : Option Task := s.tasks.get id

def delete (s : SessionTaskRegistry) (id : String) (now : Readings) :
    Bool × SessionTaskRegistry :=
  match s.tasks.get id with
  | none => (false, s)
  | some _ =>
    (true, { s with tasks := recomputeBlockedStatuses now.rewrites (s.tasks.delete id) })

end SessionTaskRegistry

inductive TaskCall
  | create (title : String) (options : TaskOptions) (now : Readings)
  | update (id : String) (updates : TaskUpdates) (now : Readings)
  | delete (id : String) (now : Readings)

/-- One call. -/
def step (s : SessionTaskRegistry) : TaskCall → Option SessionTaskRegistry
  | .create title options now => some (s.create title options now).2
  | .update id updates now => some (s.update id updates now).2
  | .delete id now => some (s.delete id now).2

/-! ## Recomputation -/

/-- The status that a recomputation gives a task. -/
def settle (rewrites : String → ℕ) (get : String → Option Task) (id : String) (task : Task) :
    Task :=
  if isBlocked get task.dependencies then
    if task.status = some .blocked then task
    else { task with status := some .blocked, updatedAt := rewrites id }
  else if task.status = some .blocked then
    { task with status := some .pending, updatedAt := rewrites id }
  else task

section

variable {rewrites : String → ℕ} {get get' : String → Option Task} {id : String} {task : Task}
  {tasks : OrderedMap String Task}

theorem isBlocked_congr {dependencies : List String} (same : ∀ d ∈ dependencies, get d = get' d) :
    isBlocked get dependencies = isBlocked get' dependencies := by
  rw [isBlocked, isBlocked, Bool.eq_iff_iff, List.any_eq_true, List.any_eq_true]
  refine exists_congr fun d => and_congr_right fun mem => ?_
  rw [same d mem]

@[simp] theorem settle_dependencies :
    (settle rewrites get id task).dependencies = task.dependencies := by
  unfold settle
  split_ifs <;> rfl

theorem settle_status_blocked : (settle rewrites get id task).status = some .blocked ↔
    isBlocked get task.dependencies = true := by
  unfold settle
  split_ifs <;> simp_all

theorem settle_eq_self (right : task.status = some .blocked ↔
    isBlocked get task.dependencies = true) : settle rewrites get id task = task := by
  unfold settle
  split_ifs with blocked status status
  · rfl
  · exact absurd (right.2 blocked) status
  · exact absurd (right.1 status) blocked
  · rfl

theorem readsNeeds_settle : OrderedMap.ReadsNeeds (settle rewrites) Task.dependencies where
  needs_settle _ _ _ := settle_dependencies
  congr f g id task same := by
    rw [settle, settle, isBlocked_congr same]

theorem recomputeBlockedStatuses_eq_pass :
    recomputeBlockedStatuses rewrites tasks = tasks.pass (settle rewrites) := by
  rw [recomputeBlockedStatuses, OrderedMap.pass]
  congr 1
  funext tasks id
  rw [OrderedMap.visit]
  cases found : tasks.get id with
  | none => rfl
  | some =>
    have same := OrderedMap.set_get found
    simp only [settle]
    split_ifs <;> simp_all

theorem get_recompute (rewrites : String → ℕ)
    (earlier : OrderedMap.NeedsEarlier Task.dependencies tasks) (id : String) :
    (recomputeBlockedStatuses rewrites tasks).get id =
      (tasks.get id).map (settle rewrites (recomputeBlockedStatuses rewrites tasks).get id) := by
  rw [recomputeBlockedStatuses_eq_pass]
  exact readsNeeds_settle.get_pass earlier id

theorem keys_recompute : (recomputeBlockedStatuses rewrites tasks).keys = tasks.keys := by
  rw [recomputeBlockedStatuses_eq_pass]
  exact OrderedMap.keys_pass tasks

end

/-! ## The registry -/

/-- Every dependency exists already and is older. -/
abbrev Ordered (tasks : OrderedMap String Task) : Prop :=
  OrderedMap.NeedsEarlier Task.dependencies tasks

/-- The status `blocked` is that of the tasks that wait for a dependency. -/
def Right (tasks : OrderedMap String Task) : Prop :=
  ∀ id task, tasks.get id = some task →
    (task.status = some .blocked ↔ isBlocked tasks.get task.dependencies = true)

def IsCompleted (tasks : OrderedMap String Task) (id : String) : Prop :=
  ∃ task, tasks.get id = some task ∧ task.status = some .completed

/-- A task depends on another, directly or through others. -/
def DependsOn (tasks : OrderedMap String Task) : String → String → Prop :=
  Relation.TransGen fun id d => ∃ task, tasks.get id = some task ∧ d ∈ task.dependencies

section

variable {tasks tasks' : OrderedMap String Task} {rewrites : String → ℕ} {id : String} {task : Task}

theorem isBlocked_iff {dependencies : List String} :
    isBlocked tasks.get dependencies = true ↔ ∃ d ∈ dependencies, ¬ IsCompleted tasks d := by
  rw [isBlocked, List.any_eq_true]
  refine exists_congr fun d => and_congr_right fun _ => ?_
  rw [IsCompleted]
  cases tasks.get d with
  | none => simp
  | some => simp

theorem Right.recompute (ordered : Ordered tasks) :
    Right (recomputeBlockedStatuses rewrites tasks) := by
  intro id task found
  rw [get_recompute _ ordered, Option.map_eq_some_iff] at found
  obtain ⟨old, -, rfl⟩ := found
  rw [settle_status_blocked, settle_dependencies]

theorem ordered_recompute (ordered : Ordered tasks) :
    Ordered (recomputeBlockedStatuses rewrites tasks) := by
  refine ordered.of_needs keys_recompute fun id task found => ?_
  rw [get_recompute _ ordered, Option.map_eq_some_iff] at found
  obtain ⟨old, found, rfl⟩ := found
  exact ⟨old, found, settle_dependencies⟩

theorem Ordered.set (ordered : Ordered tasks) (found : tasks.get id = some task) {new : Task}
    (same : new.dependencies = task.dependencies) : Ordered (tasks.set id new) := by
  refine ordered.of_needs (OrderedMap.keys_set_of_mem (OrderedMap.mem_keys.2 ⟨task, found⟩) new)
    fun j v got => ?_
  by_cases own : j = id
  · subst own
    rw [OrderedMap.get_set_self] at got
    cases got
    exact ⟨task, found, same⟩
  · rw [OrderedMap.get_set_ne _ _ own] at got
    exact ⟨v, got, rfl⟩

theorem idxOf_lt_of_dependsOn (ordered : Ordered tasks) {d : String}
    (depends : DependsOn tasks id d) (inside : d ∈ tasks.keys) :
    tasks.keys.idxOf d < tasks.keys.idxOf id := by
  induction depends using Relation.TransGen.head_induction_on with
  | single direct =>
    obtain ⟨task, found, need⟩ := direct
    exact ordered.idxOf_lt found need inside
  | @head _ c direct rest ih =>
    obtain ⟨task, found, need⟩ := direct
    have own : c ∈ tasks.keys := by
      obtain ⟨_, ⟨next, found', -⟩, -⟩ := Relation.TransGen.head'_iff.1 rest
      exact OrderedMap.mem_keys.2 ⟨next, found'⟩
    exact ih.trans (ordered.idxOf_lt found need own)

/-- The tasks that a change of one task and the recomputation behind it take out of `completed`
depend on the changed one, and are blocked. -/
theorem completed_or_dependsOn (rewrites : String → ℕ) (ordered : Ordered tasks)
    (right : Right tasks) (ordered' : Ordered tasks') {target : String}
    (others : ∀ id, id ≠ target → tasks'.get id = tasks.get id) (found : tasks.get id = some task)
    (completed : task.status = some .completed) (other : id ≠ target) :
    (recomputeBlockedStatuses rewrites tasks').get id = some task ∨
      DependsOn tasks id target ∧ ¬ IsCompleted (recomputeBlockedStatuses rewrites tasks') target ∧
        ∃ task', (recomputeBlockedStatuses rewrites tasks').get id = some task' ∧
          task'.status = some .blocked := by
  -- by the position of the task in the map, behind all the tasks that it depends on
  induction position : tasks.keys.idxOf id using Nat.strong_induction_on generalizing id task with
  | _ n ih =>
    have after := get_recompute rewrites ordered' id
    rw [others id other, found, Option.map_some] at after
    by_cases blocked : isBlocked (recomputeBlockedStatuses rewrites tasks').get
        task.dependencies = true
    swap
    · rw [settle_eq_self] at after
      · exact .inl after
      · simp [completed, blocked]
    right
    have free : ¬ isBlocked tasks.get task.dependencies = true := by
      rw [← right id task found, completed]
      decide
    obtain ⟨d, need, incomplete⟩ := isBlocked_iff.1 blocked
    obtain ⟨dep, found', completed'⟩ : IsCompleted tasks d := by
      by_contra incomplete
      exact free (isBlocked_iff.2 ⟨d, need, incomplete⟩)
    suffices DependsOn tasks id target ∧
        ¬ IsCompleted (recomputeBlockedStatuses rewrites tasks') target from
      ⟨this.1, this.2, _, after, settle_status_blocked.2 blocked⟩
    by_cases hit : d = target
    · subst hit
      exact ⟨.single ⟨task, found, need⟩, incomplete⟩
    have before := ordered.idxOf_lt found need (OrderedMap.mem_keys.2 ⟨dep, found'⟩)
    rcases ih _ (position ▸ before) found' completed' hit rfl with same | ⟨depends, gone, -⟩
    · exact absurd ⟨dep, same, completed'⟩ incomplete
    · exact ⟨.head ⟨task, found, need⟩ depends, gone⟩

theorem isCompleted_of_recompute (ordered : Ordered tasks)
    (completed : IsCompleted (recomputeBlockedStatuses rewrites tasks) id) :
    IsCompleted tasks id := by
  obtain ⟨task, found, completed⟩ := completed
  rw [get_recompute _ ordered, Option.map_eq_some_iff] at found
  obtain ⟨old, found, rfl⟩ := found
  refine ⟨old, found, ?_⟩
  revert completed
  unfold settle
  split_ifs <;> simp_all

theorem isBlocked_dependencies (rewrites : String → ℕ) (ordered : Ordered tasks)
    (right : Right tasks) (ordered' : Ordered tasks')
    (others : ∀ j, j ≠ id → tasks'.get j = tasks.get j) (found : tasks.get id = some task) :
    isBlocked (recomputeBlockedStatuses rewrites tasks').get task.dependencies =
      isBlocked tasks.get task.dependencies := by
  rw [Bool.eq_iff_iff, isBlocked_iff, isBlocked_iff]
  refine exists_congr fun d => and_congr_right fun need => not_congr ?_
  have other : d ≠ id := ne_of_mem_of_not_mem need (ordered.self id task found)
  constructor
  · intro completed
    obtain ⟨dep, found', completed⟩ := isCompleted_of_recompute ordered' completed
    exact ⟨dep, others d other ▸ found', completed⟩
  · rintro ⟨dep, found', completed⟩
    rcases completed_or_dependsOn rewrites ordered right ordered' others found'
      completed other with same | ⟨depends, -, -⟩
    · exact ⟨dep, same, completed⟩
    · have before := ordered.idxOf_lt found need (OrderedMap.mem_keys.2 ⟨dep, found'⟩)
      have behind := idxOf_lt_of_dependsOn ordered depends (OrderedMap.mem_keys.2 ⟨task, found⟩)
      omega

end

/-! ## Runs -/

/-- The task that a call is about, unless it creates one. -/
def TaskCall.target : TaskCall → Option String
  | .create .. => none
  | .update id .. => some id
  | .delete id _ => some id

/-- No task depends on the one being created: what a task depends on exists already or never
will. -/
def Fresh (s : SessionTaskRegistry) : TaskCall → Prop
  | .create _ options now =>
    taskId (s.idCounter + 1) now.stamp ∉ options.dependencies ∧
      ∀ id task, s.get id = some task → taskId (s.idCounter + 1) now.stamp ∉ task.dependencies
  | _ => True

/-- No status is given as `undefined`. -/
def Given : TaskCall → Prop
  | .update _ updates _ => updates.status ≠ some none
  | _ => True

instance (s : SessionTaskRegistry) : (call : TaskCall) → Decidable (Fresh s call)
  | .create _ options now =>
    decidable_of_iff (taskId (s.idCounter + 1) now.stamp ∉ options.dependencies ∧
        ∀ entry ∈ s.tasks.entries,
          taskId (s.idCounter + 1) now.stamp ∉ entry.2.dependencies) <|
      and_congr_right fun _ => ⟨fun all id task found =>
          all (id, task) (OrderedMap.mem_entries.2 found),
        fun all entry mem => all entry.1 entry.2 (OrderedMap.mem_entries.1 mem)⟩
  | .update .. => .isTrue trivial
  | .delete .. => .isTrue trivial

instance : (call : TaskCall) → Decidable (Given call)
  | .update _ updates _ => inferInstanceAs (Decidable (updates.status ≠ some none))
  | .create .. => .isTrue trivial
  | .delete .. => .isTrue trivial

structure Inv (s : SessionTaskRegistry) : Prop where
  ordered : Ordered s.tasks
  right : Right s.tasks
  numbered : ∀ id ∈ s.tasks.keys, ∃ n stamp, id = taskId n stamp ∧ n ≤ s.idCounter

section

variable {s t : SessionTaskRegistry} {id : String} {task : Task} {call : TaskCall}

theorem taskId_toList (n stamp : ℕ) : (taskId n stamp).toList =
    "task_".toList ++ (Nat.toDigits 10 n ++ '_' :: Nat.toDigits 10 stamp) := by
  have digits (n : ℕ) : (toString n).toList = Nat.toDigits 10 n := Nat.toList_repr
  have separator : (toString "_").toList = ['_'] := rfl
  have first : (toString "task_").toList = "task_".toList := rfl
  simp only [taskId, String.toList_append, digits, separator, first, List.append_assoc,
    List.singleton_append]

theorem taskId_inj {n m stamp stamp' : ℕ} (same : taskId n stamp = taskId m stamp') : n = m := by
  have lists := congrArg String.toList same
  rw [taskId_toList, taskId_toList] at lists
  exact (toDigits_separator_inj (by decide) (List.append_cancel_left lists)).1

theorem Inv.new_not_mem (inv : Inv s) (stamp : ℕ) :
    taskId (s.idCounter + 1) stamp ∉ s.tasks.keys := by
  intro mem
  obtain ⟨n, stamp', same, le⟩ := inv.numbered _ mem
  have := taskId_inj same
  omega

/-- The map that `create` recomputes. -/
theorem Inv.ordered_create (inv : Inv s) {title : String} {options : TaskOptions} {now : Readings}
    (fresh : Fresh s (.create title options now)) :
    ∃ tasks, Ordered tasks ∧ tasks.keys = s.tasks.keys ++ [taskId (s.idCounter + 1) now.stamp] ∧
      (∀ id, id ≠ taskId (s.idCounter + 1) now.stamp → tasks.get id = s.tasks.get id) ∧
      (s.create title options now).2 = {
        tasks := recomputeBlockedStatuses now.rewrites tasks, idCounter := s.idCounter + 1 } := by
  have new := inv.new_not_mem now.stamp
  exact ⟨_, inv.ordered.set_new new fresh.1 fresh.2, OrderedMap.keys_set_of_not_mem new _,
    fun id other => OrderedMap.get_set_ne _ _ other, rfl⟩

theorem update_cases (found : s.get id = some task) (updates : TaskUpdates) (now : Readings) :
    (s.update id updates now).1 = some (SessionTaskRegistry.spread task updates now.updatedAt) ∧
      (s.update id updates now).2 = { s with
        tasks :=
          let tasks := s.tasks.set id (SessionTaskRegistry.spread task updates now.updatedAt)
          if updates.status.join ≠ none then recomputeBlockedStatuses now.rewrites tasks
          else tasks } := by
  rw [SessionTaskRegistry.get] at found
  rw [SessionTaskRegistry.update, found]
  dsimp only
  split <;> exact ⟨rfl, rfl⟩

theorem update_of_none (found : s.get id = none) (updates : TaskUpdates) (now : Readings) :
    s.update id updates now = (none, s) := by
  rw [SessionTaskRegistry.get] at found
  rw [SessionTaskRegistry.update, found]

theorem Right.set (right : Right s.tasks) (found : s.get id = some task) {new : Task}
    (status : new.status = task.status) (dependencies : new.dependencies = task.dependencies) :
    Right (s.tasks.set id new) := by
  have completed (d : String) : IsCompleted (s.tasks.set id new) d ↔ IsCompleted s.tasks d := by
    by_cases own : d = id
    · subst own
      simp only [IsCompleted, OrderedMap.get_set_self, SessionTaskRegistry.get] at found ⊢
      simp [found, status]
    · simp only [IsCompleted, OrderedMap.get_set_ne _ _ own]
  have blocked (dependencies : List String) : isBlocked (s.tasks.set id new).get dependencies =
      isBlocked s.tasks.get dependencies := by
    rw [Bool.eq_iff_iff, isBlocked_iff, isBlocked_iff]
    simp only [completed]
  intro j v got
  rw [blocked]
  by_cases own : j = id
  · subst own
    rw [OrderedMap.get_set_self] at got
    cases got
    rw [status, dependencies]
    exact right j task found
  · rw [OrderedMap.get_set_ne _ _ own] at got
    exact right j v got

theorem Inv.next (inv : Inv s) (fresh : Fresh s call) (given : Given call)
    (next : step s call = some t) : Inv t := by
  cases call with
  | create title options now =>
    obtain rfl : (s.create title options now).2 = t := Option.some.inj next
    obtain ⟨tasks, ordered, keys, -, eq⟩ := inv.ordered_create fresh
    rw [eq]
    refine ⟨ordered_recompute ordered, .recompute ordered, fun id mem => ?_⟩
    rw [keys_recompute, keys, List.mem_append, List.mem_singleton] at mem
    rcases mem with mem | rfl
    · obtain ⟨n, stamp, same, le⟩ := inv.numbered id mem
      exact ⟨n, stamp, same, le.trans (Nat.le_succ _)⟩
    · exact ⟨_, _, rfl, le_rfl⟩
  | update id updates now =>
    obtain rfl : (s.update id updates now).2 = t := Option.some.inj next
    cases found : s.get id with
    | none => exact (congrArg Prod.snd (update_of_none found updates now)).symm ▸ inv
    | some task =>
      have ordered := inv.ordered.set found
        (show (SessionTaskRegistry.spread task updates now.updatedAt).dependencies = _ from rfl)
      have keys := OrderedMap.keys_set_of_mem (OrderedMap.mem_keys.2 ⟨task, found⟩)
        (SessionTaskRegistry.spread task updates now.updatedAt)
      rw [(update_cases found updates now).2]
      split
      case isTrue =>
        refine ⟨ordered_recompute ordered, .recompute ordered, fun j mem => inv.numbered j ?_⟩
        rwa [keys_recompute, keys] at mem
      case isFalse absent =>
        have same : updates.status = none := by
          cases status : updates.status with
          | none => rfl
          | some value =>
            cases value with
            | none => exact absurd status given
            | some => simp [status] at absent
        refine ⟨ordered, inv.right.set found ?_ rfl, fun j mem => inv.numbered j ?_⟩
        · rw [SessionTaskRegistry.spread, same, Option.getD_none]
        · rwa [keys] at mem
  | delete id now =>
    obtain rfl : (s.delete id now).2 = t := Option.some.inj next
    rw [SessionTaskRegistry.delete]
    split
    next => exact inv
    next =>
      have ordered := inv.ordered.delete id
      refine ⟨ordered_recompute ordered, .recompute ordered, fun j mem => inv.numbered j ?_⟩
      rw [keys_recompute] at mem
      exact (List.filter_sublist.map _).subset mem

theorem inv_empty : Inv {} := by
  refine ⟨⟨?_, List.Pairwise.nil⟩, ?_, fun _ mem => nomatch mem⟩
  · exact fun _ _ found => nomatch found
  · exact fun _ _ found => nomatch found

theorem Inv.update_returns (inv : Inv s) {updates : TaskUpdates} {now : Readings}
    (settled : ∀ task, s.get id = some task → ∀ status, updates.status = some (some status) →
      (status = .blocked ↔ isBlocked s.tasks.get task.dependencies = true)) :
    (s.update id updates now).2.get id = (s.update id updates now).1 := by
  cases found : s.get id with
  | none => rw [update_of_none found, found]
  | some task =>
    rw [(update_cases found updates now).1, (update_cases found updates now).2,
      SessionTaskRegistry.get]
    split
    case isFalse => exact OrderedMap.get_set_self _ _ _
    case isTrue given =>
      obtain ⟨status, given⟩ : ∃ status, updates.status = some (some status) := by
        obtain ⟨status, given⟩ := Option.ne_none_iff_exists'.1 given
        exact ⟨status, Option.join_eq_some_iff.1 given⟩
      have ordered := inv.ordered.set found
        (show (SessionTaskRegistry.spread task updates now.updatedAt).dependencies = _ from rfl)
      rw [get_recompute _ ordered, OrderedMap.get_set_self, Option.map_some, settle_eq_self]
      have waits := isBlocked_dependencies now.rewrites inv.ordered inv.right ordered
        (fun j other => OrderedMap.get_set_ne _ _ other) found
      have same : (SessionTaskRegistry.spread task updates now.updatedAt).status = some status := by
        rw [SessionTaskRegistry.spread, given, Option.getD_some]
      rw [same, Option.some.injEq]
      exact (settled task found status given).trans (Bool.eq_iff_iff.1 waits).symm

/-- A completed task stays as it is in every call that is not about it, unless the call leaves a
task that it depends on incomplete. -/
theorem Inv.completed_stays (inv : Inv s) (fresh : Fresh s call) (next : step s call = some t)
    (found : s.get id = some task) (completed : task.status = some .completed)
    (other : call.target ≠ some id) :
    t.get id = some task ∨ ∃ target, call.target = some target ∧ DependsOn s.tasks id target ∧
      ¬ IsCompleted t.tasks target ∧ ∃ task', t.get id = some task' ∧
        task'.status = some .blocked := by
  cases call with
  | create title options now =>
    obtain rfl : (s.create title options now).2 = t := Option.some.inj next
    obtain ⟨tasks, ordered, -, others, eq⟩ := inv.ordered_create fresh
    have old : id ≠ taskId (s.idCounter + 1) now.stamp := by
      rintro rfl
      exact inv.new_not_mem _ (OrderedMap.mem_keys.2 ⟨task, found⟩)
    rw [eq]
    rcases completed_or_dependsOn now.rewrites inv.ordered inv.right ordered others
      found completed old with same | ⟨depends, -⟩
    · exact .inl same
    · obtain ⟨_, -, last, found', need⟩ := Relation.TransGen.tail'_iff.1 depends
      exact absurd need (fresh.2 _ last found')
  | update target updates now =>
    obtain rfl : (s.update target updates now).2 = t := Option.some.inj next
    have ne : id ≠ target := fun same => other (congrArg some same.symm)
    cases found' : s.get target with
    | none =>
      rw [update_of_none found']
      exact .inl found
    | some old =>
      have others : ∀ j, j ≠ target → (s.tasks.set target
          (SessionTaskRegistry.spread old updates now.updatedAt)).get j = s.tasks.get j :=
        fun j ne => OrderedMap.get_set_ne _ _ ne
      rw [(update_cases found' updates now).2]
      split
      case isFalse => exact .inl ((others id ne).trans found)
      case isTrue =>
        have ordered := inv.ordered.set found'
          (show (SessionTaskRegistry.spread old updates now.updatedAt).dependencies = _ from rfl)
        rcases completed_or_dependsOn now.rewrites inv.ordered inv.right ordered
          others found completed ne with same | lost
        · exact .inl same
        · exact .inr ⟨target, rfl, lost⟩
  | delete target now =>
    obtain rfl : (s.delete target now).2 = t := Option.some.inj next
    have ne : id ≠ target := fun same => other (congrArg some same.symm)
    rw [SessionTaskRegistry.delete]
    split
    next => exact .inl found
    next =>
      rcases completed_or_dependsOn now.rewrites inv.ordered inv.right
        (inv.ordered.delete target) (fun j ne => OrderedMap.get_delete_ne _ ne) found completed ne
        with same | lost
      · exact .inl same
      · exact .inr ⟨target, rfl, lost⟩

/-- Statuses in every run: `blocked` is the status of the tasks that wait for a dependency, an
update returns what is registered behind it unless it is reverted, and a completed task stays
completed until a call is about it or about a task that it depends on. -/
theorem statuses {calls : List TaskCall}
    (run : Run step (fun s call => Fresh s call ∧ Given call) {} calls s) :
    Right s.tasks ∧
    (∀ id updates now, (∀ task, s.get id = some task → ∀ status,
        updates.status = some (some status) →
          (status = .blocked ↔ isBlocked s.tasks.get task.dependencies = true)) →
      (s.update id updates now).2.get id = (s.update id updates now).1) ∧
    ∀ call t id task, Fresh s call → step s call = some t → s.get id = some task →
      task.status = some .completed → call.target ≠ some id →
      t.get id = some task ∨ ∃ target, call.target = some target ∧ DependsOn s.tasks id target ∧
        ¬ IsCompleted t.tasks target ∧ ∃ task', t.get id = some task' ∧
          task'.status = some .blocked := by
  have inv : Inv s := run.invariant Inv inv_empty fun s call t inv allowed next =>
    inv.next allowed.1 allowed.2 next
  exact ⟨inv.right, fun id updates now => inv.update_returns, fun call t id task fresh next found =>
    inv.completed_stays fresh next found⟩

/-- A clock that stands still. -/
def Readings.still (now : ℕ) : Readings :=
  { stamp := now, createdAt := now, updatedAt := now, rewrites := fun _ => now }

/-- A task, one that depends on it, and both completed in their order. -/
def chainCalls : List TaskCall :=
  [.create "A" {} (.still 5), .create "B" { dependencies := ["task_1_5"] } (.still 5),
    .update "task_1_5" { status := some (some .completed) } (.still 6),
    .update "task_2_5" { status := some (some .completed) } (.still 7)]

/-- The registry behind these calls. -/
def chained : SessionTaskRegistry := (exec step {} chainCalls).getD {}

theorem run_chain : Run step (fun s call => Fresh s call ∧ Given call) {} chainCalls chained :=
  Run.of_exec (by decide +kernel)

theorem statuses_chain : Right chained.tasks ∧
    (chained.update "task_2_5" { status := some (some .failed) } (.still 8)).2.get "task_2_5" =
      (chained.update "task_2_5" { status := some (some .failed) } (.still 8)).1 := by
  refine ⟨(statuses run_chain).1, (statuses run_chain).2.1 _ _ _ fun task found status given => ?_⟩
  have dependencies : (chained.get "task_2_5").map Task.dependencies = some ["task_1_5"] := by
    decide +kernel
  rw [found, Option.map_some, Option.some.injEq] at dependencies
  obtain rfl : TaskStatus.failed = status := by simpa using given
  rw [dependencies]
  decide +kernel

/-- Deleting the first task takes the second one out of `completed`. -/
theorem completed_reverted : ¬ ∀ calls s, Run step Fresh {} calls s → Right s.tasks ∧
    (∀ id updates now, (s.update id updates now).2.get id = (s.update id updates now).1) ∧
    ∀ call t id task, Fresh s call → step s call = some t → s.get id = some task →
      task.status = some .completed → call.target ≠ some id →
      ∃ task', t.get id = some task' ∧ task'.status = some .completed := by
  intro all
  have stays := (all _ _ (run_chain.mono fun _ _ allowed => allowed.1)).2.2
    (.delete "task_1_5" (.still 8)) (chained.delete "task_1_5" (.still 8)).2 "task_2_5"
  have statuses : (chained.get "task_2_5").map Task.status = some (some .completed) ∧
      ((chained.delete "task_1_5" (.still 8)).2.get "task_2_5").map Task.status =
        some (some .blocked) := by
    decide +kernel
  obtain ⟨task, found, completed⟩ := Option.map_eq_some_iff.1 statuses.1
  obtain ⟨task', found', completed'⟩ := stays task trivial rfl found completed (by decide)
  rw [found', Option.map_some, completed'] at statuses
  exact absurd statuses.2 (by decide)

end

end KimiCli.TaskRegistry
