import KimiCli.Lib.Run
import KimiCli.Loop.ToolAccess
import Mathlib.Data.List.Nodup
import Mathlib.Data.List.Pairwise
import Mathlib.Tactic

/-!
# The tool scheduler

`loop/tool-scheduler.ts`: tool calls with non-conflicting accesses may overlap, conflicting ones
run in the order in which they were added.  A scheduler state carries, beside the source's two
arrays, the tasks added so far (a task is identified with its position there) and the events seen
from outside, so that its laws can speak about the past.

`start` may throw synchronously, in which case `finish` re-enters `startQueuedTasks` from inside the
loop of an outer call; `depth` is the number of such re-entries that the call stack allows, and a
result `none` is the stack overflow.  `ToolScheduler.law` is the scheduling contract for tasks whose
`start` returns a promise.
-/

namespace KimiCli

structure ToolCallTask where
  accesses : ToolAccesses
  /-- `start()` throws instead of returning a promise. -/
  startThrows : Bool

structure ScheduledToolCallTask extends ToolCallTask where
  id : ℕ

inductive SchedulerEvent
  /-- `task.start()` is called. -/
  | started (id : ℕ)
  /-- The result promise is rejected with what `start()` threw. -/
  | rejected (id : ℕ)
  /-- `finish(task)` takes the task off the active ones. -/
  | finished (id : ℕ)
  deriving DecidableEq

structure ToolScheduler where
  activeTasks : List ScheduledToolCallTask := []
  queuedTasks : List ScheduledToolCallTask := []
  added : List ToolCallTask := []
  events : List SchedulerEvent := []

namespace ToolScheduler

section Model

variable (toLowerCase : String → String)

def conflictsWithAny (task : ToolCallTask) (candidates : List ScheduledToolCallTask) : Bool :=
  candidates.any fun candidate =>
    ToolAccesses.conflict toLowerCase task.accesses candidate.accesses

def isBlocked (s : ToolScheduler) (task : ToolCallTask)
    (queuedBefore : List ScheduledToolCallTask) : Bool :=
  conflictsWithAny toLowerCase task s.activeTasks || conflictsWithAny toLowerCase task queuedBefore

/-- `activeTasks.push(task)` and the call of `task.start()`. -/
def launch (s : ToolScheduler) (task : ScheduledToolCallTask) : ToolScheduler :=
  { s with
    activeTasks := s.activeTasks ++ [task]
    events := s.events ++ [.started task.id] }

/-- The first half of `finish`: `activeTasks.splice(index, 1)`. -/
def release (s : ToolScheduler) (task : ScheduledToolCallTask) : ToolScheduler :=
  { s with
    activeTasks := s.activeTasks.eraseP (·.id = task.id)
    events := s.events ++ [.finished task.id] }

/-- `start`, where `reenter` is the `startQueuedTasks` call inside `finish`. -/
def start (reenter : ToolScheduler → Option ToolScheduler) (s : ToolScheduler)
    (task : ScheduledToolCallTask) : Option ToolScheduler :=
  let s := s.launch task
  if task.startThrows then
    reenter (release { s with events := s.events ++ [.rejected task.id] } task)
  else some s

/-- The loop of `startQueuedTasks` over the tasks it still has to visit.  The array `queuedTasks`
is replaced only at its end. -/
def scan (reenter : ToolScheduler → Option ToolScheduler) :
    List ScheduledToolCallTask → List ScheduledToolCallTask → ToolScheduler → Option ToolScheduler
  | [], stillQueued, s => some { s with queuedTasks := stillQueued }
  | task :: rest, stillQueued, s =>
    if isBlocked toLowerCase s task.toToolCallTask stillQueued then
      scan reenter rest (stillQueued ++ [task]) s
    else (start reenter s task).bind fun s => scan reenter rest stillQueued s

def startQueuedTasks : ℕ → ToolScheduler → Option ToolScheduler
  | 0, s => scan toLowerCase (fun _ => none) s.queuedTasks [] s
  | depth + 1, s => scan toLowerCase (startQueuedTasks depth) s.queuedTasks [] s

def finish (depth : ℕ) (s : ToolScheduler) (task : ScheduledToolCallTask) : Option ToolScheduler :=
  startQueuedTasks toLowerCase depth (s.release task)

def add (depth : ℕ) (s : ToolScheduler) (task : ToolCallTask) : Option ToolScheduler :=
  let scheduledTask : ScheduledToolCallTask := { task with id := s.added.length }
  let s := { s with added := s.added ++ [task] }
  if isBlocked toLowerCase s task s.queuedTasks then
    some { s with queuedTasks := s.queuedTasks ++ [scheduledTask] }
  else start (startQueuedTasks toLowerCase depth) s scheduledTask

/-- What drives a scheduler: a caller adds a task, or the promise of an active task has settled and
its `finally` callback runs. -/
inductive Call
  | add (task : ToolCallTask)
  | settle (id : ℕ)

def step (depth : ℕ) (s : ToolScheduler) : Call → Option ToolScheduler
  | .add task => add toLowerCase depth s task
  | .settle id => (s.activeTasks.find? (·.id = id)).bind (finish toLowerCase depth s)

/-- Every added task's `start` returns a promise. -/
def StartsPromise : ToolScheduler → Call → Prop
  | _, .add task => task.startThrows = false
  | _, .settle _ => True

instance : ∀ s call, Decidable (StartsPromise s call)
  | _, .add task => inferInstanceAs (Decidable (task.startThrows = false))
  | _, .settle _ => .isTrue trivial

/-- The tasks added as number `i` and number `j` have conflicting accesses. -/
def Conflicting (s : ToolScheduler) (i j : ℕ) : Prop :=
  ∃ a b, s.added[i]? = some a ∧ s.added[j]? = some b ∧
    ToolAccesses.conflict toLowerCase a.accesses b.accesses = true

/-- The scheduling contract, read off one state and the events that led to it. -/
structure Law (depth : ℕ) (s : ToolScheduler) : Prop where
  /-- No two active tasks conflict. -/
  exclusion : s.activeTasks.Pairwise fun a b => ¬ Conflicting toLowerCase s a.id b.id
  /-- Of two conflicting tasks the one added first starts first, and finishes before the other
  starts. -/
  order : ∀ i j, i < j → Conflicting toLowerCase s i j → .started j ∈ s.events →
    [.started i, .finished i, .started j].Sublist s.events
  /-- An added task has been started once, or waits in the queue and has not been started. -/
  once : ∀ i < s.added.length,
    s.events.count (.started i) = if i ∈ s.queuedTasks.map (·.id) then 0 else 1
  /-- Nothing waits while nothing runs. -/
  progress : s.activeTasks = [] → s.queuedTasks = []
  /-- A task waits only for an unfinished task that it conflicts with and that was added earlier. -/
  undelayed : ∀ t ∈ s.queuedTasks, ∃ u ∈ s.activeTasks ++ s.queuedTasks, u.id < t.id ∧
    Conflicting toLowerCase s u.id t.id
  /-- The settlement of an active task is always handled. -/
  settles : ∀ t ∈ s.activeTasks, (step toLowerCase depth s (.settle t.id)).isSome
  /-- When the active tasks keep settling, every added task is started: no run of settlements is
  longer than the number of unfinished tasks, and one of that length leaves none waiting. -/
  drains : ∀ (ids : List ℕ) t,
    Transition.exec (step toLowerCase depth) s (ids.map .settle) = some t →
    ids.length + (t.activeTasks.length + t.queuedTasks.length) =
      s.activeTasks.length + s.queuedTasks.length

end Model

variable {toLowerCase : String → String} {s t : ToolScheduler}
  {task : ScheduledToolCallTask} {still rest queue : List ScheduledToolCallTask} {depth : ℕ}

/-! ## The invariant of the scan -/

/-- What holds while the loop has decided about `still` and not yet about `rest`; together they are
the queue in the order of addition. -/
structure ScanInv (toLowerCase : String → String) (s : ToolScheduler)
    (still rest : List ScheduledToolCallTask) : Prop where
  known : ∀ t ∈ s.activeTasks ++ (still ++ rest), s.added[t.id]? = some t.toToolCallTask
  promises : ∀ t ∈ still ++ rest, t.startThrows = false
  sorted : (still ++ rest).Pairwise fun a b => a.id < b.id
  activeDistinct : (s.activeTasks.map (·.id)).Nodup
  disjoint : ∀ a ∈ s.activeTasks, ∀ q ∈ still ++ rest, a.id ≠ q.id
  exclusion : s.activeTasks.Pairwise fun a b =>
    ToolAccesses.conflict toLowerCase a.accesses b.accesses = false
  earlier : ∀ a ∈ s.activeTasks, ∀ q ∈ still ++ rest,
    ToolAccesses.conflict toLowerCase q.accesses a.accesses = true → a.id < q.id
  blocked : ∀ pre t post, still = pre ++ t :: post →
    isBlocked toLowerCase s t.toToolCallTask pre = true
  startedKnown : ∀ i, .started i ∈ s.events → i < s.added.length
  startedCount : ∀ i < s.added.length,
    s.events.count (.started i) = if i ∈ (still ++ rest).map (·.id) then 0 else 1
  finishedAfter : ∀ i < s.added.length, i ∉ (still ++ rest).map (·.id) →
    i ∉ s.activeTasks.map (·.id) → [.started i, .finished i].Sublist s.events
  order : ∀ i j, i < j → Conflicting toLowerCase s i j → .started j ∈ s.events →
    [.started i, .finished i, .started j].Sublist s.events

theorem isBlocked_eq_true {task : ToolCallTask} :
    isBlocked toLowerCase s task still = true ↔
      ∃ u ∈ s.activeTasks ++ still,
        ToolAccesses.conflict toLowerCase task.accesses u.accesses = true := by
  simp [isBlocked, conflictsWithAny, or_and_right, exists_or]

theorem isBlocked_eq_false {task : ToolCallTask} :
    isBlocked toLowerCase s task still = false ↔
      ∀ u ∈ s.activeTasks ++ still,
        ToolAccesses.conflict toLowerCase task.accesses u.accesses = false := by
  rw [← Bool.not_eq_true, isBlocked_eq_true]
  simp

theorem ScanInv.known_lt (h : ScanInv toLowerCase s still rest)
    (mem : task ∈ s.activeTasks ++ (still ++ rest)) : task.id < s.added.length := by
  have := h.known task mem
  exact (List.getElem?_eq_some_iff.1 this).1

/-- Known tasks conflict as their accesses do. -/
theorem ScanInv.conflicting_iff (h : ScanInv toLowerCase s still rest)
    {a b : ScheduledToolCallTask} (ha : a ∈ s.activeTasks ++ (still ++ rest))
    (hb : b ∈ s.activeTasks ++ (still ++ rest)) :
    Conflicting toLowerCase s a.id b.id ↔
      ToolAccesses.conflict toLowerCase a.accesses b.accesses = true := by
  simp [Conflicting, h.known a ha, h.known b hb]

/-! ## One step of the scan -/

theorem ScanInv.block (h : ScanInv toLowerCase s still (task :: rest))
    (blocked : isBlocked toLowerCase s task.toToolCallTask still = true) :
    ScanInv toLowerCase s (still ++ [task]) rest := by
  have hq : still ++ [task] ++ rest = still ++ task :: rest := by simp
  exact
    { known := hq ▸ h.known
      promises := hq ▸ h.promises
      sorted := hq ▸ h.sorted
      activeDistinct := h.activeDistinct
      disjoint := hq ▸ h.disjoint
      exclusion := h.exclusion
      earlier := hq ▸ h.earlier
      blocked := by
        intro pre t post hsplit
        rcases List.eq_nil_or_concat post with rfl | ⟨post, u, rfl⟩
        · obtain ⟨rfl, rfl⟩ : still = pre ∧ task = t := by simpa using hsplit
          exact blocked
        · rw [List.concat_eq_append, ← List.cons_append, ← List.append_assoc] at hsplit
          exact h.blocked pre t post (List.append_inj' hsplit rfl).1
      startedKnown := h.startedKnown
      startedCount := hq ▸ h.startedCount
      finishedAfter := hq ▸ h.finishedAfter
      order := h.order }

theorem ScanInv.finished_of_not_blocked (h : ScanInv toLowerCase s still (task :: rest))
    (free : isBlocked toLowerCase s task.toToolCallTask still = false) {i : ℕ} (lt : i < task.id)
    (conf : Conflicting toLowerCase s i task.id) : [.started i, .finished i].Sublist s.events := by
  rw [isBlocked_eq_false] at free
  have htask := h.known task (by simp)
  obtain ⟨a, b, ha, hb, hab⟩ := conf
  obtain rfl : task.toToolCallTask = b := Option.some.inj (htask.symm.trans hb)
  have clear : ∀ u ∈ s.activeTasks ++ still, u.id ≠ i := by
    rintro u hu rfl
    have hu' : u ∈ s.activeTasks ++ (still ++ task :: rest) := by
      rw [← List.append_assoc]
      exact List.mem_append_left _ hu
    obtain rfl : u.toToolCallTask = a := Option.some.inj ((h.known u hu').symm.trans ha)
    have := free u hu
    rw [ToolAccesses.conflict_comm] at this
    simp_all
  refine h.finishedAfter i (List.getElem?_eq_some_iff.1 ha).1 ?_ ?_
  · intro mem
    obtain ⟨u, hu, rfl⟩ := List.mem_map.1 mem
    rcases List.mem_append.1 hu with hu | hu
    · exact clear u (List.mem_append_right _ hu) rfl
    · have := (List.pairwise_append.1 h.sorted).2.1
      rcases List.mem_cons.1 hu with rfl | hu
      · exact lt_irrefl _ lt
      · exact absurd ((List.pairwise_cons.1 this).1 u hu) (by omega)
  · intro mem
    obtain ⟨u, hu, rfl⟩ := List.mem_map.1 mem
    exact clear u (List.mem_append_left _ hu) rfl

theorem ScanInv.launch (h : ScanInv toLowerCase s still (task :: rest))
    (free : isBlocked toLowerCase s task.toToolCallTask still = false) :
    ScanInv toLowerCase (s.launch task) still rest := by
  have free' := isBlocked_eq_false.1 free
  have sorted := List.pairwise_append.1 h.sorted
  have sub : ∀ q ∈ still ++ rest, q ∈ still ++ task :: rest := by
    intro q hq
    rcases List.mem_append.1 hq with hq | hq <;> simp [hq]
  have ne : ∀ q ∈ still ++ rest, task.id ≠ q.id := by
    intro q hq
    rcases List.mem_append.1 hq with hq | hq
    · exact (sorted.2.2 q hq task (by simp)).ne'
    · exact ((List.pairwise_cons.1 sorted.2.1).1 q hq).ne
  have lt : task.id < s.added.length := h.known_lt (by simp)
  have notStarted : s.events.count (.started task.id) = 0 := by
    rw [h.startedCount _ lt, if_pos (by simp)]
  exact
    { known := by
        intro t ht
        refine h.known t ?_
        simp only [ToolScheduler.launch, List.mem_append, List.mem_cons] at ht ⊢
        tauto
      promises := fun t ht => h.promises t (sub t ht)
      sorted := h.sorted.sublist (by simp)
      activeDistinct := by
        simp only [ToolScheduler.launch, List.map_append, List.map_cons, List.map_nil]
        refine List.nodup_append.2 ⟨h.activeDistinct, by simp, ?_⟩
        intro i hi j hj
        obtain ⟨a, ha, rfl⟩ := List.mem_map.1 hi
        rw [List.mem_singleton.1 hj]
        exact h.disjoint a ha task (by simp)
      disjoint := by
        intro a ha q hq
        rcases List.mem_append.1 ha with ha | ha
        · exact h.disjoint a ha q (sub q hq)
        · rw [List.mem_singleton.1 ha]
          exact ne q hq
      exclusion := by
        refine List.pairwise_append.2 ⟨h.exclusion, by simp, ?_⟩
        intro a ha b hb
        rw [List.mem_singleton.1 hb, ToolAccesses.conflict_comm]
        exact free' a (List.mem_append_left _ ha)
      earlier := by
        intro a ha q hq conf
        rcases List.mem_append.1 ha with ha | ha
        · exact h.earlier a ha q (sub q hq) conf
        · obtain rfl := List.mem_singleton.1 ha
          rcases List.mem_append.1 hq with hq | hq
          · rw [ToolAccesses.conflict_comm, free' q (List.mem_append_right _ hq)] at conf
            cases conf
          · exact (List.pairwise_cons.1 sorted.2.1).1 q hq
      blocked := by
        intro pre t post hsplit
        have := isBlocked_eq_true.1 (h.blocked pre t post hsplit)
        obtain ⟨u, hu, conf⟩ := this
        refine isBlocked_eq_true.2 ⟨u, ?_, conf⟩
        simp only [ToolScheduler.launch, List.mem_append] at hu ⊢
        tauto
      startedKnown := by
        intro i hi
        rcases List.mem_append.1 hi with hi | hi
        · exact h.startedKnown i hi
        · obtain rfl : i = task.id := by simpa using hi
          exact lt
      startedCount := by
        intro i hi
        simp only [ToolScheduler.launch, List.count_append]
        by_cases hit : i = task.id
        · subst hit
          rw [notStarted, if_neg]
          · simp
          · intro mem
            obtain ⟨q, hq, e⟩ := List.mem_map.1 mem
            exact ne q hq e.symm
        · rw [h.startedCount i hi, List.count_singleton]
          simp [hit, Ne.symm hit]
      finishedAfter := by
        intro i hi hq ha
        refine (h.finishedAfter i hi ?_ ?_).trans (List.sublist_append_left _ _)
        · intro mem
          have : i ≠ task.id := by
            rintro rfl
            exact ha (by simp [ToolScheduler.launch])
          exact hq (by simpa [this] using mem)
        · intro mem
          exact ha (by
            simp only [ToolScheduler.launch, List.map_append, List.mem_append, mem, true_or])
      order := by
        intro i j hij conf hj
        by_cases old : .started j ∈ s.events
        · exact (h.order i j hij conf old).trans (List.sublist_append_left _ _)
        · obtain rfl : j = task.id := by simpa [ToolScheduler.launch, old] using hj
          exact (h.finished_of_not_blocked free hij conf).append (List.Sublist.refl [_]) }

/-! ## Settling and adding -/

theorem length_release (mem : task ∈ s.activeTasks) :
    (s.release task).activeTasks.length + 1 = s.activeTasks.length := by
  have : 0 < s.activeTasks.length := List.length_pos_of_mem mem
  rw [release, List.length_eraseP_of_mem mem (by simp)]
  omega

theorem ScanInv.release (h : ScanInv toLowerCase s queue []) (mem : task ∈ s.activeTasks) :
    ScanInv toLowerCase (s.release task) [] queue := by
  have hq : queue ++ [] = [] ++ queue := by simp
  have sub : (s.release task).activeTasks.Sublist s.activeTasks := List.eraseP_sublist
  have erased : ∀ a ∈ s.activeTasks, a.id ≠ task.id → a ∈ (s.release task).activeTasks := by
    intro a ha ne
    exact (List.mem_eraseP_of_neg (p := fun u => decide (u.id = task.id)) (by simpa using ne)).2 ha
  have notQueued : task.id ∉ (queue ++ [] : List ScheduledToolCallTask).map (·.id) := by
    intro hmem
    obtain ⟨q, hq', e⟩ := List.mem_map.1 hmem
    exact h.disjoint task mem q hq' e.symm
  have started : .started task.id ∈ s.events := by
    have hlt := h.known_lt (List.mem_append_left _ mem)
    have := h.startedCount _ hlt
    rw [if_neg notQueued] at this
    exact List.count_pos_iff.1 (by omega)
  exact
    { known := by
        intro t ht
        refine h.known t ?_
        rw [← hq] at ht
        rcases List.mem_append.1 ht with ht | ht
        · exact List.mem_append_left _ (sub.subset ht)
        · exact List.mem_append_right _ ht
      promises := hq ▸ h.promises
      sorted := hq ▸ h.sorted
      activeDistinct := h.activeDistinct.sublist (sub.map _)
      disjoint := fun a ha q hmem => h.disjoint a (sub.subset ha) q (by rwa [hq])
      exclusion := h.exclusion.sublist sub
      earlier := fun a ha q hmem => h.earlier a (sub.subset ha) q (by rwa [hq])
      blocked := by simp
      startedKnown := by
        intro i hi
        exact h.startedKnown i (by simpa [ToolScheduler.release] using hi)
      startedCount := by
        intro i hi
        rw [← hq, ← h.startedCount i hi]
        simp [ToolScheduler.release]
      finishedAfter := by
        intro i hi hmem ha
        rw [← hq] at hmem
        by_cases hit : i = task.id
        · subst hit
          exact (List.singleton_sublist.2 started).append (List.Sublist.refl [_])
        · refine (h.finishedAfter i hi hmem ?_).trans (List.sublist_append_left _ _)
          intro hact
          obtain ⟨a, ha', rfl⟩ := List.mem_map.1 hact
          exact ha (List.mem_map.2 ⟨a, erased a ha' hit, rfl⟩)
      order := by
        intro i j hij conf hj
        have hj' : .started j ∈ s.events := by simpa [ToolScheduler.release] using hj
        exact (h.order i j hij conf hj').trans (List.sublist_append_left _ _) }

theorem ScanInv.enter (h : ScanInv toLowerCase s queue []) (task : ToolCallTask)
    (promise : task.startThrows = false) :
    ScanInv toLowerCase { s with added := s.added ++ [task] } queue
      [{ task with id := s.added.length }] := by
  have old : ∀ i < s.added.length, (s.added ++ [task])[i]? = s.added[i]? := fun i hi =>
    List.getElem?_append_left hi
  have lt : ∀ t ∈ s.activeTasks ++ queue, t.id < s.added.length := fun t ht =>
    h.known_lt (by simpa using ht)
  have notStarted : s.events.count (.started s.added.length) = 0 :=
    List.count_eq_zero.2 fun hmem => lt_irrefl _ (h.startedKnown _ hmem)
  exact
    { known := by
        intro t ht
        rw [← List.append_assoc] at ht
        rcases List.mem_append.1 ht with ht | ht
        · rw [old _ (lt t ht)]
          exact h.known t (by simpa using ht)
        · rw [List.mem_singleton.1 ht]
          simp
      promises := by
        intro t ht
        rcases List.mem_append.1 ht with ht | ht
        · exact h.promises t (by simpa using ht)
        · rw [List.mem_singleton.1 ht]
          exact promise
      sorted := by
        refine List.pairwise_append.2 ⟨by simpa using h.sorted, by simp, ?_⟩
        intro a ha b hb
        rw [List.mem_singleton.1 hb]
        exact lt a (List.mem_append_right _ ha)
      activeDistinct := h.activeDistinct
      disjoint := by
        intro a ha q hq
        rcases List.mem_append.1 hq with hq | hq
        · exact h.disjoint a ha q (by simpa using hq)
        · rw [List.mem_singleton.1 hq]
          exact (lt a (List.mem_append_left _ ha)).ne
      exclusion := h.exclusion
      earlier := by
        intro a ha q hq conf
        rcases List.mem_append.1 hq with hq | hq
        · exact h.earlier a ha q (by simpa using hq) conf
        · rw [List.mem_singleton.1 hq]
          exact lt a (List.mem_append_left _ ha)
      blocked := h.blocked
      startedKnown := by
        intro i hi
        have := h.startedKnown i hi
        simp only [List.length_append, List.length_singleton]
        omega
      startedCount := by
        intro i hi
        simp only [List.length_append, List.length_singleton] at hi
        by_cases hit : i = s.added.length
        · subst hit
          simp [notStarted]
        · rw [h.startedCount i (by omega)]
          simp [hit]
      finishedAfter := by
        intro i hi hq ha
        simp only [List.length_append, List.length_singleton] at hi
        have hit : i ≠ s.added.length := by
          rintro rfl
          exact hq (by simp)
        exact h.finishedAfter i (by omega) (fun hmem => hq (by simp_all)) ha
      order := by
        intro i j hij conf hj
        have hlt := h.startedKnown j hj
        refine h.order i j hij ?_ hj
        simpa only [Conflicting, old i (hij.trans hlt), old j hlt] using conf }

/-! ## The scheduling law -/

/-- Between two calls the whole queue has been decided about. -/
def Inv (toLowerCase : String → String) (s : ToolScheduler) : Prop :=
  ScanInv toLowerCase s s.queuedTasks []

theorem start_of_promise {reenter : ToolScheduler → Option ToolScheduler}
    (promise : task.startThrows = false) : start reenter s task = some (s.launch task) := by
  simp [start, promise]

/-- The loop terminates with every task of the queue decided about, whatever `finish` would do. -/
theorem scan_spec (reenter : ToolScheduler → Option ToolScheduler) :
    ∀ {rest still s}, ScanInv toLowerCase s still rest →
      ∃ t, scan toLowerCase reenter rest still s = some t ∧ Inv toLowerCase t ∧
        t.activeTasks.length + t.queuedTasks.length =
          s.activeTasks.length + (still.length + rest.length)
  | [], still, s, h => by
    refine ⟨{ s with queuedTasks := still }, rfl, ?_, by simp⟩
    exact { h with }
  | task :: rest, still, s, h => by
    by_cases blocked : isBlocked toLowerCase s task.toToolCallTask still = true
    · obtain ⟨t, run, inv, len⟩ := scan_spec reenter (h.block blocked)
      refine ⟨t, by rw [scan, if_pos blocked, run], inv, ?_⟩
      rw [len]
      simp only [List.length_append, List.length_cons, List.length_nil]
      omega
    · have promise := h.promises task (by simp)
      obtain ⟨t, run, inv, len⟩ := scan_spec reenter (h.launch (Bool.not_eq_true _ ▸ blocked))
      refine ⟨t, by rw [scan, if_neg blocked, start_of_promise promise, Option.bind_some, run],
        inv, ?_⟩
      rw [len]
      simp only [ToolScheduler.launch, List.length_append, List.length_cons, List.length_nil]
      omega

theorem startQueuedTasks_spec (depth : ℕ) (h : ScanInv toLowerCase s [] s.queuedTasks) :
    ∃ t, startQueuedTasks toLowerCase depth s = some t ∧ Inv toLowerCase t ∧
      t.activeTasks.length + t.queuedTasks.length =
        s.activeTasks.length + s.queuedTasks.length := by
  cases depth <;> simpa [startQueuedTasks] using scan_spec _ h

theorem Inv.settle {i : ℕ} (h : Inv toLowerCase s)
    (next : step toLowerCase depth s (.settle i) = some t) :
    Inv toLowerCase t ∧ t.activeTasks.length + t.queuedTasks.length + 1 =
      s.activeTasks.length + s.queuedTasks.length := by
  obtain ⟨task, found, next⟩ := Option.bind_eq_some_iff.1 next
  have mem := List.mem_of_find?_eq_some found
  obtain ⟨t', run, inv, len⟩ := startQueuedTasks_spec depth (ScanInv.release h mem)
  obtain rfl : t' = t := Option.some.inj (run.symm.trans next)
  have released := length_release mem
  have same : (s.release task).queuedTasks = s.queuedTasks := rfl
  rw [same] at len
  exact ⟨inv, by omega⟩

theorem Inv.settle_isSome (h : Inv toLowerCase s) (mem : task ∈ s.activeTasks) :
    (step toLowerCase depth s (.settle task.id)).isSome := by
  cases found : s.activeTasks.find? (·.id = task.id) with
  | none => simpa using List.find?_eq_none.1 found task mem
  | some =>
    obtain ⟨t, run, _⟩ :=
      startQueuedTasks_spec depth (ScanInv.release h (List.mem_of_find?_eq_some found))
    simp [step, found, finish, run]

theorem Inv.add {task : ToolCallTask} (h : Inv toLowerCase s) (promise : task.startThrows = false)
    (next : step toLowerCase depth s (.add task) = some t) : Inv toLowerCase t := by
  have entered := ScanInv.enter h task promise
  simp only [step, ToolScheduler.add] at next
  split at next
  case isTrue blocked =>
    cases next
    exact { entered.block blocked with }
  case isFalse free =>
    rw [start_of_promise (by exact promise)] at next
    cases next
    exact { entered.launch (Bool.not_eq_true _ ▸ free) with }

theorem inv_init : Inv toLowerCase {} := by
  constructor <;> simp [Conflicting]

theorem Inv.step {call : Call} (h : Inv toLowerCase s) (promise : StartsPromise s call)
    (next : step toLowerCase depth s call = some t) : Inv toLowerCase t := by
  cases call with
  | add => exact h.add promise next
  | settle => exact (h.settle next).1

theorem Inv.exec_settle : ∀ {ids : List ℕ} {s : ToolScheduler}, Inv toLowerCase s →
    Transition.exec (ToolScheduler.step toLowerCase depth) s (ids.map .settle) = some t →
    ids.length + (t.activeTasks.length + t.queuedTasks.length) =
      s.activeTasks.length + s.queuedTasks.length
  | [], s, _, run => by
    obtain rfl : s = t := Option.some.inj run
    simp
  | i :: ids, s, h, run => by
    obtain ⟨u, next, rest⟩ := Option.bind_eq_some_iff.1 run
    obtain ⟨inv, len⟩ := h.settle next
    have := inv.exec_settle rest
    simp only [List.length_cons]
    omega

theorem Inv.waits_for (h : Inv toLowerCase s) (mem : task ∈ s.queuedTasks) :
    ∃ u ∈ s.activeTasks ++ s.queuedTasks, u.id < task.id ∧
      ToolAccesses.conflict toLowerCase u.accesses task.accesses = true := by
  obtain ⟨pre, post, split⟩ := List.append_of_mem mem
  obtain ⟨u, hu, conf⟩ := isBlocked_eq_true.1 (h.blocked pre task post split)
  rcases List.mem_append.1 hu with hu | hu
  · refine ⟨u, List.mem_append_left _ hu, h.earlier u hu task (by simpa using mem) conf, ?_⟩
    rwa [ToolAccesses.conflict_comm]
  · have sorted : s.queuedTasks.Pairwise fun a b => a.id < b.id := by simpa using h.sorted
    refine ⟨u, List.mem_append_right _ (by simp [split, hu]), ?_, ?_⟩
    · rw [split] at sorted
      exact (List.pairwise_append.1 sorted).2.2 u hu task (by simp)
    · rwa [ToolAccesses.conflict_comm]

theorem Inv.law (h : Inv toLowerCase s) : Law toLowerCase depth s where
  exclusion := by
    refine h.exclusion.imp_of_mem fun {a b} ha hb free => ?_
    rw [h.conflicting_iff (List.mem_append_left _ ha) (List.mem_append_left _ hb), free]
    simp
  order := h.order
  once := by simpa using h.startedCount
  progress := by
    intro idle
    rcases hq : s.queuedTasks with _ | ⟨first, queue⟩
    · rfl
    · -- the head of the queue has no earlier queued task to wait for
      have blocked := h.blocked [] first queue hq
      simp [isBlocked, conflictsWithAny, idle] at blocked
  undelayed := by
    intro t ht
    obtain ⟨u, hu, lt, conf⟩ := h.waits_for ht
    exact ⟨u, hu, lt, (h.conflicting_iff (by simpa using hu) (by simp [ht])).2 conf⟩
  settles := fun _ mem => h.settle_isSome mem
  drains := fun _ _ run => h.exec_settle run

/-- Whatever tasks are added and in whatever order their promises settle, the scheduling contract
holds in every state reached. -/
theorem law_of_run {calls : List Call}
    (run : Transition.Run (ToolScheduler.step toLowerCase depth) StartsPromise {} calls s) :
    Law toLowerCase depth s :=
  Inv.law (run.invariant _ inv_init fun _ _ _ h promise next => h.step promise next)

/-- A write, a conflicting read queued behind it, and the completion of the write. -/
def writeThenRead : List Call :=
  [.add { accesses := ToolAccesses.file .write "/a" none, startThrows := false },
    .add { accesses := ToolAccesses.file .read "/a" none, startThrows := false },
    .settle 0]

theorem law_writeThenRead : ∃ s,
    Transition.exec (Transition.guarded (step id 8) StartsPromise) {} writeThenRead = some s ∧
      s.events = [.started 0, .finished 0, .started 1] ∧ Law id 8 s := by
  have run : Transition.exec (Transition.guarded (step id 8) StartsPromise) {} writeThenRead =
      some _ := rfl
  exact ⟨_, run, by decide, law_of_run (.of_exec run)⟩

end ToolScheduler

end KimiCli
