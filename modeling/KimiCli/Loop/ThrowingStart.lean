import KimiCli.Loop.ToolScheduler

/-!
# Tasks whose start throws

A task whose `start()` throws is started, rejected and finished on the spot when nothing blocks it
as it is added.  A queued one is still in `queuedTasks` when `finish` re-enters `startQueuedTasks`,
so that it is started over and over again until the stack overflows.

`masked` forgets which tasks throw.  As long as no thrower is started from the queue, a scheduler
does on its masked state what it does for tasks that return a promise (`Masked.step`), and the laws
of those carry over.
-/

namespace KimiCli

def ScheduledToolCallTask.masked (task : ScheduledToolCallTask) : ScheduledToolCallTask :=
  { task with startThrows := false }

def ToolCallTask.masked (task : ToolCallTask) : ToolCallTask := { task with startThrows := false }

/-- The event of a rejection; a task that returns a promise has none. -/
def SchedulerEvent.isRejected : SchedulerEvent → Bool
  | .rejected _ => true
  | _ => false

namespace ToolScheduler

/-- The state with every task taken for one that returns a promise. -/
def masked (s : ToolScheduler) : ToolScheduler where
  activeTasks := s.activeTasks.map (·.masked)
  queuedTasks := s.queuedTasks.map (·.masked)
  added := s.added.map (·.masked)
  events := s.events.filter (!·.isRejected)

section Model

variable (toLowerCase : String → String)

/-- Each thrower among `rest` conflicts with one of `held` or with a task before it. -/
def ThrowersWait (held rest : List ScheduledToolCallTask) : Prop :=
  ∀ before task after, rest = before ++ task :: after → task.startThrows = true →
    conflictsWithAny toLowerCase task.toToolCallTask (held ++ before) = true

/-- The call starts no thrower from the queue: one that settles leaves each of them behind a
conflicting task that is active, or queued before it. -/
def QueuedThrowersWait (s : ToolScheduler) : Call → Prop
  | .add _ => True
  | .settle id =>
    ThrowersWait toLowerCase (s.activeTasks.eraseP (·.id = id)) s.queuedTasks

/-- A caller may add any task, and the promise of an active one may settle. -/
def Receivable (s : ToolScheduler) : Call → Prop
  | .add _ => True
  | .settle id => id ∈ s.activeTasks.map (·.id)

/-- The contract of a scheduler with throwing tasks. -/
structure ThrowLaw (depth : ℕ) (s : ToolScheduler) : Prop where
  /-- No two active tasks conflict. -/
  exclusion : s.activeTasks.Pairwise fun a b => ¬ Conflicting toLowerCase s a.id b.id
  /-- Of two conflicting tasks the one added first starts first, and finishes before the other
  starts. -/
  order : ∀ i j, i < j → Conflicting toLowerCase s i j → .started j ∈ s.events →
    [.started i, .finished i, .started j].Sublist s.events
  /-- An added task has been started once, or waits in the queue and has not been started. -/
  once : ∀ i < s.added.length,
    s.events.count (.started i) = if i ∈ s.queuedTasks.map (·.id) then 0 else 1
  /-- A thrower is rejected once, when it has been started, and no other task is. -/
  rejected : ∀ i task, s.added[i]? = some task → s.events.count (.rejected i) =
    if task.startThrows = true ∧ i ∉ s.queuedTasks.map (·.id) then 1 else 0
  /-- A thrower that has been started is rejected and finished. -/
  handled : ∀ i task, s.added[i]? = some task → task.startThrows = true →
    i ∉ s.queuedTasks.map (·.id) → [.started i, .rejected i, .finished i].Sublist s.events ∧
      i ∉ s.activeTasks.map (·.id)
  /-- Nothing waits while nothing runs. -/
  progress : s.activeTasks = [] → s.queuedTasks = []
  /-- A task waits only for an unfinished task that it conflicts with and that was added earlier. -/
  undelayed : ∀ t ∈ s.queuedTasks, ∃ u ∈ s.activeTasks ++ s.queuedTasks, u.id < t.id ∧
    Conflicting toLowerCase s u.id t.id
  /-- When the active tasks keep settling, every added task is started. -/
  drains : ∀ calls t, Transition.Run (step toLowerCase depth) (QueuedThrowersWait toLowerCase) s
    calls t → (∀ call ∈ calls, ∃ id, call = .settle id) →
    calls.length + (t.activeTasks.length + t.queuedTasks.length) =
      s.activeTasks.length + s.queuedTasks.length

end Model

variable {toLowerCase : String → String} {s t : ToolScheduler}
  {task : ScheduledToolCallTask} {held still rest : List ScheduledToolCallTask} {depth : ℕ}

/-! ## The masked state -/

theorem conflictsWithAny_masked (task : ToolCallTask) (candidates : List ScheduledToolCallTask) :
    conflictsWithAny toLowerCase task.masked (candidates.map (·.masked)) =
      conflictsWithAny toLowerCase task candidates := by
  simp only [conflictsWithAny, List.any_map]
  rfl

theorem isBlocked_masked (s : ToolScheduler) (task : ToolCallTask)
    (queuedBefore : List ScheduledToolCallTask) :
    isBlocked toLowerCase s.masked task.masked (queuedBefore.map (·.masked)) =
      isBlocked toLowerCase s task queuedBefore := by
  rw [isBlocked, isBlocked, masked, conflictsWithAny_masked, conflictsWithAny_masked]

theorem conflicting_masked (s : ToolScheduler) (i j : ℕ) :
    Conflicting toLowerCase s.masked i j ↔ Conflicting toLowerCase s i j := by
  simp only [Conflicting, masked, List.getElem?_map, Option.map_eq_some_iff]
  constructor
  · rintro ⟨a, b, ⟨a', ha, rfl⟩, ⟨b', hb, rfl⟩, conf⟩
    exact ⟨a', b', ha, hb, conf⟩
  · rintro ⟨a, b, ha, hb, conf⟩
    exact ⟨a.masked, b.masked, ⟨a, ha, rfl⟩, ⟨b, hb, rfl⟩, conf⟩

theorem ids_masked (tasks : List ScheduledToolCallTask) :
    (tasks.map (·.masked)).map (·.id) = tasks.map (·.id) := by
  rw [List.map_map]
  rfl

theorem launch_masked (s : ToolScheduler) (task : ScheduledToolCallTask) :
    (s.launch task).masked = s.masked.launch task.masked := by
  simp only [launch, masked, List.map_append, List.filter_append]
  rfl

theorem eraseP_masked (tasks : List ScheduledToolCallTask) (id : ℕ) :
    (tasks.map (·.masked)).eraseP (·.id = id) = (tasks.eraseP (·.id = id)).map (·.masked) :=
  List.eraseP_map

theorem release_masked (s : ToolScheduler) (task : ScheduledToolCallTask) :
    (s.release task).masked = s.masked.release task.masked := by
  simp only [release, masked, List.filter_append]
  rw [show task.masked.id = task.id from rfl, eraseP_masked]
  rfl

theorem count_masked (s : ToolScheduler) (i : ℕ) :
    s.masked.events.count (.started i) = s.events.count (.started i) :=
  List.count_filter rfl

/-! ## The loop over the queue -/

theorem ThrowersWait.next (waits : ThrowersWait toLowerCase held (task :: rest)) :
    ThrowersWait toLowerCase (held ++ [task]) rest := by
  intro before thrower after split throws
  have := waits (task :: before) thrower after (by rw [split, List.cons_append]) throws
  rwa [List.append_assoc, List.singleton_append]

theorem conflictsWithAny_congr {tasks : List ScheduledToolCallTask}
    (same : ∀ u, u ∈ held ↔ u ∈ tasks) (task : ToolCallTask) :
    conflictsWithAny toLowerCase task held = conflictsWithAny toLowerCase task tasks := by
  rw [Bool.eq_iff_iff]
  simp only [conflictsWithAny, List.any_eq_true, same]

theorem ThrowersWait.congr {tasks : List ScheduledToolCallTask}
    (waits : ThrowersWait toLowerCase held rest) (same : ∀ u, u ∈ held ↔ u ∈ tasks) :
    ThrowersWait toLowerCase tasks rest := by
  intro before thrower after split throws
  rw [← waits before thrower after split throws]
  refine conflictsWithAny_congr (fun u => ?_) _
  simp only [List.mem_append, same]

theorem isBlocked_eq (s : ToolScheduler) (task : ToolCallTask) :
    isBlocked toLowerCase s task still =
      conflictsWithAny toLowerCase task (s.activeTasks ++ still) := by
  rw [isBlocked, conflictsWithAny, conflictsWithAny, conflictsWithAny, List.any_append]

/-- What a loop over `rest` that starts no thrower leaves behind. -/
structure Scanned (s : ToolScheduler) (still rest : List ScheduledToolCallTask)
    (t : ToolScheduler) : Prop where
  added : t.added = s.added
  kept : ∀ q ∈ still, q ∈ t.queuedTasks
  throwers : ∀ q ∈ rest, q.startThrows = true → q ∈ t.queuedTasks
  queued : ∀ q ∈ t.queuedTasks, q ∈ still ++ rest
  active : ∀ a ∈ t.activeTasks, a ∈ s.activeTasks ∨ a ∈ rest ∧ a.startThrows = false
  events : ∃ ids : List ℕ, t.events = s.events ++ ids.map .started

/-- While its throwers wait, the loop does what it does on the masked state. -/
theorem scan_masked (reenter reenter' : ToolScheduler → Option ToolScheduler) :
    ∀ {rest still : List ScheduledToolCallTask} {s : ToolScheduler},
    ThrowersWait toLowerCase (s.activeTasks ++ still) rest →
    ∃ t, scan toLowerCase reenter rest still s = some t ∧
      scan toLowerCase reenter' (rest.map (·.masked)) (still.map (·.masked)) s.masked =
        some t.masked ∧ Scanned s still rest t
  | [], still, s, _ =>
    ⟨{ s with queuedTasks := still }, rfl, rfl,
      { added := rfl
        kept := fun _ mem => mem
        throwers := fun _ mem => nomatch mem
        queued := fun _ mem => List.mem_append_left _ mem
        active := fun _ mem => .inl mem
        events := ⟨[], (List.append_nil _).symm⟩ }⟩
  | task :: rest, still, s, waits => by
    rw [List.map_cons, scan, scan]
    have blocked' : isBlocked toLowerCase s.masked task.masked.toToolCallTask
        (still.map (·.masked)) = isBlocked toLowerCase s task.toToolCallTask still :=
      isBlocked_masked s task.toToolCallTask still
    rw [blocked']
    by_cases blocked : isBlocked toLowerCase s task.toToolCallTask still = true
    · rw [if_pos blocked, if_pos blocked]
      have later : ThrowersWait toLowerCase (s.activeTasks ++ (still ++ [task])) rest := by
        rw [← List.append_assoc]
        exact waits.next
      obtain ⟨t, run, run', scanned⟩ := scan_masked reenter reenter' later
      rw [List.map_append] at run'
      refine ⟨t, run, run',
        { scanned with
          kept := fun q mem => scanned.kept q (List.mem_append_left _ mem)
          throwers := ?_
          queued := fun q mem => by simpa using scanned.queued q mem
          active := fun a mem => (scanned.active a mem).imp_right fun new =>
            ⟨List.mem_cons_of_mem _ new.1, new.2⟩ }⟩
      intro q mem throws
      rcases List.mem_cons.1 mem with rfl | mem
      · exact scanned.kept q (by simp)
      · exact scanned.throwers q mem throws
    · -- a thrower would wait, so that this task is none
      have promise : task.startThrows = false := by
        refine Bool.eq_false_iff.2 fun throws => blocked ?_
        have := waits [] task rest rfl throws
        rwa [List.append_nil, ← isBlocked_eq] at this
      have later : ThrowersWait toLowerCase ((s.launch task).activeTasks ++ still) rest := by
        refine waits.next.congr fun u => ?_
        simp only [launch, List.mem_append]
        tauto
      obtain ⟨t, run, run', scanned⟩ := scan_masked reenter reenter' later
      rw [launch_masked] at run'
      rw [if_neg blocked, if_neg blocked, start_of_promise promise, start_of_promise rfl]
      refine ⟨t, run, run',
        { scanned with throwers := ?_, queued := ?_, active := ?_, events := ?_ }⟩
      · intro q mem throws
        rcases List.mem_cons.1 mem with rfl | mem
        · rw [promise] at throws
          cases throws
        · exact scanned.throwers q mem throws
      · intro q mem
        have := scanned.queued q mem
        simp only [List.mem_append, List.mem_cons] at this ⊢
        tauto
      · intro a mem
        rcases scanned.active a mem with old | new
        · rcases List.mem_append.1 old with old | new
          · exact .inl old
          · rw [List.mem_singleton.1 new]
            exact .inr ⟨List.mem_cons_self .., promise⟩
        · exact .inr ⟨List.mem_cons_of_mem _ new.1, new.2⟩
      · obtain ⟨ids, more⟩ := scanned.events
        refine ⟨task.id :: ids, ?_⟩
        rw [more, launch, List.append_assoc]
        rfl

theorem startQueuedTasks_masked (depth : ℕ)
    (waits : ThrowersWait toLowerCase s.activeTasks s.queuedTasks) :
    ∃ t, startQueuedTasks toLowerCase depth s = some t ∧
      startQueuedTasks toLowerCase depth s.masked = some t.masked ∧
      Scanned s [] s.queuedTasks t := by
  have waits' : ThrowersWait toLowerCase (s.activeTasks ++ []) s.queuedTasks := by
    rwa [List.append_nil]
  cases depth with
  | zero => exact scan_masked _ _ waits'
  | succ => exact scan_masked _ _ waits'

/-! ## A thrower that does not wait -/

/-- One of the throwers in the queue is blocked by nothing. -/
def Unleashed (toLowerCase : String → String) (s : ToolScheduler) : Prop :=
  ∃ before thrower after, s.queuedTasks = before ++ thrower :: after ∧
    thrower.startThrows = true ∧ ∀ u ∈ s.activeTasks ++ before, u.id ≠ thrower.id ∧
      ToolAccesses.conflict toLowerCase thrower.accesses u.accesses = false

/-- The loop comes to an unleashed thrower, and is entered again from its `finish`. -/
theorem scan_unleashed {reenter : ToolScheduler → Option ToolScheduler}
    (again : ∀ s, Unleashed toLowerCase s → reenter s = none)
    {before after : List ScheduledToolCallTask} {thrower : ScheduledToolCallTask}
    (throws : thrower.startThrows = true) :
    ∀ {pre still : List ScheduledToolCallTask} {s : ToolScheduler},
    s.queuedTasks = before ++ thrower :: after → (∀ u ∈ pre, u ∈ before) →
    (∀ u ∈ s.activeTasks ++ (before ++ still), u.id ≠ thrower.id ∧
      ToolAccesses.conflict toLowerCase thrower.accesses u.accesses = false) →
    scan toLowerCase reenter (pre ++ thrower :: after) still s = none
  | [], still, s, queue, _, free => by
    have unblocked : isBlocked toLowerCase s thrower.toToolCallTask still = false := by
      refine isBlocked_eq_false.2 fun u mem => (free u ?_).2
      simp only [List.mem_append] at mem ⊢
      tauto
    have released : (s.activeTasks ++ [thrower]).eraseP (·.id = thrower.id) = s.activeTasks := by
      rw [List.eraseP_append_right _ fun u mem => ?_]
      · simp
      · simpa using (free u (List.mem_append_left _ mem)).1
    rw [List.nil_append, scan, unblocked, if_neg Bool.false_ne_true, start]
    rw [if_pos throws, again, Option.bind_none]
    refine ⟨before, thrower, after, queue, throws, fun u mem => free u ?_⟩
    simp only [release, launch, released, List.mem_append] at mem ⊢
    tauto
  | task :: pre, still, s, queue, sub, free => by
    have mine := sub task (List.mem_cons_self ..)
    have sub' : ∀ u ∈ pre, u ∈ before := fun u mem => sub u (List.mem_cons_of_mem _ mem)
    have launched : ∀ u ∈ s.activeTasks ++ [task], u.id ≠ thrower.id ∧
        ToolAccesses.conflict toLowerCase thrower.accesses u.accesses = false := by
      intro u mem
      rcases List.mem_append.1 mem with mem | mem
      · exact free u (List.mem_append_left _ mem)
      · rw [List.mem_singleton.1 mem]
        exact free task (by simp [mine])
    rw [List.cons_append, scan]
    split
    case isTrue =>
      refine scan_unleashed again throws queue sub' fun u mem => ?_
      simp only [List.mem_append, List.mem_singleton] at mem
      rcases mem with mem | mem | mem | rfl
      · exact free u (by simp [mem])
      · exact free u (by simp [mem])
      · exact free u (by simp [mem])
      · exact free u (by simp [mine])
    case isFalse =>
      by_cases promise : task.startThrows = true
      · rw [start, if_pos promise, again, Option.bind_none]
        refine ⟨before, thrower, after, queue, throws, fun u mem => ?_⟩
        rcases List.mem_append.1 mem with mem | mem
        · exact launched u (List.eraseP_subset mem)
        · exact free u (by simp [mem])
      · rw [start_of_promise (Bool.eq_false_iff.2 promise), Option.bind_some]
        refine scan_unleashed again throws queue sub' fun u mem => ?_
        rcases List.mem_append.1 mem with mem | mem
        · exact launched u mem
        · exact free u (List.mem_append_right _ mem)

/-- An unleashed thrower overflows every stack. -/
theorem startQueuedTasks_unleashed : ∀ (depth : ℕ) (s : ToolScheduler),
    Unleashed toLowerCase s → startQueuedTasks toLowerCase depth s = none
  | 0, s, ⟨before, thrower, after, queue, throws, free⟩ => by
    rw [startQueuedTasks, queue]
    refine scan_unleashed (fun _ _ => rfl) throws queue (fun _ mem => mem) ?_
    rwa [List.append_nil]
  | depth + 1, s, ⟨before, thrower, after, queue, throws, free⟩ => by
    rw [startQueuedTasks, queue]
    refine scan_unleashed (startQueuedTasks_unleashed depth) throws queue (fun _ mem => mem) ?_
    rwa [List.append_nil]

/-! ## The steps of a scheduler with throwing tasks -/

/-- What is known of the throwers between two calls. -/
structure Thrown (s : ToolScheduler) : Prop where
  known : ∀ t ∈ s.activeTasks ++ s.queuedTasks, s.added[t.id]? = some t.toToolCallTask
  quiet : ∀ a ∈ s.activeTasks, a.startThrows = false
  rejectedKnown : ∀ i, .rejected i ∈ s.events → i < s.added.length
  notRejected : ∀ i task, s.added[i]? = some task →
    task.startThrows = false ∨ i ∈ s.queuedTasks.map (·.id) → s.events.count (.rejected i) = 0
  rejected : ∀ i task, s.added[i]? = some task → task.startThrows = true →
    i ∉ s.queuedTasks.map (·.id) → s.events.count (.rejected i) = 1 ∧
      [.started i, .rejected i, .finished i].Sublist s.events

theorem thrown_init : Thrown {} := by
  constructor <;> simp

theorem Thrown.release (thrown : Thrown s) (task : ScheduledToolCallTask) :
    Thrown (s.release task) := by
  have count : ∀ i, (s.release task).events.count (.rejected i) = s.events.count (.rejected i) := by
    intro i
    simp [ToolScheduler.release]
  exact
    { known := fun t mem => thrown.known t <| by
        rcases List.mem_append.1 mem with mem | mem
        · exact List.mem_append_left _ (List.eraseP_subset mem)
        · exact List.mem_append_right _ mem
      quiet := fun a mem => thrown.quiet a (List.eraseP_subset mem)
      rejectedKnown := fun i mem =>
        thrown.rejectedKnown i (by simpa [ToolScheduler.release] using mem)
      notRejected := fun i added found waits => by
        rw [count]
        exact thrown.notRejected i added found waits
      rejected := fun i added found throws out => by
        obtain ⟨once, handled⟩ := thrown.rejected i added found throws out
        rw [count]
        exact ⟨once, handled.trans (List.sublist_append_left _ _)⟩ }

/-- A loop over the queue in which the throwers wait keeps what is known of them. -/
theorem Thrown.scanned (thrown : Thrown s) (scanned : Scanned s [] s.queuedTasks t) : Thrown t := by
  obtain ⟨ids, more⟩ := scanned.events
  have queued : ∀ i task, s.added[i]? = some task → task.startThrows = true →
      (i ∈ t.queuedTasks.map (·.id) ↔ i ∈ s.queuedTasks.map (·.id)) := by
    intro i task found throws
    constructor
    · intro mem
      obtain ⟨q, inQueue, rfl⟩ := List.mem_map.1 mem
      exact List.mem_map_of_mem (scanned.queued q inQueue)
    · intro mem
      obtain ⟨q, inQueue, rfl⟩ := List.mem_map.1 mem
      have same := (thrown.known q (List.mem_append_right _ inQueue)).symm.trans found
      refine List.mem_map_of_mem (scanned.throwers q inQueue ?_)
      rw [← Option.some.inj same] at throws
      exact throws
  have count : ∀ i, t.events.count (.rejected i) = s.events.count (.rejected i) := by
    intro i
    have quiet : (ids.map SchedulerEvent.started).count (.rejected i) = 0 :=
      List.count_eq_zero.2 fun mem => by simp at mem
    rw [more, List.count_append, quiet, Nat.add_zero]
  exact
    { known := by
        intro q mem
        rw [scanned.added]
        refine thrown.known q ?_
        rcases List.mem_append.1 mem with mem | mem
        · rcases scanned.active q mem with old | new
          · exact List.mem_append_left _ old
          · exact List.mem_append_right _ new.1
        · exact List.mem_append_right _ (scanned.queued q mem)
      quiet := fun a mem => (scanned.active a mem).elim (thrown.quiet a) And.right
      rejectedKnown := by
        intro i mem
        rw [more] at mem
        rw [scanned.added]
        exact thrown.rejectedKnown i (by simpa using mem)
      notRejected := by
        intro i task found waits
        rw [scanned.added] at found
        rw [count]
        refine thrown.notRejected i task found (waits.imp_right fun mem => ?_)
        obtain ⟨q, inQueue, rfl⟩ := List.mem_map.1 mem
        exact List.mem_map_of_mem (scanned.queued q inQueue)
      rejected := by
        intro i task found throws out
        rw [scanned.added] at found
        rw [queued i task found throws] at out
        obtain ⟨once, handled⟩ := thrown.rejected i task found throws out
        rw [count, more]
        exact ⟨once, handled.trans (List.sublist_append_left _ _)⟩ }

theorem Thrown.enter (thrown : Thrown s) {task : ToolCallTask} {more : List SchedulerEvent}
    (added : t.added = s.added ++ [task]) (events : t.events = s.events ++ more)
    (active : ∀ a ∈ t.activeTasks, a ∈ s.activeTasks ∨
      a = { task with id := s.added.length } ∧ task.startThrows = false)
    (queue : ∀ q ∈ t.queuedTasks, q ∈ s.queuedTasks ∨ q = { task with id := s.added.length })
    (kept : ∀ q ∈ s.queuedTasks, q ∈ t.queuedTasks)
    (others : ∀ i, .rejected i ∈ more → i = s.added.length)
    (notRejected : task.startThrows = false ∨ s.added.length ∈ t.queuedTasks.map (·.id) →
      more.count (.rejected s.added.length) = 0)
    (rejected : task.startThrows = true → s.added.length ∉ t.queuedTasks.map (·.id) →
      more.count (.rejected s.added.length) = 1 ∧ [.started s.added.length,
        .rejected s.added.length, .finished s.added.length].Sublist more) : Thrown t := by
  have fresh : s.events.count (.rejected s.added.length) = 0 :=
    List.count_eq_zero.2 fun mem => lt_irrefl _ (thrown.rejectedKnown _ mem)
  have split : ∀ (i : ℕ) task', t.added[i]? = some task' →
      (i < s.added.length ∧ s.added[i]? = some task') ∨ (i = s.added.length ∧ task' = task) := by
    intro i task' found
    rw [added] at found
    rcases Nat.lt_or_ge i s.added.length with lt | ge
    · rw [List.getElem?_append_left lt] at found
      exact .inl ⟨lt, found⟩
    · have last : i = s.added.length := by
        have := (List.getElem?_eq_some_iff.1 found).1
        rw [List.length_append, List.length_singleton] at this
        omega
      rw [last, List.getElem?_concat_length] at found
      exact .inr ⟨last, (Option.some.inj found).symm⟩
  have queued : ∀ i, i < s.added.length →
      (i ∈ t.queuedTasks.map (·.id) ↔ i ∈ s.queuedTasks.map (·.id)) := by
    intro i lt
    constructor
    · intro mem
      obtain ⟨q, inQueue, rfl⟩ := List.mem_map.1 mem
      rcases queue q inQueue with old | rfl
      · exact List.mem_map_of_mem old
      · exact absurd lt (lt_irrefl _)
    · intro mem
      obtain ⟨q, inQueue, rfl⟩ := List.mem_map.1 mem
      exact List.mem_map_of_mem (kept q inQueue)
  have count : ∀ i, i < s.added.length →
      t.events.count (.rejected i) = s.events.count (.rejected i) := by
    intro i lt
    have quiet : more.count (.rejected i) = 0 :=
      List.count_eq_zero.2 fun mem => lt.ne (others i mem)
    rw [events, List.count_append, quiet, Nat.add_zero]
  have old : ∀ (i : ℕ) task', s.added[i]? = some task' → t.added[i]? = some task' := by
    intro i task' found
    rw [added, List.getElem?_append_left (List.getElem?_eq_some_iff.1 found).1, found]
  have new : t.added[s.added.length]? = some task := by
    rw [added, List.getElem?_concat_length]
  exact
    { known := by
        intro q mem
        rcases List.mem_append.1 mem with mem | mem
        · rcases active q mem with mem | ⟨rfl, -⟩
          · exact old _ _ (thrown.known q (List.mem_append_left _ mem))
          · exact new
        · rcases queue q mem with mem | rfl
          · exact old _ _ (thrown.known q (List.mem_append_right _ mem))
          · exact new
      quiet := by
        intro a mem
        rcases active a mem with mem | ⟨rfl, promise⟩
        · exact thrown.quiet a mem
        · exact promise
      rejectedKnown := by
        intro i mem
        rw [events, List.mem_append] at mem
        rw [added, List.length_append, List.length_singleton]
        rcases mem with mem | mem
        · exact (thrown.rejectedKnown i mem).trans (Nat.lt_succ_self _)
        · rw [others i mem]
          exact Nat.lt_succ_self _
      notRejected := by
        intro i task' found waits
        rcases split i task' found with ⟨lt, found⟩ | ⟨rfl, rfl⟩
        · rw [count i lt]
          exact thrown.notRejected i task' found (waits.imp_right (queued i lt).1)
        · rw [events, List.count_append, fresh, notRejected waits]
      rejected := by
        intro i task' found throws out
        rcases split i task' found with ⟨lt, found⟩ | ⟨rfl, rfl⟩
        · rw [queued i lt] at out
          obtain ⟨once, handled⟩ := thrown.rejected i task' found throws out
          rw [count i lt, events]
          exact ⟨once, handled.trans (List.sublist_append_left _ _)⟩
        · obtain ⟨once, handled⟩ := rejected throws out
          rw [events, List.count_append, fresh, once]
          exact ⟨rfl, handled.trans (List.sublist_append_right _ _)⟩ }

theorem throwersWait_of_inv (inv : Inv toLowerCase s.masked) :
    ThrowersWait toLowerCase s.activeTasks s.queuedTasks := by
  intro before task after split _
  have := inv.blocked (before.map (·.masked)) task.masked (after.map (·.masked)) (by
    rw [masked, split, List.map_append, List.map_cons])
  rwa [← isBlocked_eq, ← isBlocked_masked]

theorem unleashed_of_not_wait (inv : Inv toLowerCase s.masked) (task : ScheduledToolCallTask)
    (not : ¬ThrowersWait toLowerCase (s.release task).activeTasks s.queuedTasks) :
    Unleashed toLowerCase (s.release task) := by
  simp only [ThrowersWait, not_forall] at not
  obtain ⟨before, thrower, after, split, throws, free⟩ := not
  simp only [conflictsWithAny, List.any_eq_true, not_exists, not_and, Bool.not_eq_true] at free
  have inQueue : thrower.masked ∈ s.masked.queuedTasks ++ [] := by
    rw [List.append_nil, masked, split]
    exact List.mem_map_of_mem (by simp)
  have sorted : s.queuedTasks.Pairwise fun a b => a.id < b.id := by
    have := inv.sorted
    rw [List.append_nil, masked, List.pairwise_map] at this
    exact this
  refine ⟨before, thrower, after, split, throws, fun u mem => ⟨?_, free u mem⟩⟩
  rcases List.mem_append.1 mem with mem | mem
  · exact inv.disjoint u.masked (List.mem_map_of_mem (List.eraseP_subset mem)) thrower.masked
      inQueue
  · rw [split] at sorted
    exact ((List.pairwise_append.1 sorted).2.2 u mem thrower (List.mem_cons_self ..)).ne

/-- The settlement of an active task is handled when the throwers wait, and only then. -/
theorem settle_spec (depth : ℕ) (inv : Inv toLowerCase s.masked) (thrown : Thrown s) {id : ℕ}
    (found : s.activeTasks.find? (·.id = id) = some task)
    (waits : QueuedThrowersWait toLowerCase s (.settle id)) :
    ∃ t, step toLowerCase depth s (.settle id) = some t ∧ Inv toLowerCase t.masked ∧ Thrown t ∧
      t.activeTasks.length + t.queuedTasks.length + 1 =
        s.activeTasks.length + s.queuedTasks.length := by
  have isId : task.id = id := by simpa using List.find?_some found
  obtain ⟨t, run, run', scanned⟩ := startQueuedTasks_masked (s := s.release task) depth (by
    rw [release, isId]
    exact waits)
  have found' : s.masked.activeTasks.find? (·.id = id) = some task.masked := by
    rw [masked, List.find?_map]
    exact congrArg (Option.map _) found
  have next : step toLowerCase depth s.masked (.settle id) = some t.masked := by
    rw [step, found', Option.bind_some, finish, ← release_masked, run']
  obtain ⟨inv', len⟩ := inv.settle next
  simp only [masked, List.length_map] at len
  refine ⟨t, ?_, inv', (thrown.release task).scanned scanned, len⟩
  rw [step, found, Option.bind_some, finish, run]

theorem settle_unleashed (inv : Inv toLowerCase s.masked) {id : ℕ}
    (leash : ¬QueuedThrowersWait toLowerCase s (.settle id)) :
    step toLowerCase depth s (.settle id) = none := by
  rw [step]
  cases found : s.activeTasks.find? (·.id = id) with
  | none => rfl
  | some task =>
    have isId : task.id = id := by simpa using List.find?_some found
    rw [Option.bind_some, finish]
    refine startQueuedTasks_unleashed depth _ (unleashed_of_not_wait inv task ?_)
    rw [release, isId]
    exact leash

theorem Thrown.lt (thrown : Thrown s) (mem : task ∈ s.activeTasks ++ s.queuedTasks) :
    task.id < s.added.length :=
  (List.getElem?_eq_some_iff.1 (thrown.known task mem)).1

/-- The state in which `finish` takes up the queue after a thrower was added that nothing blocks. -/
def rejectNew (s : ToolScheduler) (task : ToolCallTask) : ToolScheduler :=
  { s with
    added := s.added ++ [task]
    events := s.events ++ [.started s.added.length, .rejected s.added.length,
      .finished s.added.length] }

theorem eraseP_last (tasks : List ScheduledToolCallTask) (task : ScheduledToolCallTask)
    (fresh : ∀ u ∈ tasks, u.id ≠ task.id) :
    (tasks ++ [task]).eraseP (·.id = task.id) = tasks := by
  rw [List.eraseP_append_right _ fun u mem => ?_]
  · simp
  · simpa using fresh u mem

theorem add_of_thrower (thrown : Thrown s) {task : ToolCallTask} (throws : task.startThrows = true)
    (free : isBlocked toLowerCase s task s.queuedTasks = false) :
    step toLowerCase depth s (.add task) =
      startQueuedTasks toLowerCase depth (s.rejectNew task) := by
  have erased := eraseP_last s.activeTasks { task with id := s.added.length } fun u mem =>
    (thrown.lt (List.mem_append_left _ mem)).ne
  have unblocked : isBlocked toLowerCase { s with added := s.added ++ [task] } task
      s.queuedTasks = false := free
  rw [step, add]
  rw [unblocked, if_neg Bool.false_ne_true, start, if_pos throws]
  simp only [release, launch, erased, rejectNew, List.append_assoc, List.cons_append,
    List.nil_append]

theorem rejectNew_masked (thrown : Thrown s) {task : ToolCallTask} :
    (s.rejectNew task).masked =
      (launch { s.masked with added := s.masked.added ++ [task.masked] }
        { task.masked with id := s.masked.added.length }).release
          { task.masked with id := s.masked.added.length } := by
  have length : s.masked.added.length = s.added.length := List.length_map _
  have erased := eraseP_last s.masked.activeTasks
    { task.masked with id := s.masked.added.length } fun u mem => by
      obtain ⟨a, active, rfl⟩ := List.mem_map.1 mem
      rw [length]
      exact (thrown.lt (List.mem_append_left _ active)).ne
  simp only [release, launch, erased]
  rw [length]
  simp only [masked, rejectNew, List.filter_append, List.map_append, List.append_assoc]
  rfl

theorem add_thrower (inv : Inv toLowerCase s.masked) (thrown : Thrown s) {task : ToolCallTask}
    (throws : task.startThrows = true)
    (free : isBlocked toLowerCase s task s.queuedTasks = false) :
    ∃ t, step toLowerCase depth s (.add task) = some t ∧ Inv toLowerCase t.masked ∧ Thrown t := by
  obtain ⟨t, run, run', scanned⟩ :=
    startQueuedTasks_masked (s := s.rejectNew task) depth (throwersWait_of_inv (s := s) inv)
  have launched : ScanInv toLowerCase
      (launch { s.masked with added := s.masked.added ++ [task.masked] }
        { task.masked with id := s.masked.added.length }) s.masked.queuedTasks [] := by
    refine (ScanInv.enter inv task.masked rfl).launch ?_
    exact (isBlocked_masked s task s.queuedTasks).trans free
  have released : ScanInv toLowerCase (s.rejectNew task).masked [] s.masked.queuedTasks := by
    rw [rejectNew_masked thrown]
    exact launched.release (List.mem_append_right _ (List.mem_singleton.2 rfl))
  obtain ⟨t', again, inv', -⟩ := startQueuedTasks_spec depth released
  cases run'.symm.trans again
  refine ⟨t, (add_of_thrower thrown throws free).trans run, inv', ?_⟩
  refine Thrown.scanned (s := s.rejectNew task) (Thrown.enter thrown rfl rfl
    (fun _ mem => .inl mem) (fun _ mem => .inl mem) (fun _ mem => mem) ?_ ?_ ?_) scanned
  · intro i mem
    simpa using mem
  · rintro (promise | queued)
    · rw [promise] at throws
      cases throws
    · obtain ⟨q, mem, last⟩ := List.mem_map.1 queued
      exact absurd last (thrown.lt (List.mem_append_right _ mem)).ne
  · intro _ _
    exact ⟨by simp, .refl _⟩

theorem add_other (inv : Inv toLowerCase s.masked) (thrown : Thrown s) {task : ToolCallTask}
    (other : task.startThrows = false ∨ isBlocked toLowerCase s task s.queuedTasks = true) :
    ∃ t, step toLowerCase depth s (.add task) = some t ∧ Inv toLowerCase t.masked ∧ Thrown t := by
  have entered := ScanInv.enter inv task.masked rfl
  have same : isBlocked toLowerCase { s.masked with added := s.masked.added ++ [task.masked] }
      task.masked s.masked.queuedTasks = isBlocked toLowerCase s task s.queuedTasks :=
    isBlocked_masked s task s.queuedTasks
  have enterMasked : s.masked.added ++ [task.masked] = (s.added ++ [task]).map (·.masked) := by
    rw [List.map_append]
    rfl
  have length : s.masked.added.length = s.added.length := List.length_map _
  by_cases blocked : isBlocked toLowerCase s task s.queuedTasks = true
  · refine ⟨_, if_pos blocked, ?_, ?_⟩
    · have inv' := entered.block (same.trans blocked)
      rw [enterMasked, length] at inv'
      rw [Inv, masked]
      rw [List.map_append]
      exact { inv' with }
    · refine thrown.enter rfl (List.append_nil _).symm (fun _ mem => .inl mem) ?_ ?_ ?_ ?_ ?_
      · intro q mem
        exact (List.mem_append.1 mem).imp_right List.mem_singleton.1
      · exact fun q mem => List.mem_append_left _ mem
      · exact fun i mem => nomatch mem
      · exact fun _ => rfl
      · exact fun _ out => absurd (by simp) out
  · have promise := other.resolve_right blocked
    refine ⟨_, (if_neg blocked).trans (start_of_promise promise), ?_, ?_⟩
    · have inv' := entered.launch (same.trans (Bool.eq_false_iff.2 blocked))
      rw [enterMasked, length] at inv'
      rw [Inv, launch_masked]
      exact { inv' with }
    · refine thrown.enter rfl rfl ?_ (fun _ mem => .inl mem) (fun _ mem => mem) ?_ ?_ ?_
      · intro a mem
        exact (List.mem_append.1 mem).imp_right fun new => ⟨List.mem_singleton.1 new, promise⟩
      · exact fun i mem => by simp at mem
      · exact fun _ => by simp
      · intro throws
        rw [promise] at throws
        cases throws

theorem add_spec (depth : ℕ) (inv : Inv toLowerCase s.masked) (thrown : Thrown s)
    (task : ToolCallTask) :
    ∃ t, step toLowerCase depth s (.add task) = some t ∧ Inv toLowerCase t.masked ∧ Thrown t := by
  by_cases throws : task.startThrows = true
  · by_cases blocked : isBlocked toLowerCase s task s.queuedTasks = true
    · exact add_other inv thrown (.inr blocked)
    · exact add_thrower inv thrown throws (Bool.eq_false_iff.2 blocked)
  · exact add_other inv thrown (.inl (Bool.eq_false_iff.2 throws))

theorem Thrown.step {call : Call} (inv : Inv toLowerCase s.masked) (thrown : Thrown s)
    (waits : QueuedThrowersWait toLowerCase s call)
    (next : ToolScheduler.step toLowerCase depth s call = some t) :
    Inv toLowerCase t.masked ∧ Thrown t := by
  cases call with
  | add task =>
    obtain ⟨t', next', inv', thrown'⟩ := add_spec depth inv thrown task
    cases next.symm.trans next'
    exact ⟨inv', thrown'⟩
  | settle =>
    obtain ⟨task, found, -⟩ := Option.bind_eq_some_iff.1 next
    obtain ⟨t', next', inv', thrown', -⟩ := settle_spec depth inv thrown found waits
    cases next.symm.trans next'
    exact ⟨inv', thrown'⟩

variable {calls : List Call}

theorem thrown_of_run (inv : Inv toLowerCase s.masked) (thrown : Thrown s)
    (run : Transition.Run (step toLowerCase depth) (QueuedThrowersWait toLowerCase) s calls t) :
    Inv toLowerCase t.masked ∧ Thrown t :=
  run.invariant (fun u => Inv toLowerCase u.masked ∧ Thrown u) ⟨inv, thrown⟩
    fun _ _ _ holds waits next => holds.2.step holds.1 waits next

/-! ## The contract -/

/-- Every settlement takes one unfinished task away. -/
theorem drains_of_run (inv : Inv toLowerCase s.masked) (thrown : Thrown s)
    (run : Transition.Run (step toLowerCase depth) (QueuedThrowersWait toLowerCase) s calls t)
    (settles : ∀ call ∈ calls, ∃ id, call = .settle id) :
    calls.length + (t.activeTasks.length + t.queuedTasks.length) =
      s.activeTasks.length + s.queuedTasks.length := by
  induction run with
  | nil => simp
  | snoc before waits next ih =>
    obtain ⟨inv', thrown'⟩ := thrown_of_run inv thrown before
    have earlier := ih fun call mem => settles call (List.mem_append_left _ mem)
    obtain ⟨id, rfl⟩ := settles _ (List.mem_append_right _ (List.mem_singleton.2 rfl))
    obtain ⟨task, found, -⟩ := Option.bind_eq_some_iff.1 next
    obtain ⟨t', next', -, -, len⟩ := settle_spec depth inv' thrown' found waits
    cases next.symm.trans next'
    rw [List.length_append, List.length_singleton]
    omega

theorem Thrown.law (inv : Inv toLowerCase s.masked) (thrown : Thrown s) :
    ThrowLaw toLowerCase depth s := by
  have law : Law toLowerCase depth s.masked := inv.law
  exact
    { exclusion := by
        refine (List.pairwise_map.1 law.exclusion).imp fun {a b} apart conf => apart ?_
        exact (conflicting_masked s a.id b.id).2 conf
      order := by
        intro i j lt conf started
        refine (law.order i j lt ((conflicting_masked s i j).2 conf) ?_).trans List.filter_sublist
        exact List.mem_filter.2 ⟨started, rfl⟩
      once := by
        intro i lt
        have := law.once i (by rwa [masked, List.length_map])
        rwa [count_masked, masked, ids_masked] at this
      rejected := by
        intro i task found
        split
        case isTrue started => exact (thrown.rejected i task found started.1 started.2).1
        case isFalse not =>
          refine thrown.notRejected i task found ?_
          by_contra neither
          rw [not_or] at neither
          exact not ⟨Bool.eq_true_of_not_eq_false neither.1, neither.2⟩
      handled := by
        intro i task found throws out
        refine ⟨(thrown.rejected i task found throws out).2, fun mem => ?_⟩
        obtain ⟨a, active, rfl⟩ := List.mem_map.1 mem
        have same := (thrown.known a (List.mem_append_left _ active)).symm.trans found
        rw [← Option.some.inj same, thrown.quiet a active] at throws
        cases throws
      progress := by
        intro idle
        have := law.progress (by rw [masked, idle, List.map_nil])
        exact List.map_eq_nil_iff.1 this
      undelayed := by
        intro q queued
        obtain ⟨u, mem, lt, conf⟩ := law.undelayed q.masked (List.mem_map_of_mem queued)
        rw [masked, ← List.map_append] at mem
        obtain ⟨u, unfinished, rfl⟩ := List.mem_map.1 mem
        exact ⟨u, unfinished, lt, (conflicting_masked s u.id q.id).1 conf⟩
      drains := fun calls t run => drains_of_run inv thrown run }

/-- As long as no thrower is started from the queue, the contract holds in every state reached; and
the next call is handled, with any depth of the stack, exactly when it starts none either. -/
theorem throwLaw_of_run
    (run : Transition.Run (step toLowerCase depth) (QueuedThrowersWait toLowerCase) {} calls s) :
    ThrowLaw toLowerCase depth s ∧ ∀ call, Receivable s call →
      ((step toLowerCase depth s call).isSome ↔ QueuedThrowersWait toLowerCase s call) := by
  obtain ⟨inv, thrown⟩ := thrown_of_run inv_init thrown_init run
  refine ⟨thrown.law inv, fun call receivable => ⟨fun handled => ?_, fun waits => ?_⟩⟩
  · by_contra leash
    cases call with
    | add => exact leash trivial
    | settle =>
      rw [settle_unleashed inv leash] at handled
      cases handled
  · cases call with
    | add task =>
      obtain ⟨t, next, -⟩ := add_spec depth inv thrown task
      rw [next]
      rfl
    | settle id =>
      cases found : s.activeTasks.find? (·.id = id) with
      | none =>
        obtain ⟨a, active, isId⟩ := List.mem_map.1 receivable
        exact absurd (decide_eq_true isId) (List.find?_eq_none.1 found a active)
      | some =>
        obtain ⟨t, next, -⟩ := settle_spec depth inv thrown found waits
        rw [next]
        rfl

theorem throwersWait_cons : ThrowersWait toLowerCase held (task :: rest) ↔
    (task.startThrows = true → conflictsWithAny toLowerCase task.toToolCallTask held = true) ∧
      ThrowersWait toLowerCase (held ++ [task]) rest := by
  constructor
  · intro waits
    refine ⟨fun throws => ?_, waits.next⟩
    have := waits [] task rest rfl throws
    rwa [List.append_nil] at this
  · rintro ⟨first, later⟩ before thrower after split throws
    rcases before with _ | ⟨head, before⟩
    · obtain ⟨rfl, rfl⟩ := List.cons.inj split
      rw [List.append_nil]
      exact first throws
    · obtain ⟨rfl, split'⟩ := List.cons.inj split
      have := later before thrower after split' throws
      rwa [List.append_assoc] at this

instance decidableThrowersWait (toLowerCase : String → String) : ∀ held rest,
    Decidable (ThrowersWait toLowerCase held rest)
  | held, [] => .isTrue fun before _ _ split => by simp at split
  | held, task :: rest =>
    have := decidableThrowersWait toLowerCase (held ++ [task]) rest
    decidable_of_iff _ throwersWait_cons.symm

instance : ∀ (s : ToolScheduler) call, Decidable (QueuedThrowersWait toLowerCase s call)
  | _, .add _ => .isTrue trivial
  | _, .settle _ => decidableThrowersWait _ _ _

/-- Two writes to one file, the second of which throws, beside a thrower elsewhere. -/
def throwBesideWrite : List Call :=
  [.add { accesses := ToolAccesses.file .write "/a" none, startThrows := false },
    .add { accesses := ToolAccesses.file .write "/b" none, startThrows := true },
    .add { accesses := ToolAccesses.file .write "/a" none, startThrows := true }]

theorem throwLaw_throwBesideWrite : ∃ s,
    Transition.exec (Transition.guarded (step id 8) (QueuedThrowersWait id)) {} throwBesideWrite =
      some s ∧ s.events = [.started 0, .started 1, .rejected 1, .finished 1] ∧
    ThrowLaw id 8 s ∧ ∀ call, Receivable s call →
      ((step id 8 s call).isSome ↔ QueuedThrowersWait id s call) := by
  have run : Transition.exec (Transition.guarded (step id 8) (QueuedThrowersWait id)) {}
      throwBesideWrite = some _ := rfl
  exact ⟨_, run, by decide, throwLaw_of_run (.of_exec run)⟩

/-- A thrower queued behind a write overflows every stack when the write settles. -/
theorem queuedThrower_overflows : ¬∃ depth, ∀ calls s,
    Transition.Run (step id depth) Transition.Always {} calls s →
    ∀ call, Receivable s call → (step id depth s call).isSome = true := by
  rintro ⟨depth, handled⟩
  have exec : Transition.exec (Transition.guarded (step id depth) (QueuedThrowersWait id)) {}
      [.add { accesses := ToolAccesses.file .write "/a" none, startThrows := false },
        .add { accesses := ToolAccesses.file .write "/a" none, startThrows := true }] =
      some _ := rfl
  have run := Transition.Run.of_exec exec
  have inv := (thrown_of_run inv_init thrown_init run).1
  have next : step id depth _ (.settle 0) = none := settle_unleashed inv (by decide)
  have := handled _ _ (run.mono fun _ _ _ => trivial) (.settle 0)
    (List.mem_singleton.2 rfl : 0 ∈ [0])
  rw [next] at this
  cases this

end ToolScheduler

end KimiCli
