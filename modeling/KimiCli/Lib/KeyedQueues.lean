import Mathlib.Data.List.Basic
import Mathlib.Data.Nat.Find
import Mathlib.Logic.Function.Basic

/-!
# Queues of jobs by key

A job is chained to the last job of its key that is known to be unsettled, and runs when that one
has settled.  A job that settles takes its key from the map of the last jobs, if it is still the
last.  So the jobs of a key run one at a time and in the order in which they were enqueued.
-/

inductive JobStage
  | queued
  | running
  /-- The work is done, and what is to be done about the map is not. -/
  | worked (ok : Bool)
  | settled (ok : Bool)
  deriving DecidableEq

namespace JobStage

def isSettled : JobStage → Bool
  | settled _ => true
  | _ => false

/-- Whether the work has succeeded, once it is done. -/
def outcome : JobStage → Option Bool
  | worked ok | settled ok => some ok
  | _ => none

end JobStage

structure QueuedJob (κ ω : Type) where
  key : κ
  work : ω
  /-- The job that it waits for. -/
  prev : Option ℕ
  stage : JobStage := .queued

/-- All jobs in the order in which they were enqueued, and the last job of a key. -/
structure KeyedQueues (κ ω : Type) where
  jobs : List (QueuedJob κ ω) := []
  tails : κ → Option ℕ := fun _ => none

namespace KeyedQueues

variable {κ ω : Type} (q : KeyedQueues κ ω)

def enqueue [DecidableEq κ] (key : κ) (work : ω) : KeyedQueues κ ω where
  jobs := q.jobs ++ [{ key, work, prev := q.tails key }]
  tails := Function.update q.tails key (some q.jobs.length)

def setStage (j : ℕ) (stage : JobStage) : KeyedQueues κ ω :=
  { q with jobs := q.jobs.modify j fun job => { job with stage } }

def hasSettled (j : ℕ) : Bool := q.jobs[j]?.any (·.stage.isSettled)

/-- The job that is waited for has settled. -/
def start (j : ℕ) : Option (KeyedQueues κ ω) :=
  match q.jobs[j]? with
  | none => none
  | some job =>
    if job.stage = .queued ∧ job.prev.all q.hasSettled then some (q.setStage j .running) else none

/-- The work is done. -/
def finish (j : ℕ) (ok : Bool) : Option (KeyedQueues κ ω) :=
  match q.jobs[j]? with
  | none => none
  | some job => if job.stage = .running then some (q.setStage j (.worked ok)) else none

/-- The job settles. -/
def leave [DecidableEq κ] (j : ℕ) : Option (KeyedQueues κ ω) :=
  match q.jobs[j]? with
  | none => none
  | some job =>
    match job.stage with
    | .worked ok =>
      let q := q.setStage j (.settled ok)
      some (if q.tails job.key = some j then
        { q with tails := Function.update q.tails job.key none } else q)
    | _ => none

/-! ## The chains -/

structure Chained : Prop where
  tail : ∀ key t, q.tails key = some t → ∃ job, q.jobs[t]? = some job ∧ job.key = key ∧
    job.stage.isSettled = false ∧
      ∀ (i : ℕ) (a : QueuedJob κ ω), q.jobs[i]? = some a → a.key = key → i ≤ t
  noTail : ∀ key, q.tails key = none → ∀ (i : ℕ) (a : QueuedJob κ ω), q.jobs[i]? = some a →
    a.key = key → a.stage.isSettled = true
  /-- A job that comes before another one has settled, or the other one waits for a job that does
  not come before it. -/
  behind : ∀ (i j : ℕ) (a b : QueuedJob κ ω), q.jobs[i]? = some a → q.jobs[j]? = some b →
    a.key = b.key → i < j → a.stage.isSettled = true ∨ b.stage = .queued ∧
      ∃ (p : ℕ) (c : QueuedJob κ ω), b.prev = some p ∧ i ≤ p ∧ p < j ∧ q.jobs[p]? = some c ∧
        c.key = b.key

variable {q} {q' : KeyedQueues κ ω} {i j : ℕ} {a b : QueuedJob κ ω}

theorem chained_empty : Chained ({} : KeyedQueues κ ω) :=
  ⟨fun _ _ => nofun, fun _ _ _ _ => nofun, fun _ _ _ _ => nofun⟩

theorem Chained.settled_of_started (chained : q.Chained) (first : q.jobs[i]? = some a)
    (second : q.jobs[j]? = some b) (key : a.key = b.key) (lt : i < j)
    (started : b.stage ≠ .queued) :
    a.stage.isSettled = true :=
  (chained.behind i j a b first second key lt).resolve_right fun waits => started waits.1

theorem getElem?_setStage {stage : JobStage} :
    (q.setStage j stage).jobs[i]? =
      q.jobs[i]?.map fun job => if i = j then { job with stage } else job := by
  rw [setStage, List.getElem?_modify]
  by_cases same : i = j
  · simp only [same]
    rfl
  · simp only [same, Ne.symm same, if_false]
    rfl

theorem exists_of_setStage {stage : JobStage} (found : (q.setStage j stage).jobs[i]? = some a) :
    ∃ job, q.jobs[i]? = some job ∧ a.key = job.key ∧ a.work = job.work ∧ a.prev = job.prev ∧
      (i ≠ j ∧ a = job ∨ i = j ∧ a.stage = stage) := by
  rw [getElem?_setStage] at found
  obtain ⟨job, before, rfl⟩ := Option.map_eq_some_iff.1 found
  refine ⟨job, before, ?_⟩
  by_cases same : i = j
  · rw [if_pos same]
    exact ⟨rfl, rfl, rfl, .inr ⟨same, rfl⟩⟩
  · rw [if_neg same]
    exact ⟨rfl, rfl, rfl, .inl ⟨same, rfl⟩⟩

theorem exists_setStage (j : ℕ) (stage : JobStage) (found : q.jobs[i]? = some a) :
    ∃ c, (q.setStage j stage).jobs[i]? = some c ∧ c.key = a.key ∧
      (i ≠ j ∧ c = a ∨ i = j ∧ c.stage = stage) := by
  rw [getElem?_setStage, found]
  refine ⟨_, rfl, ?_⟩
  dsimp only
  by_cases same : i = j
  · rw [if_pos same]
    exact ⟨rfl, .inr ⟨same, rfl⟩⟩
  · rw [if_neg same]
    exact ⟨rfl, .inl ⟨same, rfl⟩⟩

variable [DecidableEq κ]

theorem getElem?_enqueue (key : κ) (work : ω) (found : (q.enqueue key work).jobs[i]? = some a) :
    q.jobs[i]? = some a ∨
      i = q.jobs.length ∧ a = { key, work, prev := q.tails key } := by
  rw [enqueue, List.getElem?_append] at found
  split at found
  · exact .inl found
  case isFalse le =>
    cases rest : i - q.jobs.length with
    | zero =>
      rw [rest] at found
      exact .inr ⟨by omega, (Option.some.inj found).symm⟩
    | succ =>
      rw [rest] at found
      cases found

theorem getElem?_enqueue_of_some (key : κ) (work : ω) (found : q.jobs[i]? = some a) :
    (q.enqueue key work).jobs[i]? = some a := by
  obtain ⟨lt, -⟩ := List.getElem?_eq_some_iff.1 found
  rw [enqueue, List.getElem?_append_left lt, found]

theorem Chained.enqueue (chained : q.Chained) (key : κ) (work : ω) :
    (q.enqueue key work).Chained where
  tail key' t found := by
    dsimp only [KeyedQueues.enqueue] at found
    by_cases same : key' = key
    · subst same
      rw [Function.update_self] at found
      cases found
      refine ⟨{ key := key', work, prev := q.tails key' }, ?_, rfl, rfl, fun i a inside _ => ?_⟩
      · exact List.getElem?_concat_length
      · rcases getElem?_enqueue key' work inside with old | ⟨rfl, -⟩
        · exact Nat.le_of_lt (List.getElem?_eq_some_iff.1 old).1
        · exact Nat.le_refl _
    · rw [Function.update_of_ne same] at found
      obtain ⟨job, here, isKey, unsettled, last⟩ := chained.tail key' t found
      refine ⟨job, getElem?_enqueue_of_some key work here, isKey, unsettled,
        fun i a inside ofKey => ?_⟩
      rcases getElem?_enqueue key work inside with old | ⟨-, rfl⟩
      · exact last i a old ofKey
      · exact absurd ofKey.symm same
  noTail key' none i a inside ofKey := by
    dsimp only [KeyedQueues.enqueue] at none
    by_cases same : key' = key
    · subst same
      rw [Function.update_self] at none
      cases none
    · rw [Function.update_of_ne same] at none
      rcases getElem?_enqueue key work inside with old | ⟨-, rfl⟩
      · exact chained.noTail key' none i a old ofKey
      · exact absurd ofKey.symm same
  behind i j a b first second same lt := by
    rcases getElem?_enqueue key work second with second | ⟨rfl, rfl⟩
    · have first : q.jobs[i]? = some a := by
        rcases getElem?_enqueue key work first with old | ⟨rfl, -⟩
        · exact old
        · exact absurd (List.getElem?_eq_some_iff.1 second).1 (Nat.not_lt.2 (Nat.le_of_lt lt))
      refine (chained.behind i j a b first second same lt).imp_right ?_
      rintro ⟨queued, p, c, prev, le, before, here, ofKey⟩
      exact ⟨queued, p, c, prev, le, before, getElem?_enqueue_of_some key work here, ofKey⟩
    · have first : q.jobs[i]? = some a := by
        rcases getElem?_enqueue key work first with old | ⟨rfl, -⟩
        · exact old
        · exact absurd lt (Nat.lt_irrefl _)
      cases tail : q.tails key with
      | none => exact .inl (chained.noTail key tail i a first same)
      | some t =>
        obtain ⟨job, here, isKey, -, last⟩ := chained.tail key t tail
        exact .inr ⟨rfl, t, job, rfl, last i a first same,
          (List.getElem?_eq_some_iff.1 here).1, getElem?_enqueue_of_some key work here, isKey⟩

omit [DecidableEq κ] in
/-- A job that has not settled changes its stage, and its key is taken from the map if it settles
as the last one. -/
theorem Chained.setStage (chained : q.Chained) {stage : JobStage} (here : q.jobs[j]? = some b)
    (unsettled : b.stage.isSettled = false) (jobs : q'.jobs = (q.setStage j stage).jobs)
    (kept : ∀ key t, q'.tails key = some t →
      q.tails key = some t ∧ (t = j → stage.isSettled = false))
    (dropped : ∀ key t, q.tails key = some t → q'.tails key = none →
      t = j ∧ stage.isSettled = true)
    (ahead : ∀ (i : ℕ) (a : QueuedJob κ ω), q.jobs[i]? = some a → a.key = b.key → i < j →
      a.stage.isSettled = true) :
    q'.Chained where
  tail key t found := by
    obtain ⟨was, stays⟩ := kept key t found
    obtain ⟨job, here', isKey, open', last⟩ := chained.tail key t was
    obtain ⟨c, inside, same, isC⟩ := exists_setStage j stage here'
    rw [jobs]
    refine ⟨c, inside, same.trans isKey, ?_, fun i a inside ofKey => ?_⟩
    · rcases isC with ⟨-, rfl⟩ | ⟨isLast, stage⟩
      · exact open'
      · rw [stage, stays isLast]
    · obtain ⟨job', before, key', -⟩ := exists_of_setStage inside
      exact last i job' before (key'.symm.trans ofKey)
  noTail key none i a inside ofKey := by
    rw [jobs] at inside
    obtain ⟨a₀, before, key', -, -, isA⟩ := exists_of_setStage inside
    have ofKey₀ : a₀.key = key := key'.symm.trans ofKey
    cases was : q.tails key with
    | none =>
      have settled := chained.noTail key was i a₀ before ofKey₀
      rcases isA with ⟨-, rfl⟩ | ⟨rfl, -⟩
      · exact settled
      · cases here.symm.trans before
        rw [settled] at unsettled
        cases unsettled
    | some t =>
      obtain ⟨rfl, done⟩ := dropped key t was none
      obtain ⟨job, here', isKey, -, last⟩ := chained.tail key t was
      cases here.symm.trans here'
      rcases isA with ⟨ne, rfl⟩ | ⟨-, stage⟩
      · have le := last i a before ofKey₀
        exact ahead i a before (ofKey₀.trans isKey.symm) (Nat.lt_of_le_of_ne le ne)
      · rw [stage, done]
  behind i k a c first second same lt := by
    rw [jobs] at first second
    obtain ⟨a₀, first₀, keyA, -, -, isA⟩ := exists_of_setStage first
    obtain ⟨c₀, second₀, keyC, -, -, isC⟩ := exists_of_setStage second
    have same₀ : a₀.key = c₀.key := by rw [← keyA, ← keyC, same]
    rcases isC with ⟨-, rfl⟩ | ⟨rfl, -⟩
    · rcases chained.behind i k a₀ c first₀ second₀ same₀ lt with settled | waits
      · rcases isA with ⟨-, rfl⟩ | ⟨rfl, -⟩
        · exact .inl settled
        · cases here.symm.trans first₀
          rw [settled] at unsettled
          cases unsettled
      · obtain ⟨queued, p, d, prev, le, before, between, ofKey⟩ := waits
        obtain ⟨d', between', key', -⟩ := exists_setStage j stage between
        rw [jobs]
        exact .inr ⟨queued, p, d', prev, le, before, between', key'.trans ofKey⟩
    · cases here.symm.trans second₀
      rcases isA with ⟨-, rfl⟩ | ⟨rfl, -⟩
      · exact .inl (ahead i a first₀ same₀ lt)
      · exact absurd lt (Nat.lt_irrefl _)

/-! ## The steps -/

omit [DecidableEq κ] in
theorem start_cases (next : q.start j = some q') :
    ∃ job, q.jobs[j]? = some job ∧ job.stage = .queued ∧ job.prev.all q.hasSettled = true ∧
      q' = q.setStage j .running := by
  unfold start at next
  split at next
  · cases next
  case h_2 job here =>
    split at next
    case isTrue ready => exact ⟨job, here, ready.1, ready.2, (Option.some.inj next).symm⟩
    case isFalse => cases next

omit [DecidableEq κ] in
theorem finish_cases {ok : Bool} (next : q.finish j ok = some q') :
    ∃ job, q.jobs[j]? = some job ∧ job.stage = .running ∧ q' = q.setStage j (.worked ok) := by
  unfold finish at next
  split at next
  · cases next
  case h_2 job here =>
    split at next
    case isTrue running => exact ⟨job, here, running, (Option.some.inj next).symm⟩
    case isFalse => cases next

theorem leave_cases (next : q.leave j = some q') :
    ∃ job ok, q.jobs[j]? = some job ∧ job.stage = .worked ok ∧
      q'.jobs = (q.setStage j (.settled ok)).jobs ∧
      q'.tails = if q.tails job.key = some j then Function.update q.tails job.key none
        else q.tails := by
  unfold leave at next
  split at next
  · cases next
  case h_2 job here =>
    split at next
    case h_1 ok worked =>
      cases next
      refine ⟨job, ok, here, worked, ?_, apply_ite KeyedQueues.tails _ _ _⟩
      split <;> rfl
    · cases next

omit [DecidableEq κ] in
theorem Chained.start (chained : q.Chained) (next : q.start j = some q') : q'.Chained := by
  obtain ⟨job, here, queued, ready, rfl⟩ := start_cases next
  have unsettled : job.stage.isSettled = false := by rw [queued]; rfl
  refine chained.setStage here unsettled rfl (fun _ _ found => ⟨found, fun _ => rfl⟩)
    (fun _ _ found none => absurd (found.symm.trans none) nofun) fun i a first same lt => ?_
  rcases chained.behind i j a job first here same lt with settled | waits
  · exact settled
  · obtain ⟨-, p, c, prev, le, -, between, ofKey⟩ := waits
    have done : c.stage.isSettled = true := by
      rw [prev, Option.all_some, hasSettled, between, Option.any_some] at ready
      exact ready
    rcases Nat.lt_or_eq_of_le le with lt' | rfl
    · refine chained.settled_of_started first between (same.trans ofKey.symm) lt' fun waits => ?_
      rw [waits] at done
      cases done
    · cases between.symm.trans first
      exact done

omit [DecidableEq κ] in
theorem Chained.finish (chained : q.Chained) {ok : Bool} (next : q.finish j ok = some q') :
    q'.Chained := by
  obtain ⟨job, here, running, rfl⟩ := finish_cases next
  have unsettled : job.stage.isSettled = false := by rw [running]; rfl
  refine chained.setStage here unsettled rfl (fun _ _ found => ⟨found, fun _ => rfl⟩)
    (fun _ _ found none => absurd (found.symm.trans none) nofun) fun i a first same lt => ?_
  exact chained.settled_of_started first here same lt (by rw [running]; nofun)

theorem Chained.leave (chained : q.Chained) (next : q.leave j = some q') : q'.Chained := by
  obtain ⟨job, ok, here, worked, jobs, tails⟩ := leave_cases next
  have unsettled : job.stage.isSettled = false := by rw [worked]; rfl
  refine chained.setStage here unsettled jobs (fun key t found => ?_) (fun key t found none => ?_)
    fun i a first same lt => ?_
  · have was : q.tails key = some t ∧ (key = job.key → t ≠ j) := by
      rw [tails] at found
      split at found
      case isTrue mine =>
        by_cases same : key = job.key
        · rw [same, Function.update_self] at found
          cases found
        · rw [Function.update_of_ne same] at found
          exact ⟨found, fun same' => absurd same' same⟩
      case isFalse other =>
        refine ⟨found, fun same isLast => other ?_⟩
        rw [← same, ← isLast, found]
    obtain ⟨job', here', isKey, -⟩ := chained.tail key t was.1
    refine ⟨was.1, ?_⟩
    rintro rfl
    cases here.symm.trans here'
    exact absurd rfl (was.2 isKey.symm)
  · rw [tails] at none
    split at none
    case isTrue mine =>
      by_cases same : key = job.key
      · rw [same, mine] at found
        exact ⟨(Option.some.inj found).symm, rfl⟩
      · rw [Function.update_of_ne same, found] at none
        cases none
    case isFalse =>
      rw [found] at none
      cases none
  · exact chained.settled_of_started first here same lt (by rw [worked]; nofun)

/-! ## What the jobs leave behind -/

/-- No job of the key comes after this one. -/
def IsLast (q : KeyedQueues κ ω) (j : ℕ) (b : QueuedJob κ ω) : Prop :=
  q.jobs[j]? = some b ∧
    ∀ (i : ℕ) (a : QueuedJob κ ω), q.jobs[i]? = some a → a.key = b.key → i ≤ j

/-- `cell key` is what the work of the jobs of `key` has made, and is to become `goal key`. -/
structure Follows (q : KeyedQueues κ ω) (cell goal : κ → ω) : Prop where
  newest : ∀ (j : ℕ) (b : QueuedJob κ ω), q.IsLast j b → b.work = goal b.key
  applied : ∀ (j : ℕ) (b : QueuedJob κ ω), q.jobs[j]? = some b → b.stage.outcome = some true →
    (∀ (i : ℕ) (a : QueuedJob κ ω), q.jobs[i]? = some a → a.key = b.key → j < i →
      a.stage.outcome = none) → cell b.key = b.work
  untouched : ∀ key, (∀ (i : ℕ) (a : QueuedJob κ ω), q.jobs[i]? = some a → a.key ≠ key) →
    cell key = goal key

variable {cell cell' goal : κ → ω}

omit [DecidableEq κ] in
theorem follows_empty (same : cell = goal) : Follows ({} : KeyedQueues κ ω) cell goal :=
  ⟨fun _ _ last => absurd last.1 nofun, fun _ _ => nofun, fun key _ => congrFun same key⟩

omit [DecidableEq κ] in
theorem exists_isLast (here : q.jobs[i]? = some a) :
    ∃ (j : ℕ) (b : QueuedJob κ ω), q.IsLast j b ∧ b.key = a.key := by
  classical
  let P (j : ℕ) : Prop := ∃ b, q.jobs[j]? = some b ∧ b.key = a.key
  have le {j : ℕ} (found : P j) : j ≤ q.jobs.length := by
    obtain ⟨b, inside, -⟩ := found
    exact Nat.le_of_lt (List.getElem?_eq_some_iff.1 inside).1
  have first : P i := ⟨a, here, rfl⟩
  obtain ⟨b, inside, ofKey⟩ := Nat.findGreatest_spec (le first) first
  refine ⟨_, b, ⟨inside, fun k c later same => ?_⟩, ofKey⟩
  have found : P k := ⟨c, later, same.trans ofKey⟩
  exact Nat.le_findGreatest (le found) found

omit [DecidableEq κ] in
/-- When the last job of every key has succeeded, every cell is what it is to become. -/
theorem Follows.converged (follows : q.Follows cell goal)
    (succeeded : ∀ (j : ℕ) (b : QueuedJob κ ω), q.IsLast j b → b.stage = .settled true) :
    cell = goal := by
  funext key
  by_cases used : ∃ (i : ℕ) (a : QueuedJob κ ω), q.jobs[i]? = some a ∧ a.key = key
  · obtain ⟨i, a, here, rfl⟩ := used
    obtain ⟨j, b, last, same⟩ := exists_isLast here
    have done : b.stage.outcome = some true := by rw [succeeded j b last]; rfl
    rw [← same, follows.applied j b last.1 done fun k c later ofKey lt => ?_,
      follows.newest j b last]
    exact absurd (last.2 k c later ofKey) (Nat.not_le.2 lt)
  · exact follows.untouched key fun i a here same => used ⟨i, a, here, same⟩

theorem Follows.enqueue (follows : q.Follows cell goal) (key : κ) (work : ω) :
    (q.enqueue key work).Follows cell (Function.update goal key work) where
  newest j b last := by
    rcases getElem?_enqueue key work last.1 with old | ⟨-, rfl⟩
    · have ne : b.key ≠ key := by
        rintro rfl
        have le := last.2 q.jobs.length _ List.getElem?_concat_length rfl
        exact absurd (List.getElem?_eq_some_iff.1 old).1 (Nat.not_lt.2 le)
      rw [Function.update_of_ne ne]
      exact follows.newest j b ⟨old, fun i a inside same =>
        last.2 i a (getElem?_enqueue_of_some key work inside) same⟩
    · exact (Function.update_self key work goal).symm
  applied j b here done later := by
    rcases getElem?_enqueue key work here with old | ⟨-, rfl⟩
    · exact follows.applied j b old done fun i a inside same lt =>
        later i a (getElem?_enqueue_of_some key work inside) same lt
    · cases done
  untouched key' unused := by
    have ne : key ≠ key' := unused q.jobs.length _ List.getElem?_concat_length
    rw [Function.update_of_ne ne.symm]
    exact follows.untouched key' fun i a inside =>
      unused i a (getElem?_enqueue_of_some key work inside)

section Stages

omit [DecidableEq κ]

theorem Follows.newest_setStage (follows : q.Follows cell goal) {stage : JobStage}
    (jobs : q'.jobs = (q.setStage j stage).jobs) (last : q'.IsLast i a) :
    a.work = goal a.key := by
  obtain ⟨here, later⟩ := last
  rw [jobs] at here later
  obtain ⟨a₀, before, key, work, -, -⟩ := exists_of_setStage here
  rw [work, key]
  refine follows.newest i a₀ ⟨before, fun k c inside same => ?_⟩
  obtain ⟨c', inside', key', -⟩ := exists_setStage j stage inside
  exact later k c' inside' (key'.trans (same.trans key.symm))

theorem Follows.setStage (follows : q.Follows cell goal) {stage : JobStage}
    (here : q.jobs[j]? = some b) (jobs : q'.jobs = (q.setStage j stage).jobs)
    (same : stage.outcome = b.stage.outcome) :
    q'.Follows cell goal where
  newest i a last := follows.newest_setStage jobs last
  applied i a inside done later := by
    rw [jobs] at inside later
    obtain ⟨a₀, before, key, work, -, isA⟩ := exists_of_setStage inside
    have done₀ : a₀.stage.outcome = some true := by
      rcases isA with ⟨-, rfl⟩ | ⟨rfl, stage⟩
      · exact done
      · cases here.symm.trans before
        rw [← same, ← stage, done]
    rw [key, work]
    refine follows.applied i a₀ before done₀ fun k c between ofKey lt => ?_
    obtain ⟨c', between', key', isC⟩ := exists_setStage j stage between
    have none := later k c' between' (key'.trans (ofKey.trans key.symm)) lt
    rcases isC with ⟨-, rfl⟩ | ⟨rfl, stage⟩
    · exact none
    · cases here.symm.trans between
      rw [← same, ← stage, none]
  untouched key unused := by
    rw [jobs] at unused
    refine follows.untouched key fun i a inside => ?_
    obtain ⟨c, inside', key', -⟩ := exists_setStage j stage inside
    rw [← key']
    exact unused i c inside'

theorem Follows.start (follows : q.Follows cell goal) (next : q.start j = some q') :
    q'.Follows cell goal := by
  obtain ⟨job, here, queued, -, rfl⟩ := start_cases next
  exact follows.setStage here rfl (by rw [queued]; rfl)

theorem Follows.finish (follows : q.Follows cell goal) (chained : q.Chained) {ok : Bool}
    (next : q.finish j ok = some q') (here : q.jobs[j]? = some b)
    (others : ∀ key, key ≠ b.key → cell' key = cell key)
    (mine : ok = true → cell' b.key = b.work) :
    q'.Follows cell' goal := by
  obtain ⟨job, here', running, rfl⟩ := finish_cases next
  cases here.symm.trans here'
  refine ⟨fun i a last => follows.newest_setStage rfl last, fun i a inside done later => ?_,
    fun key unused => ?_⟩
  · obtain ⟨a₀, before, key, work, -, isA⟩ := exists_of_setStage inside
    rcases isA with ⟨ne, rfl⟩ | ⟨rfl, stage⟩
    · by_cases same : a.key = b.key
      · rcases Nat.lt_or_gt_of_ne ne with lt | gt
        · obtain ⟨c, inside', key', isC⟩ := exists_setStage j (.worked ok) here
          have none := later j c inside' (key'.trans same.symm) lt
          rcases isC with ⟨absurd', -⟩ | ⟨-, stage⟩
          · exact absurd rfl absurd'
          · rw [stage] at none
            cases none
        · have began : a.stage ≠ .queued := by
            intro queued
            rw [queued] at done
            cases done
          have settled := chained.settled_of_started here before same.symm gt began
          rw [running] at settled
          cases settled
      · rw [others _ same]
        refine follows.applied i a before done fun k c between ofKey lt => ?_
        obtain ⟨c', between', key', isC⟩ :=
          exists_setStage j (.worked ok) between
        rcases isC with ⟨-, rfl⟩ | ⟨rfl, -⟩
        · exact later k c' between' ofKey lt
        · cases here.symm.trans between
          exact absurd ofKey.symm same
    · cases here.symm.trans before
      rw [stage] at done
      rw [key, work]
      exact mine (Option.some.inj done)
  · have unused₀ (i : ℕ) (a : QueuedJob κ ω) (inside : q.jobs[i]? = some a) : a.key ≠ key := by
      obtain ⟨c, inside', key', -⟩ := exists_setStage j (.worked ok) inside
      rw [← key']
      exact unused i c inside'
    rw [others key (unused₀ j b here).symm]
    exact follows.untouched key unused₀

end Stages

theorem Follows.leave (follows : q.Follows cell goal) (next : q.leave j = some q') :
    q'.Follows cell goal := by
  obtain ⟨job, ok, here, worked, jobs, -⟩ := leave_cases next
  exact follows.setStage here jobs (by rw [worked]; rfl)

end KeyedQueues
