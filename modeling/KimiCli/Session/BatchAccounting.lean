import KimiCli.Session.SubagentBatch

/-!
# Every task of a batch is accounted for

Until the batch has finished, a task is queued, or runs in one attempt, or has its result; only
while `launcher.suspended` runs for it, it is none of these: it is held by the waiting method.
`Ledger s held` says so by counting, and every method keeps it (`schedule_ledger` and so on).
-/

namespace KimiCli

variable {T : Type}

namespace SubagentBatch

/-- The task state that attempt `a` belongs to. -/
def owner (s : SubagentBatch T) (a : ℕ) : Option ℕ := (s.attempts[a]?).map (·.state)

/-- The task states of the active attempts. -/
def owners (s : SubagentBatch T) : List ℕ := s.active.filterMap s.owner

def filled (s : SubagentBatch T) (i : ℕ) : Bool := (s.results[i]?.join).isSome

/-- An ordered answer to the caller that agrees with the result slots. -/
def Answers (s : SubagentBatch T) (results : List (SubagentResult T)) : Prop :=
  results.map (·.task) = s.tasks ∧
    ∀ (i : ℕ) (r : SubagentResult T), s.results[i]? = some (some r) → results[i]? = some r

/-- The accounting invariant; `held` are the tasks that a rate limit has released and that are not
yet queued again. -/
structure Ledger (s : SubagentBatch T) (held : List ℕ) : Prop where
  length : s.results.length = s.tasks.length
  once : s.finished = false → ∀ i, s.pending.count i + s.owners.count i + (s.filled i).toNat +
    held.count i = if i < s.tasks.length then 1 else 0
  known : ∀ a ∈ s.active, a < s.attempts.length
  stored : ∀ (i : ℕ) (r : SubagentResult T), s.results[i]? = some (some r) →
    s.tasks[i]? = some r.task
  outcomes : ∀ attempt ∈ s.attempts, ∀ r, attempt.phase = .resolved (.result r) →
    s.tasks[attempt.state]? = some r.task
  unsettled : s.finished = false → s.settlements = []
  settled : s.finished = true → ∃ x, s.settlements = [x] ∧
    ∀ results, x = .resolved results → s.Answers results

/-- What no method undoes. -/
structure Grows (s t : SubagentBatch T) : Prop where
  tasks : t.tasks = s.tasks
  owner : ∀ a i, s.owner a = some i → t.owner a = some i
  stored : ∀ (i : ℕ) (r : SubagentResult T), s.results[i]? = some (some r) →
    t.results[i]? = some (some r)
  finished : s.finished = true → t.finished = true
  aborted : s.abortReason.isSome = true → t.abortReason.isSome = true

/-- No active attempt is released unless the batch finishes. -/
def KeepsActive (s t : SubagentBatch T) : Prop :=
  t.finished = false → ∀ a ∈ s.active, a ∈ t.active

/-- The fields that the accounting depends on are the same. -/
structure SameCore (s t : SubagentBatch T) : Prop where
  tasks : t.tasks = s.tasks
  pending : t.pending = s.pending
  results : t.results = s.results
  attempts : t.attempts = s.attempts
  active : t.active = s.active
  abortReason : t.abortReason = s.abortReason
  finished : t.finished = s.finished
  settlements : t.settlements = s.settlements

variable {s t u : SubagentBatch T} {held : List ℕ} {now : ℕ}

@[refl] theorem Grows.refl (s : SubagentBatch T) : Grows s s :=
  ⟨rfl, fun _ _ h => h, fun _ _ h => h, id, id⟩

theorem Grows.trans (first : Grows s t) (second : Grows t u) : Grows s u where
  tasks := second.tasks.trans first.tasks
  owner a i h := second.owner a i (first.owner a i h)
  stored i r h := second.stored i r (first.stored i r h)
  finished h := second.finished (first.finished h)
  aborted h := second.aborted (first.aborted h)

theorem KeepsActive.trans (first : KeepsActive s t) (second : KeepsActive t u)
    (grows : Grows t u) : KeepsActive s u := by
  intro unfinished a mem
  have open' : t.finished = false := by
    by_contra h
    rw [grows.finished (by simpa using h)] at unfinished
    cases unfinished
  exact second unfinished a (first open' a mem)

theorem SameCore.trans (first : SameCore s t) (second : SameCore t u) : SameCore s u where
  tasks := second.tasks.trans first.tasks
  pending := second.pending.trans first.pending
  results := second.results.trans first.results
  attempts := second.attempts.trans first.attempts
  active := second.active.trans first.active
  abortReason := second.abortReason.trans first.abortReason
  finished := second.finished.trans first.finished
  settlements := second.settlements.trans first.settlements

theorem SameCore.owner_eq (same : SameCore s t) : t.owner = s.owner := by
  funext a
  simp only [owner, same.attempts]

theorem SameCore.owners_eq (same : SameCore s t) : t.owners = s.owners := by
  simp only [owners, same.active, same.owner_eq]

theorem SameCore.filled_eq (same : SameCore s t) : t.filled = s.filled := by
  funext i
  simp only [filled, same.results]

theorem SameCore.grows (same : SameCore s t) : Grows s t where
  tasks := same.tasks
  owner a i h := by rwa [same.owner_eq]
  stored i r h := by rwa [same.results]
  finished h := by rwa [same.finished]
  aborted h := by rwa [same.abortReason]

theorem SameCore.keepsActive (same : SameCore s t) : KeepsActive s t := by
  intro _ a mem
  rwa [same.active]

theorem Ledger.congr (h : Ledger s held) (same : SameCore s t) : Ledger t held where
  length := by rw [same.results, same.tasks, h.length]
  once unfinished i := by
    rw [same.finished] at unfinished
    rw [same.pending, same.owners_eq, same.filled_eq, same.tasks, h.once unfinished i]
  known := by
    rw [same.active, same.attempts]
    exact h.known
  stored := by
    rw [same.results, same.tasks]
    exact h.stored
  outcomes := by
    rw [same.attempts, same.tasks]
    exact h.outcomes
  unsettled := by
    rw [same.finished, same.settlements]
    exact h.unsettled
  settled := by
    rw [same.finished, same.settlements]
    simpa only [Answers, same.tasks, same.results] using h.settled

/-! ### What the counts say -/

/-- Exactly one of three propositions holds. -/
def ExactlyOne (p q r : Prop) : Prop :=
  (p ∧ ¬ q ∧ ¬ r) ∨ (¬ p ∧ q ∧ ¬ r) ∨ (¬ p ∧ ¬ q ∧ r)

theorem Ledger.exactlyOne (h : Ledger s held) (unfinished : s.finished = false)
    {i : ℕ} (lt : i < s.tasks.length) (free : i ∉ held) :
    ExactlyOne (i ∈ s.pending) (i ∈ s.owners) (s.filled i = true) := by
  have once := h.once unfinished i
  rw [if_pos lt, List.count_eq_zero.2 free] at once
  rw [ExactlyOne, ← List.count_pos_iff, ← List.count_pos_iff]
  cases hf : s.filled i with
  | false =>
    simp only [hf, Bool.toNat_false] at once
    simp only [Bool.false_eq_true, not_false_eq_true, and_true, and_false, or_false]
    omega
  | true =>
    simp only [hf, Bool.toNat_true] at once
    simp only [not_true, and_true, and_false, false_or]
    omega

theorem Ledger.single (h : Ledger s held) (unfinished : s.finished = false)
    {i a b : ℕ} (ha : a ∈ s.active) (hb : b ∈ s.active) (oa : s.owner a = some i)
    (ob : s.owner b = some i) : a = b := by
  by_contra ne
  have once := h.once unfinished i
  have perm := (List.perm_cons_erase ha).filterMap s.owner
  have hb' : b ∈ s.active.erase a := (List.mem_erase_of_ne (Ne.symm ne)).2 hb
  have perm' := (List.perm_cons_erase hb').filterMap s.owner
  rw [List.filterMap_cons_some oa] at perm
  rw [List.filterMap_cons_some ob] at perm'
  rw [owners, perm.count_eq, List.count_cons_self, perm'.count_eq, List.count_cons_self] at once
  split at once <;> omega

/-! ### Methods that leave the accounting alone -/

theorem same_clearNormalTimer : SameCore s s.clearNormalTimer := by
  unfold clearNormalTimer clearTimer
  split <;> exact ⟨rfl, rfl, rfl, rfl, rfl, rfl, rfl, rfl⟩

theorem same_clearRateLimitTimer : SameCore s s.clearRateLimitTimer := by
  unfold clearRateLimitTimer clearTimer
  split <;> exact ⟨rfl, rfl, rfl, rfl, rfl, rfl, rfl, rfl⟩

theorem same_armNormalTimer : SameCore s s.armNormalTimer := by
  unfold armNormalTimer setTimer
  split <;> exact ⟨rfl, rfl, rfl, rfl, rfl, rfl, rfl, rfl⟩

theorem same_scheduleRateLimitWakeup (wakeupAt : Time) (now : ℕ) :
    SameCore s (s.scheduleRateLimitWakeup wakeupAt now) := by
  unfold scheduleRateLimitWakeup setTimer
  split
  · exact ⟨rfl, rfl, rfl, rfl, rfl, rfl, rfl, rfl⟩
  · split <;> exact ⟨rfl, rfl, rfl, rfl, rfl, rfl, rfl, rfl⟩

theorem same_recoverRateLimitCapacity : SameCore s (s.recoverRateLimitCapacity now) := by
  unfold recoverRateLimitCapacity
  split <;> exact ⟨rfl, rfl, rfl, rfl, rfl, rfl, rfl, rfl⟩

theorem same_scheduleNextRateLimitWakeup : SameCore s (s.scheduleNextRateLimitWakeup now) := by
  unfold scheduleNextRateLimitWakeup
  split
  · exact ⟨rfl, rfl, rfl, rfl, rfl, rfl, rfl, rfl⟩
  · exact same_scheduleRateLimitWakeup _ _

theorem same_afterRateLimitStart (now : ℕ) : SameCore s (s.afterRateLimitStart now) := by
  refine SameCore.trans ?_ same_scheduleNextRateLimitWakeup
  exact ⟨rfl, rfl, rfl, rfl, rfl, rfl, rfl, rfl⟩

theorem same_shrinkRateLimitCapacity (force : Bool) :
    SameCore s (s.shrinkRateLimitCapacity now force) := by
  unfold shrinkRateLimitCapacity
  split <;> exact ⟨rfl, rfl, rfl, rfl, rfl, rfl, rfl, rfl⟩

theorem same_enterRateLimitMode : SameCore s (s.enterRateLimitMode now) := by
  unfold enterRateLimitMode
  split
  · exact same_shrinkRateLimitCapacity false
  · have entered : SameCore s { s with rateLimitMode := true } :=
      ⟨rfl, rfl, rfl, rfl, rfl, rfl, rfl, rfl⟩
    refine SameCore.trans ?_ (same_shrinkRateLimitCapacity true)
    refine (entered.trans same_clearNormalTimer).trans ?_
    exact ⟨rfl, rfl, rfl, rfl, rfl, rfl, rfl, rfl⟩

theorem same_delayNextLaunch (ready : Bool) (retryDelay : Time) :
    SameCore s (s.delayNextLaunch ready retryDelay now) := by
  unfold delayNextLaunch
  split <;> exact ⟨rfl, rfl, rfl, rfl, rfl, rfl, rfl, rfl⟩

theorem same_setState (i : ℕ) (f : TaskState → TaskState) : SameCore s (s.setState i f) :=
  ⟨rfl, rfl, rfl, rfl, rfl, rfl, rfl, rfl⟩

/-! ### Changes of the attempts -/

theorem Ledger.attempts (h : Ledger s held) (attempts : List (ActiveAttempt T))
    (states : attempts.map (·.state) = s.attempts.map (·.state))
    (outcomes : ∀ attempt ∈ attempts, ∀ r, attempt.phase = .resolved (.result r) →
      s.tasks[attempt.state]? = some r.task) :
    Ledger { s with attempts } held ∧ Grows s { s with attempts } := by
  have owner_eq : ({ s with attempts } : SubagentBatch T).owner = s.owner := by
    funext a
    simp only [owner, ← List.getElem?_map, states]
  have len : attempts.length = s.attempts.length := by
    simpa using congrArg List.length states
  refine ⟨?_, rfl, fun a i ha => ?_, fun _ _ h => h, id, id⟩
  · exact
      { length := h.length
        once := by
          intro unfinished i
          rw [← h.once unfinished i, owners, owners, owner_eq]
          rfl
        known := fun a ha => len ▸ h.known a ha
        stored := h.stored
        outcomes := outcomes
        unsettled := h.unsettled
        settled := h.settled }
  · rwa [owner_eq]

theorem Ledger.modifyAttempt (h : Ledger s held) (a : ℕ) (f : ActiveAttempt T → ActiveAttempt T)
    (state : ∀ attempt, (f attempt).state = attempt.state)
    (outcomes : ∀ attempt, s.attempts[a]? = some attempt → ∀ r,
      (f attempt).phase = .resolved (.result r) → s.tasks[attempt.state]? = some r.task) :
    Ledger (s.modifyAttempt a f) held ∧ Grows s (s.modifyAttempt a f) := by
  refine h.attempts _ ?_ ?_
  · refine List.ext_getElem? fun j => ?_
    simp only [List.getElem?_map, List.getElem?_modify]
    by_cases hj : a = j
    · subst hj
      cases s.attempts[a]? <;> simp [state]
    · simp [hj]
  · intro attempt mem r phase
    obtain ⟨j, hj⟩ := List.getElem?_of_mem mem
    by_cases haj : a = j
    · subst haj
      cases old : s.attempts[a]? with
      | none => simp [old] at hj
      | some attempt' =>
        obtain rfl : f attempt' = attempt := by simpa [old] using hj
        rw [state]
        exact outcomes attempt' old r phase
    · have old : s.attempts[j]? = some attempt := by simpa [haj] using hj
      exact h.outcomes attempt (List.mem_of_getElem? old) r phase

theorem Ledger.abortAttempts (h : Ledger s held) (linked : ℕ → Bool) (reason : AbortReason) :
    Ledger (s.abortAttempts linked reason) held ∧ Grows s (s.abortAttempts linked reason) := by
  refine h.attempts _ ?_ ?_
  · refine List.ext_getElem? fun j => ?_
    simp only [List.getElem?_map, List.getElem?_mapIdx]
    cases s.attempts[j]? with
    | none => rfl
    | some =>
      simp only [Option.map_some]
      split <;> rfl
  · intro attempt mem r phase
    obtain ⟨j, hj⟩ := List.getElem?_of_mem mem
    rw [List.getElem?_mapIdx] at hj
    obtain ⟨old, hold, rfl⟩ := Option.map_eq_some_iff.1 hj
    have kept := h.outcomes old (List.mem_of_getElem? hold) r
    by_cases hit : j ∈ s.active ∧ linked old.state = true
    · rw [if_pos hit] at phase ⊢
      exact kept phase
    · rw [if_neg hit] at phase ⊢
      exact kept phase

/-! ### Finishing -/

/-- The batch `s` finishes as `t` with the settlement `x`. -/
structure Closes (s t : SubagentBatch T) (x : Settlement T) : Prop where
  tasks : t.tasks = s.tasks
  results : t.results = s.results
  attempts : t.attempts = s.attempts
  active : t.active = []
  abortReason : t.abortReason = s.abortReason
  finished : t.finished = true
  settlements : t.settlements = s.settlements ++ [x]

theorem closes_cleanup (x : Settlement T) : Closes s
    { cleanup { s with finished := true } with settlements := s.settlements ++ [x] } x := by
  have done : SameCore { s with finished := true }
      ({ s with finished := true } : SubagentBatch T).clearNormalTimer.clearRateLimitTimer :=
    same_clearNormalTimer.trans same_clearRateLimitTimer
  exact ⟨done.tasks, done.results, done.attempts, rfl, done.abortReason, done.finished, rfl⟩

theorem closes_finish (unfinished : s.finished = false) (results : List (SubagentResult T)) :
    Closes s (s.finish results) (.resolved results) := by
  have core := (same_clearNormalTimer (s := { s with finished := true })).trans
    same_clearRateLimitTimer
  have eq : s.finish results = { cleanup { s with finished := true } with
      settlements := s.settlements ++ [.resolved results] } := by
    simp only [finish, unfinished, Bool.false_eq_true, if_false]
    rw [show (cleanup { s with finished := true }).settlements = s.settlements from
      core.settlements]
  rw [eq]
  exact closes_cleanup _

theorem closes_fail (unfinished : s.finished = false) (reason : AbortReason) :
    Closes s (s.fail reason) (.rejected reason) := by
  have core := (same_clearNormalTimer (s := { s with finished := true })).trans
    same_clearRateLimitTimer
  have eq : s.fail reason = { cleanup { s with finished := true } with
      settlements := s.settlements ++ [.rejected reason] } := by
    simp only [fail, unfinished, Bool.false_eq_true, if_false]
    rw [show (cleanup { s with finished := true }).settlements = s.settlements from
      core.settlements]
  rw [eq]
  exact closes_cleanup _

theorem Closes.grows {x : Settlement T} (c : Closes s t x) : Grows s t where
  tasks := c.tasks
  owner a i h := by simpa only [owner, c.attempts] using h
  stored i r h := by rwa [c.results]
  finished _ := c.finished
  aborted h := by rwa [c.abortReason]

theorem Closes.keepsActive {x : Settlement T} (c : Closes s t x) : KeepsActive s t := by
  intro unfinished
  rw [c.finished] at unfinished
  cases unfinished

theorem Ledger.close {x : Settlement T} (h : Ledger s held) (c : Closes s t x)
    (unfinished : s.finished = false)
    (answers : ∀ results, x = .resolved results → s.Answers results) : Ledger t held where
  length := by rw [c.results, c.tasks, h.length]
  once := by simp [c.finished]
  known := by simp [c.active]
  stored := by
    rw [c.results, c.tasks]
    exact h.stored
  outcomes := by
    rw [c.attempts, c.tasks]
    exact h.outcomes
  unsettled := by simp [c.finished]
  settled := by
    intro _
    refine ⟨x, by rw [c.settlements, h.unsettled unfinished]; rfl, ?_⟩
    simpa only [Answers, c.tasks, c.results] using answers

theorem Ledger.of_finished (h : Ledger s held) (finished : s.finished = true) (held' : List ℕ) :
    Ledger s held' :=
  { h with once := by simp [finished] }

theorem allResults_eq_some {results : List (SubagentResult T)}
    (all : s.allResults = some results) : s.results = results.map some := by
  unfold allResults at all
  generalize s.results = slots at all ⊢
  induction slots generalizing results with
  | nil => simp_all
  | cons slot slots ih =>
    cases slot with
    | none => cases all
    | some result =>
      cases rest : slots.mapM id with
      | none => simp [rest] at all
      | some results' =>
        obtain rfl : result :: results' = results := by simpa [rest] using all
        simp [ih rest]

theorem Ledger.answers_allResults (h : Ledger s held) {results : List (SubagentResult T)}
    (all : s.allResults = some results) : s.Answers results := by
  have eq := allResults_eq_some all
  constructor
  · refine List.ext_getElem? fun i => ?_
    rw [List.getElem?_map]
    cases hr : results[i]? with
    | none =>
      have : results.length ≤ i := by simpa using hr
      have len := h.length
      rw [eq, List.length_map] at len
      simpa [len] using this
    | some r => exact (h.stored i r (by simp [eq, hr])).symm
  · intro i r hr
    simpa [eq] using hr

theorem Ledger.answers_cancelled (h : Ledger s held) :
    s.Answers (s.tasks.mapIdx fun i task => s.cancelledResult i task) := by
  constructor
  · refine List.ext_getElem? fun i => ?_
    simp only [List.getElem?_map, List.getElem?_mapIdx, Option.map_map]
    cases ht : s.tasks[i]? with
    | none => rfl
    | some =>
      simp only [Option.map_some, Function.comp_apply, Option.some.injEq, cancelledResult]
      split
      case h_1 result hr =>
        have slot : s.results[i]? = some (some result) := Option.join_eq_some_iff.1 hr
        exact Option.some.inj ((h.stored i result slot).symm.trans ht)
      case h_2 => split <;> rfl
  · intro i r hr
    rw [List.getElem?_mapIdx, h.stored i r hr]
    simp [cancelledResult, hr]

/-! ### Moves of one task -/

theorem Ledger.dequeue {i : ℕ} {rest : List ℕ} (h : Ledger s held)
    (perm : s.pending.Perm (i :: rest)) : Ledger { s with pending := rest } (i :: held) :=
  { h with
    once := by
      intro unfinished j
      have := h.once unfinished j
      rw [perm.count_eq, List.count_cons] at this
      rw [List.count_cons]
      show rest.count j + s.owners.count j + (s.filled j).toNat + _ =
        if j < s.tasks.length then 1 else 0
      omega }

theorem Ledger.enqueue {i : ℕ} (h : Ledger s (i :: held)) :
    Ledger { s with pending := i :: s.pending } held :=
  { h with
    once := by
      intro unfinished j
      have := h.once unfinished j
      rw [List.count_cons] at this
      show (i :: s.pending).count j + s.owners.count j + (s.filled j).toNat + _ =
        if j < s.tasks.length then 1 else 0
      rw [List.count_cons]
      omega }

theorem Ledger.held_lt {i : ℕ} (h : Ledger s held) (unfinished : s.finished = false)
    (mem : i ∈ held) : i < s.tasks.length ∧ s.filled i = false := by
  have := h.once unfinished i
  have pos : 0 < held.count i := List.count_pos_iff.2 mem
  by_cases lt : i < s.tasks.length
  · refine ⟨lt, ?_⟩
    rw [if_pos lt] at this
    cases hf : s.filled i with
    | false => rfl
    | true =>
      simp only [hf, Bool.toNat_true] at this
      omega
  · rw [if_neg lt] at this
    omega

theorem Ledger.setResult {i : ℕ} (h : Ledger s (i :: held)) (r : SubagentResult T)
    (unfinished : s.finished = false) (task : s.tasks[i]? = some r.task) :
    Ledger (s.setResult i r) held ∧ Grows s (s.setResult i r) := by
  obtain ⟨lt, empty⟩ := h.held_lt unfinished (List.mem_cons_self ..)
  have inside : i < s.results.length := h.length ▸ lt
  have other : ∀ j, j ≠ i → (s.results.set i (some r))[j]? = s.results[j]? := fun j ne =>
    List.getElem?_set_ne ne.symm
  have slot : (s.results.set i (some r))[i]? = some (some r) := by
    simp [inside]
  constructor
  · exact
      { length := by simpa [SubagentBatch.setResult] using h.length
        once := by
          intro _ j
          have := h.once unfinished j
          rw [List.count_cons] at this
          show s.pending.count j + s.owners.count j +
            (((s.results.set i (some r))[j]?.join).isSome).toNat + held.count j =
              if j < s.tasks.length then 1 else 0
          by_cases hj : j = i
          · subst hj
            simp only [empty, Bool.toNat_false] at this
            rw [slot]
            simp only [beq_self_eq_true, if_true] at this
            simpa [add_assoc, add_comm, add_left_comm] using this
          · rw [other j hj]
            simpa [hj, Ne.symm hj, filled] using this
        known := h.known
        stored := by
          intro j r' hr
          by_cases hj : j = i
          · subst hj
            obtain rfl : r = r' := by simpa using slot.symm.trans hr
            exact task
          · exact h.stored j r' ((other j hj).symm.trans hr)
        outcomes := h.outcomes
        unsettled := h.unsettled
        settled := by simp [SubagentBatch.setResult, unfinished] }
  · refine ⟨rfl, fun _ _ h => h, fun j r' hr => ?_, id, id⟩
    by_cases hj : j = i
    · subst hj
      simp [filled, hr] at empty
    · exact (other j hj).trans hr

theorem Ledger.releaseAttempt {a i : ℕ} (h : Ledger s held) (mem : a ∈ s.active)
    (owned : s.owner a = some i) :
    Ledger (s.releaseAttempt a) (i :: held) ∧ Grows s (s.releaseAttempt a) := by
  constructor
  · exact
      { h with
        once := by
          intro unfinished j
          have := h.once unfinished j
          have perm := (List.perm_cons_erase mem).filterMap s.owner
          rw [List.filterMap_cons_some owned] at perm
          rw [owners, perm.count_eq, List.count_cons] at this
          rw [List.count_cons]
          show s.pending.count j + ((s.active.erase a).filterMap s.owner).count j +
            (s.filled j).toNat + _ = if j < s.tasks.length then 1 else 0
          omega
        known := fun b hb => h.known b (List.mem_of_mem_erase hb) }
  · exact ⟨rfl, fun _ _ h => h, fun _ _ h => h, id, id⟩

theorem startAttempt_of_stopped {i : ℕ} {next : AfterStart}
    (stopped : s.finished = true ∨ s.abortReason.isSome = true) :
    s.startAttempt i next = (s, none) := by
  unfold startAttempt
  rcases stopped with h | h <;> simp [h]

/-- What `startAttempt` does: a new active attempt, and possibly a call of the launcher. -/
theorem startAttempt_spec {i : ℕ} (next : AfterStart) (unfinished : s.finished = false)
    (running : s.abortReason = none) :
    ∃ attempt : ActiveAttempt T, attempt.state = i ∧
      (∀ r, attempt.phase = .resolved (.result r) → s.tasks[i]? = some r.task) ∧
      (s.startAttempt i next).1 = { s with
        attempts := s.attempts ++ [attempt]
        active := s.active ++ [s.attempts.length] } ∧
      ∀ frame, (s.startAttempt i next).2 = some frame →
        ∃ call, frame = .launcher s.attempts.length call next := by
  unfold startAttempt
  simp only [unfinished, running, Option.isSome_none, Bool.or_self, Bool.false_eq_true, if_false]
  split
  case h_1 reason task _ ht =>
    refine ⟨_, rfl, ?_, rfl, by simp⟩
    intro r phase
    obtain rfl : _ = r := by simpa using phase
    simpa [failedAttemptOutcome] using ht
  case h_2 =>
    refine ⟨_, rfl, ?_, rfl, ?_⟩
    · intro r phase
      cases phase
    · intro frame h
      exact ⟨_, (Option.some.inj h).symm⟩

theorem known_startAttempt (i : ℕ) (next : AfterStart)
    (known : ∀ a ∈ s.active, a < s.attempts.length) :
    ∀ a ∈ (s.startAttempt i next).1.active, a < (s.startAttempt i next).1.attempts.length := by
  by_cases stopped : s.finished = true ∨ s.abortReason.isSome = true
  · rwa [startAttempt_of_stopped stopped]
  · push Not at stopped
    obtain ⟨attempt, _, _, eq, _⟩ := startAttempt_spec (i := i) next (by simpa using stopped.1)
      (by simpa using stopped.2)
    rw [eq]
    intro a mem
    rw [List.length_append]
    rcases List.mem_append.1 mem with mem | mem
    · exact Nat.lt_add_right _ (known a mem)
    · rw [List.mem_singleton.1 mem]
      simp

theorem owner_append {attempts : List (ActiveAttempt T)} {a : ℕ} (known : a < s.attempts.length) :
    ((s.attempts ++ attempts)[a]?).map (·.state) = s.owner a := by
  rw [List.getElem?_append_left known, owner]

theorem owners_startAttempt {i : ℕ} (next : AfterStart) (unfinished : s.finished = false)
    (running : s.abortReason = none) (known : ∀ a ∈ s.active, a < s.attempts.length) :
    (s.startAttempt i next).1.owners = s.owners ++ [i] := by
  obtain ⟨attempt, state, _, eq, _⟩ := startAttempt_spec (i := i) next unfinished running
  rw [eq]
  show ((s.active ++ [s.attempts.length]).filterMap fun a =>
    ((s.attempts ++ [attempt])[a]?).map (·.state)) = _
  rw [List.filterMap_append, owners, List.filterMap_congr fun a ha => owner_append (known a ha)]
  simp [state]

theorem Ledger.startAttempt {i : ℕ} (next : AfterStart) (h : Ledger s (i :: held))
    (unfinished : s.finished = false) (running : s.abortReason = none) :
    Ledger (s.startAttempt i next).1 held ∧ Grows s (s.startAttempt i next).1 := by
  obtain ⟨attempt, state, outcome, eq, _⟩ := startAttempt_spec (i := i) next unfinished running
  have owners := owners_startAttempt (i := i) next unfinished running h.known
  have known := known_startAttempt i next h.known
  rw [eq] at owners known ⊢
  constructor
  · exact
      { length := h.length
        once := by
          intro _ j
          have := h.once unfinished j
          rw [owners, List.count_append, List.count_singleton]
          show s.pending.count j + _ + (s.filled j).toNat + held.count j =
            if j < s.tasks.length then 1 else 0
          rw [List.count_cons] at this
          omega
        known := known
        stored := h.stored
        outcomes := by
          intro old mem r phase
          rcases List.mem_append.1 mem with mem | mem
          · exact h.outcomes old mem r phase
          · obtain rfl := List.mem_singleton.1 mem
            rw [state]
            exact outcome r phase
        unsettled := h.unsettled
        settled := h.settled }
  · refine ⟨rfl, fun a j ha => ?_, fun _ _ h => h, id, id⟩
    obtain ⟨old, hold, _⟩ := Option.map_eq_some_iff.1 ha
    exact (owner_append (List.getElem?_eq_some_iff.1 hold).1).trans ha

/-! ### Scheduling -/

/-- What the accounting needs to know about the result of a scheduling method. -/
structure Served (s : SubagentBatch T) (held : List ℕ) (r : SubagentBatch T × Exit) : Prop where
  ledger : Ledger r.1 held
  grows : Grows s r.1
  keepsActive : KeepsActive s r.1
  abortReason : r.1.abortReason = s.abortReason
  /-- A call that has been made is one of the launcher, for an attempt that is active. -/
  frame : ∀ frame, r.2 = .call frame →
    ∃ a call next, frame = .launcher a call next ∧ a ∈ r.1.active ∧ s.abortReason = none

/-- The batch has finished or is not about to be aborted, so `startAttempt` loses no task. -/
def Runs (s : SubagentBatch T) : Prop := s.finished = true ∨ s.abortReason = none

theorem Served.after {r : SubagentBatch T × Exit} (grows : Grows s t) (keeps : KeepsActive s t)
    (same : t.abortReason = s.abortReason) (h : Served t held r) : Served s held r where
  ledger := h.ledger
  grows := grows.trans h.grows
  keepsActive := keeps.trans h.keepsActive h.grows
  abortReason := h.abortReason.trans same
  frame := same ▸ h.frame

theorem Served.after_same {r : SubagentBatch T × Exit} (same : SameCore s t) (h : Served t held r) :
    Served s held r :=
  h.after same.grows same.keepsActive same.abortReason

theorem Served.of_same (h : Ledger s held) (same : SameCore s t) :
    Served s held (t, .scheduled) where
  ledger := h.congr same
  grows := same.grows
  keepsActive := same.keepsActive
  abortReason := same.abortReason
  frame := by simp

/-- What the accounting needs to know about a queued task that has been given to `startAttempt`. -/
structure Launched (s : SubagentBatch T) (held rest : List ℕ) (next : AfterStart)
    (r : SubagentBatch T × Option Frame) : Prop where
  ledger : Ledger r.1 held
  grows : Grows s r.1
  keepsActive : KeepsActive s r.1
  abortReason : r.1.abortReason = s.abortReason
  finished : r.1.finished = s.finished
  pending : r.1.pending = rest
  frame : ∀ frame, r.2 = some frame →
    ∃ a call, frame = .launcher a call next ∧ a ∈ r.1.active ∧ s.abortReason = none

theorem Ledger.launch {i : ℕ} {rest : List ℕ} (h : Ledger s held)
    (perm : s.pending.Perm (i :: rest)) (runs : s.Runs) (next : AfterStart) :
    Launched s held rest next (SubagentBatch.startAttempt { s with pending := rest } i next) := by
  have dequeued := h.dequeue perm
  have grown : Grows s { s with pending := rest } := ⟨rfl, fun _ _ h => h, fun _ _ h => h, id, id⟩
  by_cases unfinished : s.finished = false
  · have running : s.abortReason = none := runs.resolve_left (by simp [unfinished])
    obtain ⟨attempt, _, _, eq, frames⟩ :=
      startAttempt_spec (s := { s with pending := rest }) (i := i) next unfinished running
    obtain ⟨ledger, grows⟩ := dequeued.startAttempt next unfinished running
    refine ⟨ledger, grown.trans grows, ?_, ?_, ?_, ?_, ?_⟩
    · intro _ a mem
      rw [eq]
      exact List.mem_append_left _ mem
    · rw [eq]
    · rw [eq]
    · rw [eq]
    · intro frame hframe
      obtain ⟨call, rfl⟩ := frames frame hframe
      exact ⟨_, call, rfl, by rw [eq]; simp, running⟩
  · have finished : s.finished = true := by simpa using unfinished
    rw [startAttempt_of_stopped (s := { s with pending := rest }) (.inl finished)]
    exact ⟨dequeued.of_finished finished held, grown, fun _ _ h => h, rfl, rfl, rfl, by simp⟩

/-- The call of a started task is the launcher's. -/
theorem Launched.served {rest : List ℕ} {next : AfterStart} {f : Frame}
    (launched : Launched s held rest next (t, some f)) : Served s held (t, .call f) := by
  refine ⟨launched.ledger, launched.grows, launched.keepsActive, launched.abortReason, ?_⟩
  intro f' hf
  obtain rfl : f = f' := by simpa using hf
  obtain ⟨a, call, rfl, active⟩ := launched.frame f rfl
  exact ⟨a, call, _, rfl, active⟩

theorem launchPending_served : ∀ {pending : List ℕ} {s : SubagentBatch T}, Ledger s held →
    s.pending = pending → s.Runs → Served s held (launchPending pending s)
  | [], s, h, _, _ => .of_same h same_armNormalTimer
  | i :: rest, s, h, hpending, runs => by
    unfold launchPending
    split_ifs
    · have launched := h.launch (i := i) (by rw [hpending]) runs .normalLoop
      generalize hr : SubagentBatch.startAttempt { s with pending := rest } i .normalLoop = r at *
      obtain ⟨t, call⟩ := r
      cases call with
      | some f => exact launched.served
      | none =>
        obtain ⟨ledger, grows, keeps, abortReason, finished, pending, -⟩ := launched
        have counted : SameCore t { t with normalLaunchCount := t.normalLaunchCount + 1 } :=
          ⟨rfl, rfl, rfl, rfl, rfl, rfl, rfl, rfl⟩
        have runs' : t.Runs := by
          unfold Runs at runs ⊢
          rwa [finished, abortReason]
        have after := (launchPending_served (ledger.congr counted) pending runs').after_same counted
        exact after.after grows keeps abortReason
    · exact .of_same h same_armNormalTimer

theorem find?_perm_eraseP {α : Type*} {p : α → Bool} {x : α} {l : List α}
    (found : l.find? p = some x) : l.Perm (x :: l.eraseP p) := by
  obtain ⟨hx, pre, post, rfl, before⟩ := List.find?_eq_some_iff_append.1 found
  rw [List.eraseP_append_right _ (fun a ha => by simpa using before a ha),
    List.eraseP_cons_of_pos hx]
  exact List.perm_middle

theorem launchEligible_served (h : Ledger s held) (runs : s.Runs) :
    Served s held (s.launchEligible now) := by
  unfold launchEligible
  split
  case h_1 => exact .of_same h ⟨rfl, rfl, rfl, rfl, rfl, rfl, rfl, rfl⟩
  case h_2 i found =>
    have launched := h.launch (find?_perm_eraseP found) runs (.rateLimit now)
    split
    case h_1 t f hr => exact (hr ▸ launched).served
    case h_2 t hr =>
      rw [hr] at launched
      exact (Served.of_same launched.ledger (same_afterRateLimitStart _)).after launched.grows
        launched.keepsActive launched.abortReason

theorem scheduleRateLimitLaunch_served (h : Ledger s held) (runs : s.Runs) :
    Served s held (s.scheduleRateLimitLaunch now) := by
  have cleared := same_clearRateLimitTimer (s := s)
  unfold scheduleRateLimitLaunch
  dsimp only
  split_ifs
  · exact .of_same h cleared
  · have recovered : SameCore s (s.clearRateLimitTimer.recoverRateLimitCapacity now) :=
      cleared.trans same_recoverRateLimitCapacity
    have runs' : (s.clearRateLimitTimer.recoverRateLimitCapacity now).Runs := by
      unfold Runs at runs ⊢
      rwa [recovered.finished, recovered.abortReason]
    unfold launchOrWait
    dsimp only
    split_ifs
    · exact .of_same h (recovered.trans (same_scheduleRateLimitWakeup _ _))
    · exact .of_same h (recovered.trans (same_scheduleRateLimitWakeup _ _))
    · exact (launchEligible_served (h.congr recovered) runs').after_same recovered

theorem schedule_served (now : ℕ) (h : Ledger s held) : Served s held (s.schedule now) := by
  have same : SameCore s s := ⟨rfl, rfl, rfl, rfl, rfl, rfl, rfl, rfl⟩
  unfold schedule
  by_cases finished : s.finished = true
  · rw [if_pos finished]
    exact .of_same h same
  rw [if_neg finished]
  have unfinished : s.finished = false := by simpa using finished
  split
  case h_1 results all =>
    have closes := closes_finish unfinished results
    refine ⟨h.close closes unfinished ?_, closes.grows, closes.keepsActive, closes.abortReason,
      by simp⟩
    rintro _ ⟨⟩
    exact h.answers_allResults all
  case h_2 =>
    split_ifs with aborted
    · exact .of_same h same
    · exact scheduleRateLimitLaunch_served h (.inr (by simpa using aborted))
    · exact launchPending_served h rfl (.inr (by simpa using aborted))

theorem afterStart_served (now : ℕ) (h : Ledger s held) (runs : s.Runs) (next : AfterStart) :
    Served s held (s.afterStart now next) := by
  have counted : SameCore s { s with normalLaunchCount := s.normalLaunchCount + 1 } :=
    ⟨rfl, rfl, rfl, rfl, rfl, rfl, rfl, rfl⟩
  cases next with
  | normalLoop => exact (launchPending_served (h.congr counted) rfl runs).after_same counted
  | normalTimer => exact (schedule_served now (h.congr counted)).after_same counted
  | rateLimit => exact .of_same h (same_afterRateLimitStart _)

/-! ### Handlers -/

theorem Ledger.answers_nil (h : Ledger s held) (empty : s.tasks.length = 0) : s.Answers [] := by
  have none : s.tasks = [] := List.length_eq_zero_iff.1 empty
  refine ⟨by simp [none], fun i r hr => ?_⟩
  have := h.stored i r hr
  simp [none] at this

theorem markAttemptReady_served (a now later : ℕ) (h : Ledger s held) :
    Served s held (s.markAttemptReady a now later) := by
  have same : SameCore s s := ⟨rfl, rfl, rfl, rfl, rfl, rfl, rfl, rfl⟩
  have idle : Served s held (s, .done) :=
    ⟨h, same.grows, same.keepsActive, rfl, by simp⟩
  unfold markAttemptReady
  split
  case h_1 => exact idle
  case h_2 attempt _ =>
    dsimp only
    split
    case isTrue => exact idle
    case isFalse =>
      obtain ⟨ledger, grows⟩ := h.modifyAttempt a (fun attempt => { attempt with ready := true })
        (fun _ => rfl) fun attempt hattempt r phase =>
          h.outcomes attempt (List.mem_of_getElem? hattempt) r phase
      have keeps :
          KeepsActive s (s.modifyAttempt a fun attempt => { attempt with ready := true }) :=
        fun _ _ mem => mem
      refine Served.after grows keeps rfl ?_
      split
      case isTrue =>
        refine Served.after_same ?_ (schedule_served later (ledger.congr ?_)) <;>
          exact ⟨rfl, rfl, rfl, rfl, rfl, rfl, rfl, rfl⟩
      case isFalse =>
        exact ⟨ledger.congr ⟨rfl, rfl, rfl, rfl, rfl, rfl, rfl, rfl⟩,
          ⟨rfl, fun _ _ h => h, fun _ _ h => h, id, id⟩, fun _ _ mem => mem, rfl, by simp⟩

/-- `Grows`, the end of the handler and what is held then. -/
structure Handled (s : SubagentBatch T) (held : List ℕ) (a i : ℕ) (r : SubagentBatch T × Exit) :
    Prop where
  grows : Grows s r.1
  abortReason : r.1.abortReason = s.abortReason
  outcome : (r.2 = .call (.suspended a) ∧ Ledger r.1 (i :: held)) ∨
    (∃ a call next, r.2 = .call (.launcher a call next) ∧ Ledger r.1 held ∧ a ∈ r.1.active ∧
      s.abortReason = none) ∨
    (∀ frame, r.2 ≠ .call frame) ∧ Ledger r.1 held

theorem Served.handled {a i : ℕ} {r : SubagentBatch T × Exit} (h : Served t held r)
    (grows : Grows s t) (same : t.abortReason = s.abortReason) : Handled s held a i r := by
  refine ⟨grows.trans h.grows, h.abortReason.trans same, ?_⟩
  by_cases called : ∃ frame, r.2 = .call frame
  · obtain ⟨frame, hframe⟩ := called
    obtain ⟨a, call, next, rfl, mem, none⟩ := h.frame frame hframe
    exact .inr (.inl ⟨a, call, next, hframe, h.ledger, mem, same ▸ none⟩)
  · push Not at called
    exact .inr (.inr ⟨called, h.ledger⟩)

theorem handleAttemptOutcome_handled (now : ℕ) {a : ℕ} {attempt : ActiveAttempt T}
    {task : QueuedSubagentTask T} {outcome : AttemptOutcome T} (h : Ledger s held)
    (owned : s.owner a = some attempt.state) (htask : s.tasks[attempt.state]? = some task)
    (result : ∀ r, outcome = .result r → r.task = task) :
    Handled s held a attempt.state (s.handleAttemptOutcome a attempt task outcome now) := by
  unfold handleAttemptOutcome
  dsimp only
  split
  case isTrue =>
    exact ⟨.refl s, rfl, .inr (.inr ⟨by simp, h⟩)⟩
  case isFalse mem =>
    rw [not_not] at mem
    obtain ⟨ledger, grows⟩ := h.releaseAttempt mem owned
    split
    case isTrue finished =>
      exact ⟨grows, rfl, .inr (.inr ⟨by simp, ledger.of_finished finished held⟩)⟩
    case isFalse unfinished =>
      have unfinished : (s.releaseAttempt a).finished = false := by simpa using unfinished
      split
      case h_1 r =>
        have hr : s.tasks[attempt.state]? = some r.task := by rwa [result r rfl]
        have filled := ledger.setResult r unfinished hr
        exact (schedule_served now filled.1).handled (grows.trans filled.2) rfl
      case h_2 agentId error =>
        split
        case isTrue =>
          have filled := ledger.setResult (rateLimitedResult task agentId error) unfinished htask
          exact (schedule_served now filled.1).handled (grows.trans filled.2) rfl
        case isFalse =>
          have same : SameCore (s.releaseAttempt a) ((s.releaseAttempt a).setState attempt.state
              fun state => { state with agentId := some agentId, retryAgentId := some agentId }) :=
            same_setState _ _
          exact ⟨grows.trans same.grows, rfl, .inl ⟨rfl, ledger.congr same⟩⟩

theorem handleAttemptError_handled (now : ℕ) (error : String) {a : ℕ} {attempt : ActiveAttempt T}
    {task : QueuedSubagentTask T} (h : Ledger s held)
    (owned : s.owner a = some attempt.state) (htask : s.tasks[attempt.state]? = some task) :
    Handled s held a attempt.state (s.handleAttemptError a attempt task error now) := by
  unfold handleAttemptError
  dsimp only
  split
  case isTrue =>
    exact ⟨.refl s, rfl, .inr (.inr ⟨by simp, h⟩)⟩
  case isFalse mem =>
    rw [not_not] at mem
    obtain ⟨ledger, grows⟩ := h.releaseAttempt mem owned
    split
    case isTrue finished =>
      exact ⟨grows, rfl, .inr (.inr ⟨by simp, ledger.of_finished finished held⟩)⟩
    case isFalse unfinished =>
      have unfinished : (s.releaseAttempt a).finished = false := by simpa using unfinished
      have filled := ledger.setResult
        (rejectedResult task ((s.releaseAttempt a).states attempt.state).agentId error)
        unfinished htask
      exact (schedule_served now filled.1).handled (grows.trans filled.2) rfl

theorem requeueRateLimited_ledger (createTimeout : ℕ → Time) (now : ℕ)
    {attempt : ActiveAttempt T} (h : Ledger s (attempt.state :: held)) :
    Ledger (s.requeueRateLimited createTimeout attempt now) held ∧
      Grows s (s.requeueRateLimited createTimeout attempt now) ∧
      KeepsActive s (s.requeueRateLimited createTimeout attempt now) ∧
      (s.requeueRateLimited createTimeout attempt now).abortReason = s.abortReason := by
  have queued := h.enqueue
  have same : SameCore { s with pending := attempt.state :: s.pending }
      (s.requeueRateLimited createTimeout attempt now) := by
    refine SameCore.trans ?_ (same_delayNextLaunch _ _)
    refine SameCore.trans ?_ same_enterRateLimitMode
    exact ⟨rfl, rfl, rfl, rfl, rfl, rfl, rfl, rfl⟩
  have grown : Grows s { s with pending := attempt.state :: s.pending } :=
    ⟨rfl, fun _ _ h => h, fun _ _ h => h, id, id⟩
  refine ⟨queued.congr same, grown.trans same.grows, ?_, same.abortReason⟩
  intro unfinished a mem
  exact same.keepsActive unfinished a mem

theorem normalTimerFired_served (now : ℕ) (h : Ledger s held) (runs : s.Runs) :
    Served s held (s.normalTimerFired now) := by
  have cleared : SameCore s { s with normalLaunchTimer := none } :=
    ⟨rfl, rfl, rfl, rfl, rfl, rfl, rfl, rfl⟩
  have idle : Served s held ({ s with normalLaunchTimer := none }, .done) :=
    ⟨h.congr cleared, cleared.grows, cleared.keepsActive, rfl, by simp⟩
  unfold normalTimerFired
  dsimp only
  split
  case h_1 => exact idle
  case h_2 i rest hpending =>
    split
    case isTrue => exact idle
    case isFalse =>
      refine Served.after_same cleared ?_
      have launched := (h.congr cleared).launch (i := i) (.of_eq hpending) runs .normalTimer
      split
      case h_1 t f hr => exact (hr ▸ launched).served
      case h_2 t hr =>
        rw [hr] at launched
        have runs' : t.Runs := by
          unfold Runs at runs ⊢
          rwa [launched.finished, launched.abortReason]
        exact (afterStart_served now launched.ledger runs' .normalTimer).after launched.grows
          launched.keepsActive launched.abortReason

end SubagentBatch

/-! ## The machine -/

namespace BatchMachine

open SubagentBatch

/-- The tasks whose rate limit is being reported to `launcher.suspended`. -/
def heldBy (s : SubagentBatch T) (stack : List Frame) : List ℕ :=
  stack.filterMap fun
    | .suspended a => s.owner a
    | _ => none

/-- The invariant of a batch and the methods that wait for an outside call. -/
structure Inv (tasks : List (QueuedSubagentTask T)) (s : SubagentBatch T) (stack : List Frame) :
    Prop where
  tasks : s.tasks = tasks
  ledger : Ledger s (heldBy s stack)
  owned : ∀ a, .suspended a ∈ stack → ∃ i, s.owner a = some i
  launchers : s.finished = false → ∀ a call next, .launcher a call next ∈ stack → a ∈ s.active
  /-- An aborted batch finishes before any other method goes on. -/
  aborting : s.finished = false → s.abortReason.isSome = true →
    ∃ reason rest, stack = .batchAbort reason :: rest

variable {tasks : List (QueuedSubagentTask T)} {s t : SubagentBatch T} {stack : List Frame}
  {now later : ℕ}

theorem heldBy_of_grows (grows : Grows s t)
    (owned : ∀ a, .suspended a ∈ stack → ∃ i, s.owner a = some i) :
    heldBy t stack = heldBy s stack := by
  refine List.filterMap_congr fun frame mem => ?_
  cases frame with
  | suspended a =>
    obtain ⟨i, hi⟩ := owned a mem
    simp only [hi, grows.owner a i hi]
  | _ => rfl

theorem Inv.change (h : Inv tasks s stack) (ledger : Ledger t (heldBy s stack)) (grows : Grows s t)
    (keeps : KeepsActive s t) (same : t.abortReason = s.abortReason) : Inv tasks t stack where
  tasks := grows.tasks.trans h.tasks
  ledger := by rwa [heldBy_of_grows grows h.owned]
  owned a mem := by
    obtain ⟨i, hi⟩ := h.owned a mem
    exact ⟨i, grows.owner a i hi⟩
  launchers unfinished a call next mem := by
    refine keeps unfinished a (h.launchers ?_ a call next mem)
    by_contra finished
    rw [grows.finished (by simpa using finished)] at unfinished
    cases unfinished
  aborting unfinished aborted := by
    refine h.aborting ?_ (same ▸ aborted)
    by_contra finished
    rw [grows.finished (by simpa using finished)] at unfinished
    cases unfinished

theorem Inv.push (h : Inv tasks s stack) {a : ℕ} {call : LauncherCall} {next : AfterStart}
    (mem : a ∈ s.active) (running : s.abortReason = none) :
    Inv tasks s (.launcher a call next :: stack) where
  tasks := h.tasks
  ledger := h.ledger
  owned b hb := h.owned b (by simpa using hb)
  launchers unfinished b call' next' hb := by
    rcases List.mem_cons.1 hb with heq | hb
    · cases heq
      exact mem
    · exact h.launchers unfinished b call' next' hb
  aborting _ aborted := by simp [running] at aborted

/-- What a machine holds after a piece of code. -/
abbrev Keeps (tasks : List (QueuedSubagentTask T)) (m : BatchMachine T) : Prop :=
  Inv tasks m.batch m.stack

theorem Inv.serve {r : SubagentBatch T × Exit} (h : Inv tasks s stack)
    (served : Served s (heldBy s stack) r) : Keeps tasks (resume stack r) := by
  obtain ⟨t, exit⟩ := r
  have below := h.change served.ledger served.grows served.keepsActive served.abortReason
  cases exit with
  | call frame =>
    obtain ⟨a, call, next, rfl, mem, running⟩ := served.frame frame rfl
    exact below.push mem (served.abortReason.trans running)
  | scheduled => exact below
  | done => exact below

theorem Inv.handle {a i : ℕ} {r : SubagentBatch T × Exit} (h : Inv tasks s [])
    (owned : s.owner a = some i) (handled : Handled s [] a i r) : Keeps tasks (resume [] r) := by
  obtain ⟨t, exit⟩ := r
  obtain ⟨grows, same, outcome⟩ := handled
  have running : t.finished = false → t.abortReason.isSome = true → False := by
    intro unfinished aborted
    obtain ⟨reason, rest, eq⟩ := h.aborting (by
      by_contra finished
      rw [grows.finished (by simpa using finished)] at unfinished
      cases unfinished) (same ▸ aborted)
    cases eq
  rcases outcome with
    ⟨called, ledger⟩ | ⟨b, call, next, called, ledger, mem, none⟩ | ⟨ended, ledger⟩
  · obtain rfl : exit = _ := called
    have kept := grows.owner a i owned
    exact
      { tasks := grows.tasks.trans h.tasks
        ledger := by simpa [resume, heldBy, kept] using ledger
        owned := by simp [resume, kept]
        launchers := by simp [resume]
        aborting := fun unfinished aborted => (running unfinished aborted).elim }
  · obtain rfl : exit = _ := called
    have below : Inv tasks t [] :=
      { tasks := grows.tasks.trans h.tasks
        ledger := ledger
        owned := by simp
        launchers := by simp
        aborting := fun unfinished aborted => (running unfinished aborted).elim }
    exact below.push mem (same.trans none)
  · have below : Inv tasks t [] :=
      { tasks := grows.tasks.trans h.tasks
        ledger := ledger
        owned := by simp
        launchers := by simp
        aborting := fun unfinished aborted => (running unfinished aborted).elim }
    cases exit with
    | call frame => exact absurd rfl (ended frame)
    | scheduled => exact below
    | done => exact below

theorem Inv.runs (h : Inv tasks s []) : s.Runs := by
  by_cases finished : s.finished = true
  · exact .inl finished
  · refine .inr ?_
    by_contra aborted
    obtain ⟨_, _, eq⟩ := h.aborting (by simpa using finished) (Option.isSome_iff_ne_none.2 aborted)
    cases eq

theorem Inv.pop {frame : Frame} (h : Inv tasks s (frame :: stack))
    (noAbort : ∀ reason, frame ≠ .batchAbort reason) : s.Runs := by
  by_cases finished : s.finished = true
  · exact .inl finished
  · refine .inr ?_
    by_contra aborted
    obtain ⟨reason, rest, eq⟩ := h.aborting (by simpa using finished)
      (Option.isSome_iff_ne_none.2 aborted)
    exact noAbort reason (List.cons.inj eq).1

theorem Inv.below {frame : Frame} (h : Inv tasks s (frame :: stack)) (runs : s.Runs)
    (ledger : Ledger s (heldBy s stack)) : Inv tasks s stack where
  tasks := h.tasks
  ledger := ledger
  owned a mem := h.owned a (List.mem_cons_of_mem _ mem)
  launchers unfinished a call next mem :=
    h.launchers unfinished a call next (List.mem_cons_of_mem _ mem)
  aborting unfinished aborted := by
    rcases runs with finished | running
    · rw [finished] at unfinished
      cases unfinished
    · simp [running] at aborted

theorem Inv.closed {x : Settlement T} {frame : Frame} (h : Inv tasks s (frame :: stack))
    (closes : Closes s t x) (ledger : Ledger t (heldBy s stack)) : Inv tasks t stack where
  tasks := closes.tasks.trans h.tasks
  ledger := by
    rwa [heldBy_of_grows closes.grows fun a mem => h.owned a (List.mem_cons_of_mem _ mem)]
  owned a mem := by
    obtain ⟨i, hi⟩ := h.owned a (List.mem_cons_of_mem _ mem)
    exact ⟨i, closes.grows.owner a i hi⟩
  launchers := by simp [closes.finished]
  aborting := by simp [closes.finished]

theorem Inv.batchAbort (h : Inv tasks s stack) (reason : AbortReason) :
    Keeps tasks (resume stack (s.batchAbortListener reason)) ∧
      Grows s (s.batchAbortListener reason).1 := by
  obtain ⟨ledger, grows⟩ := h.ledger.abortAttempts (fun _ => true) reason
  have more : Grows s (s.batchAbortListener reason).1 :=
    { grows with aborted := fun _ => by simp [batchAbortListener, abortAttempts] }
  refine ⟨?_, more⟩
  exact
    { tasks := h.tasks
      ledger := by
        have same : heldBy (s.batchAbortListener reason).1 stack = heldBy s stack :=
          heldBy_of_grows more h.owned
        show Ledger (s.batchAbortListener reason).1 (heldBy (s.batchAbortListener reason).1 stack)
        rw [same]
        exact { ledger with }
      owned := by
        intro a mem
        obtain ⟨i, hi⟩ := h.owned a (by simpa [resume, batchAbortListener] using mem)
        exact ⟨i, more.owner a i hi⟩
      launchers := by
        intro unfinished a call next mem
        exact h.launchers unfinished a call next (by simpa [resume, batchAbortListener] using mem)
      aborting := fun _ _ => ⟨reason, stack, rfl⟩ }

/-! ### One step -/

theorem resume_batch (r : SubagentBatch T × Exit) : (resume stack r).batch = r.1 := by
  obtain ⟨t, exit⟩ := r
  cases exit <;> rfl

theorem grows_resume {r : SubagentBatch T × Exit} (grows : Grows s r.1) :
    Grows s (resume stack r).batch := by
  rwa [resume_batch]

theorem Inv.run (h : Inv tasks s stack) : Keeps tasks (resume stack (s.run now)) ∧
    Grows s (s.run now).1 := by
  have same : SameCore s { s with started := true } := ⟨rfl, rfl, rfl, rfl, rfl, rfl, rfl, rfl⟩
  have started := h.change (h.ledger.congr same) same.grows same.keepsActive same.abortReason
  unfold SubagentBatch.run
  dsimp only
  split
  case isTrue empty =>
    by_cases unfinished : s.finished = false
    · have closes := closes_finish (s := { s with started := true }) unfinished []
      have ledger := started.ledger.close closes unfinished (by
        rintro _ ⟨⟩
        exact started.ledger.answers_nil empty)
      refine ⟨started.change ledger closes.grows closes.keepsActive closes.abortReason, ?_⟩
      exact same.grows.trans closes.grows
    · have eq : ({ s with started := true } : SubagentBatch T).finish [] =
          { s with started := true } := by
        simp [SubagentBatch.finish, unfinished]
      rw [eq]
      exact ⟨started, same.grows⟩
  case isFalse =>
    split
    case h_1 reason _ =>
      obtain ⟨inv, grows⟩ := started.batchAbort reason
      exact ⟨inv, same.grows.trans grows⟩
    case h_2 =>
      have listening : SameCore ({ s with started := true } : SubagentBatch T)
          { s with started := true, listening := s.batchSignal.isSome } :=
        ⟨rfl, rfl, rfl, rfl, rfl, rfl, rfl, rfl⟩
      have served := (schedule_served now (started.ledger.congr listening)).after_same
        listening
      exact ⟨started.serve served, same.grows.trans served.grows⟩

theorem Inv.returned {createTimeout : ℕ → Time} {frame : Frame} (h : Inv tasks s (frame :: stack)) :
    Keeps tasks (resume stack (returned createTimeout s now later frame)) ∧
      Grows s (BatchMachine.returned createTimeout s now later frame).1 := by
  cases frame with
  | launcher a call next =>
    have runs := h.pop (by simp)
    have below : Inv tasks s stack := h.below runs h.ledger
    have served := afterStart_served later below.ledger runs next
    exact ⟨below.serve served, served.grows⟩
  | suspended a =>
    obtain ⟨i, hi⟩ := h.owned a (List.mem_cons_self ..)
    obtain ⟨attempt, hattempt, rfl⟩ := Option.map_eq_some_iff.1 hi
    have ledger : Ledger s (attempt.state :: heldBy s stack) := by
      simpa [heldBy, hi] using h.ledger
    have runs := h.pop (by simp)
    obtain ⟨queued, grows, keeps, same⟩ :=
      requeueRateLimited_ledger createTimeout now ledger
    have served := (schedule_served later queued).after grows keeps same
    simp only [BatchMachine.returned, hattempt]
    -- the invariant below the frame holds once the task is queued again
    have below : Inv tasks (s.requeueRateLimited createTimeout attempt now) stack :=
      { tasks := grows.tasks.trans h.tasks
        ledger := by
          rwa [heldBy_of_grows grows fun b mem => h.owned b (List.mem_cons_of_mem _ mem)]
        owned := fun b mem => by
          obtain ⟨j, hj⟩ := h.owned b (List.mem_cons_of_mem _ mem)
          exact ⟨j, grows.owner b j hj⟩
        launchers := fun unfinished b call next mem => by
          refine keeps unfinished b (h.launchers ?_ b call next (List.mem_cons_of_mem _ mem))
          by_contra finished
          rw [grows.finished (by simpa using finished)] at unfinished
          cases unfinished
        aborting := fun unfinished aborted => by
          rw [same] at aborted
          rcases runs with finished | running
          · rw [grows.finished finished] at unfinished
            cases unfinished
          · simp [running] at aborted }
    refine ⟨below.serve ?_, served.grows⟩
    rw [heldBy_of_grows grows fun b mem => h.owned b (List.mem_cons_of_mem _ mem)]
    exact schedule_served later queued
  | batchAbort reason =>
    have ledger : Ledger s (heldBy s stack) := h.ledger
    by_cases unfinished : s.finished = false
    · by_cases user : isUserCancellation reason = true
      · have eq : s.finishWithUserCancellation =
            s.finish (s.tasks.mapIdx fun i task => s.cancelledResult i task) := by
          simp [SubagentBatch.finishWithUserCancellation, unfinished]
        have closes := closes_finish unfinished
          (s.tasks.mapIdx fun i task => s.cancelledResult i task)
        simp only [BatchMachine.returned, user, if_true, eq]
        refine ⟨h.closed closes (ledger.close closes unfinished ?_), closes.grows⟩
        rintro _ ⟨⟩
        exact ledger.answers_cancelled
      · have closes := closes_fail unfinished reason
        simp only [BatchMachine.returned, user]
        refine ⟨h.closed closes (ledger.close closes unfinished ?_), closes.grows⟩
        rintro _ ⟨⟩
    · have finished : s.finished = true := by simpa using unfinished
      have eq :
          BatchMachine.returned createTimeout s now later (.batchAbort reason) = (s, .done) := by
        simp [BatchMachine.returned, SubagentBatch.finishWithUserCancellation, SubagentBatch.fail,
          finished]
      rw [eq]
      exact ⟨h.below (.inl finished) ledger, .refl s⟩

variable {m m' : BatchMachine T} {createTimeout : ℕ → Time} {event : BatchEvent}

theorem lookup_eq_some {a : ℕ} {attempt : ActiveAttempt T} {task : QueuedSubagentTask T}
    (found : m.lookup a = some (attempt, task)) :
    m.batch.attempts[a]? = some attempt ∧ m.batch.tasks[attempt.state]? = some task := by
  obtain ⟨attempt', hattempt, hmap⟩ := Option.bind_eq_some_iff.1 found
  obtain ⟨task', htask, heq⟩ := Option.map_eq_some_iff.1 hmap
  cases heq
  exact ⟨hattempt, htask⟩

theorem Inv.abort (h : Keeps tasks m) (signal : ℕ) (reason : AbortReason) :
    Keeps tasks (m.abort signal reason) ∧ Grows m.batch (m.abort signal reason).batch := by
  have same : SameCore m.batch
      { m.batch with signals := Function.update m.batch.signals signal (some reason) } :=
    ⟨rfl, rfl, rfl, rfl, rfl, rfl, rfl, rfl⟩
  have set := h.change (h.ledger.congr same) same.grows same.keepsActive same.abortReason
  unfold BatchMachine.abort
  dsimp only
  split
  case isTrue => exact ⟨h, .refl _⟩
  case isFalse =>
    split
    case isTrue =>
      obtain ⟨inv, grows⟩ := set.batchAbort reason
      exact ⟨inv, same.grows.trans grows⟩
    case isFalse =>
      obtain ⟨ledger, grows⟩ := set.ledger.abortAttempts (fun i =>
        ({ m.batch with signals := Function.update m.batch.signals signal (some reason) } :
          SubagentBatch T).taskSignal i = some signal) reason
      exact ⟨set.change ledger grows (fun _ _ mem => mem) rfl, same.grows.trans grows⟩

theorem Inv.launched (h : Inv tasks s []) {a : ℕ} {attempt : ActiveAttempt T}
    {task : QueuedSubagentTask T} (hattempt : s.attempts[a]? = some attempt)
    (htask : s.tasks[attempt.state]? = some task) (result : LaunchResult) :
    Inv tasks (launched s a attempt task result) [] ∧
      Grows s (launched s a attempt task result) := by
  cases result with
  | handle agentId =>
    have same := same_setState (s := s) attempt.state fun state =>
      { state with agentId := some agentId }
    obtain ⟨ledger, grows⟩ := (h.ledger.congr same).modifyAttempt a
      (fun attempt => { attempt with phase := .running agentId }) (fun _ => rfl) (by simp)
    exact ⟨(h.change (h.ledger.congr same) same.grows same.keepsActive same.abortReason).change
      ledger grows (fun _ _ mem => mem) rfl, same.grows.trans grows⟩
  | failed error =>
    obtain ⟨ledger, grows⟩ := h.ledger.modifyAttempt a
      (fun attempt' => { attempt' with
        phase := .resolved (.result (s.failedAttemptOutcome attempt task error)) })
      (fun _ => rfl) (by
        intro attempt' hattempt' r phase
        cases hattempt.symm.trans hattempt'
        obtain rfl : _ = r := by simpa using phase
        exact htask)
    exact ⟨h.change ledger grows (fun _ _ mem => mem) rfl, grows⟩
  | malformed error =>
    obtain ⟨ledger, grows⟩ := h.ledger.modifyAttempt a
      (fun attempt => { attempt with phase := .rejected error }) (fun _ => rfl) (by simp)
    exact ⟨h.change ledger grows (fun _ _ mem => mem) rfl, grows⟩

theorem Inv.completed (h : Inv tasks s []) {a : ℕ} {attempt : ActiveAttempt T}
    {task : QueuedSubagentTask T} (hattempt : s.attempts[a]? = some attempt)
    (htask : s.tasks[attempt.state]? = some task) (agentId : String) (completion : Completion) :
    Inv tasks (completed s a attempt task agentId completion) [] ∧
      Grows s (completed s a attempt task agentId completion) := by
  have resolved (outcome : AttemptOutcome T)
      (own : ∀ r, outcome = .result r → r.task = task) :
      Inv tasks (s.modifyAttempt a fun attempt => { attempt with phase := .resolved outcome }) [] ∧
        Grows s (s.modifyAttempt a fun attempt => { attempt with phase := .resolved outcome }) := by
    obtain ⟨ledger, grows⟩ := h.ledger.modifyAttempt a
      (fun attempt' => { attempt' with phase := .resolved outcome }) (fun _ => rfl) (by
        intro attempt' hattempt' r phase
        cases hattempt.symm.trans hattempt'
        rw [own r (by simpa using phase)]
        exact htask)
    exact ⟨h.change ledger grows (fun _ _ mem => mem) rfl, grows⟩
  refine resolved _ fun r isResult => ?_
  cases completion <;> cases isResult <;> rfl

theorem Inv.deliver (h : Inv tasks m.batch []) {a : ℕ} {attempt : ActiveAttempt T}
    {task : QueuedSubagentTask T} (hattempt : m.batch.attempts[a]? = some attempt)
    (htask : m.batch.tasks[attempt.state]? = some task)
    (next : m.deliver a attempt task now = some m') :
    Keeps tasks m' ∧ Grows m.batch m'.batch := by
  obtain ⟨ledger, grows⟩ := h.ledger.modifyAttempt a
    (fun attempt => { attempt with phase := .delivered }) (fun _ => rfl) (by simp)
  have inv := h.change ledger grows (fun _ _ mem => mem) rfl
  have owned :
      (m.batch.modifyAttempt a fun attempt => { attempt with phase := .delivered }).owner a =
        some attempt.state := grows.owner a _ (by simp [owner, hattempt])
  unfold BatchMachine.deliver at next
  dsimp only at next
  split at next
  case h_1 outcome phase =>
    cases next
    have result : ∀ r, outcome = .result r → r.task = task := by
      rintro r rfl
      have stored := h.ledger.outcomes attempt (List.mem_of_getElem? hattempt) r phase
      exact Option.some.inj (stored.symm.trans htask)
    have handled := handleAttemptOutcome_handled now ledger owned htask result
    exact ⟨inv.handle owned handled, grows.trans (grows_resume handled.grows)⟩
  case h_2 error _ =>
    cases next
    have handled := handleAttemptError_handled now error ledger owned htask
    exact ⟨inv.handle owned handled, grows.trans (grows_resume handled.grows)⟩
  case h_3 => cases next

theorem Inv.step (h : Keeps tasks m) (next : step createTimeout m event = some m') :
    Keeps tasks m' ∧ Grows m.batch m'.batch := by
  cases event with
  | run =>
    unfold BatchMachine.step at next
    dsimp only at next
    split at next
    case isTrue =>
      cases next
      exact ⟨h, .refl _⟩
    case isFalse =>
      cases next
      exact ⟨(Inv.run h).1, grows_resume (Inv.run h).2⟩
  | ready a now later =>
    cases next
    have served := markAttemptReady_served a now later h.ledger
    exact ⟨h.serve served, grows_resume served.grows⟩
  | abort signal reason =>
    cases next
    exact h.abort signal reason
  | «return» now later =>
    unfold BatchMachine.step at next
    dsimp only at next
    cases hstack : m.stack with
    | nil => simp [hstack] at next
    | cons frame stack =>
      rw [hstack] at next
      cases next
      have inv : Inv tasks m.batch (frame :: stack) := hstack ▸ h
      exact ⟨inv.returned.1, grows_resume inv.returned.2⟩
  | timeout a =>
    unfold BatchMachine.step at next
    dsimp only at next
    split at next
    case h_1 attempt task hstack found =>
      split at next
      case isTrue =>
        cases next
        obtain ⟨ledger, grows⟩ := h.ledger.modifyAttempt a
          (fun attempt => { SubagentBatch.ActiveAttempt.abort (.error "Aborted") attempt with
            timedOut := true })
          (fun _ => rfl) fun attempt hattempt r phase =>
            h.ledger.outcomes attempt (List.mem_of_getElem? hattempt) r phase
        exact ⟨h.change ledger grows (fun _ _ mem => mem) rfl, grows⟩
      case isFalse => cases next
    case h_2 => cases next
  | launched a result =>
    unfold BatchMachine.step at next
    dsimp only at next
    split at next
    case h_1 attempt task hstack found =>
      split at next
      case h_1 =>
        cases next
        obtain ⟨hattempt, htask⟩ := lookup_eq_some found
        have inv : Inv tasks m.batch [] := hstack ▸ h
        obtain ⟨kept, grows⟩ := inv.launched hattempt htask result
        exact ⟨by rw [Keeps, hstack]; exact kept, grows⟩
      case h_2 => cases next
    case h_2 => cases next
  | completed a completion =>
    unfold BatchMachine.step at next
    dsimp only at next
    split at next
    case h_1 attempt task hstack found =>
      split at next
      case h_1 agentId _ =>
        cases next
        obtain ⟨hattempt, htask⟩ := lookup_eq_some found
        have inv : Inv tasks m.batch [] := hstack ▸ h
        obtain ⟨kept, grows⟩ := inv.completed hattempt htask agentId completion
        exact ⟨by rw [Keeps, hstack]; exact kept, grows⟩
      case h_2 => cases next
    case h_2 => cases next
  | deliver =>
    unfold BatchMachine.step at next
    dsimp only at next
    split at next
    case h_1 attempt task hstack found =>
      obtain ⟨hattempt, htask⟩ := lookup_eq_some found
      have inv : Inv tasks m.batch [] := hstack ▸ h
      exact inv.deliver hattempt htask next
    case h_2 => cases next
  | timer id now =>
    unfold BatchMachine.step at next
    dsimp only at next
    split at next
    case h_1 timer hstack found =>
      cases next
      have inv : Inv tasks m.batch [] := hstack ▸ h
      have same : SameCore m.batch
          { m.batch with timers := m.batch.timers.filter (·.id ≠ id) } :=
        ⟨rfl, rfl, rfl, rfl, rfl, rfl, rfl, rfl⟩
      have fired := inv.change (inv.ledger.congr same) same.grows same.keepsActive same.abortReason
      have runs := inv.runs
      cases timer.kind with
      | normalLaunch =>
        have served := normalTimerFired_served now fired.ledger runs
        exact ⟨fired.serve served, same.grows.trans (grows_resume served.grows)⟩
      | rateLimitLaunch =>
        have cleared : SameCore { m.batch with timers := m.batch.timers.filter (·.id ≠ id) }
            { m.batch with
              timers := m.batch.timers.filter (·.id ≠ id)
              rateLimitLaunchTimer := none } :=
          ⟨rfl, rfl, rfl, rfl, rfl, rfl, rfl, rfl⟩
        have served := (schedule_served now (fired.ledger.congr cleared)).after_same cleared
        exact ⟨fired.serve served, same.grows.trans (grows_resume served.grows)⟩
    case h_2 => cases next

/-! ### The accounting law -/

theorem inv_init (maxConcurrency : Option ℤ) :
    Keeps tasks (init tasks maxConcurrency) := by
  have count : ∀ i, (List.range tasks.length).count i = if i < tasks.length then 1 else 0 := by
    intro i
    split
    case isTrue lt => exact List.count_eq_one_of_mem List.nodup_range (List.mem_range.2 lt)
    case isFalse ge => exact List.count_eq_zero.2 (by simpa using ge)
  refine ⟨rfl, ?_, by simp [init], by simp [init], by simp [init, SubagentBatch.new]⟩
  constructor
  case once =>
    intro _ i
    simp only [init, SubagentBatch.new, owners, filled, heldBy, List.filterMap_nil, List.count_nil,
      count, List.getElem?_replicate]
    split
    case isTrue lt => simp [lt]
    case isFalse ge => simp [ge]
  case stored =>
    intro i r hr
    simp [init, SubagentBatch.new, List.getElem?_replicate] at hr
  all_goals simp [init, SubagentBatch.new]

/-- What a batch owes to its caller. -/
structure AccountingLaw (createTimeout : ℕ → Time) (tasks : List (QueuedSubagentTask T))
    (m : BatchMachine T) : Prop where
  /-- Between two events every task is queued, or in an active attempt, or has its result. -/
  accounted : m.batch.finished = false → m.stack = [] → ∀ i < tasks.length,
    ExactlyOne (i ∈ m.batch.pending) (i ∈ m.batch.owners) (m.batch.filled i = true)
  /-- While an outside call is under way the same is true of every task, but for the one whose
  rate limit is being reported to `launcher.suspended`. -/
  during : m.batch.finished = false → ∀ i < tasks.length, i ∉ heldBy m.batch m.stack →
    ExactlyOne (i ∈ m.batch.pending) (i ∈ m.batch.owners) (m.batch.filled i = true)
  /-- No task has two live attempts. -/
  single : m.batch.finished = false → ∀ i a b, a ∈ m.batch.active → b ∈ m.batch.active →
    m.batch.owner a = some i → m.batch.owner b = some i → a = b
  /-- No event overwrites a filled slot. -/
  slots : ∀ event m', step createTimeout m event = some m' →
    ∀ (i : ℕ) (r : SubagentResult T), m.batch.results[i]? = some (some r) →
      m'.batch.results[i]? = some (some r)
  /-- The promise settles exactly once, when the batch finishes. -/
  settlesOnce : m.batch.settlements.length = if m.batch.finished then 1 else 0
  /-- It resolves to the results of all tasks in their order, among them every filled slot. -/
  ordered : ∀ results, .resolved results ∈ m.batch.settlements →
    results.map (·.task) = tasks ∧
      ∀ (i : ℕ) (r : SubagentResult T), m.batch.results[i]? = some (some r) → results[i]? = some r

theorem Inv.law (h : Keeps tasks m) : AccountingLaw createTimeout tasks m where
  accounted unfinished idle i lt :=
    h.ledger.exactlyOne unfinished (h.tasks ▸ lt) (by simp [heldBy, idle])
  during unfinished i lt free := h.ledger.exactlyOne unfinished (h.tasks ▸ lt) free
  single unfinished _ _ _ ha hb oa ob := h.ledger.single unfinished ha hb oa ob
  slots _ _ next i r hr := (Inv.step h next).2.stored i r hr
  settlesOnce := by
    cases finished : m.batch.finished with
    | false => simp [h.ledger.unsettled finished]
    | true =>
      obtain ⟨x, eq, _⟩ := h.ledger.settled finished
      simp [eq]
  ordered results mem := by
    cases finished : m.batch.finished with
    | false => simp [h.ledger.unsettled finished] at mem
    | true =>
      obtain ⟨x, eq, answers⟩ := h.ledger.settled finished
      rw [eq, List.mem_singleton] at mem
      obtain ⟨order, slots⟩ := answers results mem.symm
      exact ⟨order.trans h.tasks, slots⟩

/-- Whatever the launcher and the caller do, and whatever the clock reads, every task of the
batch is accounted for. -/
theorem accounting_of_run {maxConcurrency : Option ℤ} {events : List BatchEvent}
    (run : Transition.Run (step createTimeout) Transition.Always (init tasks maxConcurrency)
      events m) : AccountingLaw createTimeout tasks m :=
  Inv.law (run.invariant (Keeps tasks) (inv_init maxConcurrency) fun _ _ _ h _ next =>
    (Inv.step h next).1)

/-- Two tasks without a profile, an agent to resume or a timeout of their own. -/
def twoTasks : List (QueuedSubagentTask ℕ) := [{ data := 0 }, { data := 1 }]

/-- The exponential delays of the retry schedule, without randomisation. -/
def doubling (attempt : ℕ) : Time := ((RATE_LIMIT_RETRY_BASE_MS * 2 ^ attempt : ℕ) : Time)

/-- The first of two spawned attempts hits a rate limit: its task is queued again, the other one
stays with its attempt. -/
theorem accounting_rateLimited :
    ∃ m, Transition.exec (step doubling) (init twoTasks none)
        [.run 0, .return 0 0, .return 0 0, .launched 0 (.handle "a"),
          .completed 0 (.rateLimited "429"), .deliver 0 10, .return 10 10] = some m ∧
      m.batch.pending = [0] ∧ m.batch.owners = [1] ∧ AccountingLaw doubling twoTasks m := by
  have run : Transition.exec (Transition.guarded (step doubling) Transition.Always)
      (init twoTasks none)
      [.run 0, .return 0 0, .return 0 0, .launched 0 (.handle "a"),
        .completed 0 (.rateLimited "429"), .deliver 0 10, .return 10 10] = some _ := rfl
  exact ⟨_, rfl, rfl, rfl, accounting_of_run (.of_exec run)⟩

end BatchMachine

end KimiCli
