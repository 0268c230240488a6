import KimiCli.Prompt.Scheduler

/-!
# Ends of prompts

What becomes of a prompt whose submission was published: it is queued, active, or has ended once.
-/

namespace KimiCli

/-- The event is an end of the prompt. -/
def PromptEvent.endsPrompt (promptId : ℕ) : PromptEvent → Bool
  | .submitted .. => false
  | .completed p _ => p = promptId
  | .aborted p => p = promptId
  | .steered _ promptIds => promptId ∈ promptIds

namespace PromptWorld

variable {w w' : PromptWorld} {p q : ℕ}

/-- How many ends of the prompt were published. -/
def ends (w : PromptWorld) (promptId : ℕ) : ℕ := w.published.countP (·.endsPrompt promptId)

/-- The submission of the prompt was published. -/
def Submitted (w : PromptWorld) (promptId : ℕ) : Prop :=
  ∃ status, .submitted promptId status ∈ w.published

/-- The calls of `abort` for the prompt that wait for their cancellation. -/
def aborts (w : PromptWorld) (promptId : ℕ) : ℕ := w.aborting.countP (·.promptId = promptId)

/-- The prompt is in the queue once, or active, or has ended, and it ends at most once. -/
def Accounted (w : PromptWorld) (promptId : ℕ) : Prop :=
  w.queued.count promptId ≤ 1 ∧ w.ends promptId ≤ 1 ∧
    (w.queued.count promptId = 1 ∨ w.active = some promptId ∨ w.ends promptId = 1)

/-- Beyond what keeps the queue in order: the `core.prompt` of a start does not reject, no prompt
is steered, and when the end of the active prompt's turn is delivered, no abort of the prompt waits
for its cancellation and the next prompt in the queue has no runtime controls. -/
def Undisturbed (w : PromptWorld) : PromptStep → Prop
  | .promptRejects _ | .steer _ => False
  | .deliver => ∀ promptId ∈ w.active, ∀ event ∈ w.core.outbox.head?, ∀ turn ∈ event.ends,
      (w.entry promptId).turnId = some turn →
        w.aborts promptId = 0 ∧ ∀ next ∈ w.queued.head?, (w.entry next).hasOverride = false
  | label => w.Orderly label

variable {label : PromptStep} {state : PromptState} {labels : List PromptStep}

theorem Undisturbed.orderly (undisturbed : w.Undisturbed label) :
    w.Orderly label := by
  cases label with
  | promptRejects => exact undisturbed.elim
  | steer => trivial
  | deliver => trivial
  | _ => exact undisturbed

/-! ## The books -/

/-- What was published of each prompt. -/
structure Books (w : PromptWorld) : Prop where
  steering : w.steering = []
  queued : ∀ p ∈ w.queued, w.ends p = 0 ∧ (w.entry p).aborted = false
  starting : ∀ start ∈ w.starting, start.caller = .submit ∧ ¬ w.Submitted start.promptId ∧
    w.ends start.promptId = 0 ∧ (w.entry start.promptId).aborted = false
  active : ∀ p, w.active = some p →
    w.ends p + w.aborts p = if (w.entry p).aborted then 1 else 0
  aborting : ∀ call ∈ w.aborting, w.active = some call.promptId
  submitted : ∀ p, w.Submitted p → p ∈ w.queued ∨ w.active = some p ∨ w.ends p = 1
  fresh : ∀ p, w.created ≤ p → ¬ w.Submitted p ∧ w.ends p = 0

theorem ends_publish (event : PromptEvent) :
    (w.publish event).ends p = w.ends p + if event.endsPrompt p then 1 else 0 := by
  rw [ends, publish, List.countP_append, List.countP_singleton]
  rfl

theorem submitted_publish {event : PromptEvent} (plain : ∀ status, event ≠ .submitted p status) :
    (w.publish event).Submitted p ↔ w.Submitted p := by
  refine exists_congr fun status => ?_
  rw [publish, List.mem_append, List.mem_singleton]
  exact or_iff_left fun same => plain status same.symm

theorem Books.callPrompt {start : Start} {queue : List ℕ} {starts started : List Start}
    (books : w.Books) (none : w.active = none) (known : start.promptId < w.created)
    (unended : w.ends start.promptId = 0) (unaborted : (w.entry start.promptId).aborted = false)
    (fewer : ∀ p ∈ queue, p ∈ w.queued) (left : ∀ p ∈ w.queued, p ∈ queue ∨ p = start.promptId)
    (rest : ∀ other ∈ starts, other ∈ w.starting ∧ other.promptId ≠ start.promptId) :
    (({ w with queued := queue, starting := starts, started } : PromptWorld).callPrompt
      start).Books := by
  let w' := ({ w with queued := queue, starting := starts, started } : PromptWorld).callPrompt start
  have ends (p : ℕ) : w'.ends p = w.ends p := by
    change List.countP _ (w.published ++ _) = List.countP _ w.published
    rw [List.countP_append]
    split <;> rfl
  have submitted {p : ℕ} (yes : w'.Submitted p) : w.Submitted p ∨ p = start.promptId := by
    obtain ⟨status, mem⟩ := yes
    rcases List.mem_append.1 mem with old | new
    · exact .inl ⟨status, old⟩
    · split at new
      · cases List.mem_singleton.1 new
        exact .inr rfl
      · cases new
  have noAborts : w.aborting = [] := by
    refine List.eq_nil_iff_forall_not_mem.2 fun call mem => ?_
    have active := books.aborting call mem
    rw [none] at active
    cases active
  refine ⟨books.steering, fun p mem => ?_, fun other mem => ?_, fun p active => ?_,
    fun call mem => ?_, fun p yes => ?_, fun p le => ?_⟩
  · rw [ends]
    exact books.queued p (fewer p mem)
  · obtain ⟨old, differs⟩ := rest other mem
    obtain ⟨caller, unsubmitted, others⟩ := books.starting other old
    rw [ends]
    exact ⟨caller, fun yes => (submitted yes).elim unsubmitted differs, others⟩
  · cases active
    have aborts : w'.aborts start.promptId = 0 := by
      change List.countP _ w.aborting = 0
      rw [noAborts]
      rfl
    rw [ends, aborts, unended]
    exact (if_neg (by rw [show w'.entry = w.entry from rfl, unaborted]; decide)).symm
  · rw [show w'.aborting = w.aborting from rfl, noAborts] at mem
    cases mem
  · rw [ends]
    rcases submitted yes with old | rfl
    · rcases books.submitted p old with queued | active | ended
      · exact (left p queued).imp id fun same => .inl (congrArg some same.symm)
      · rw [none] at active
        cases active
      · exact .inr (.inr ended)
    · exact .inr (.inl rfl)
  · rw [ends]
    obtain ⟨unsubmitted, unended'⟩ := books.fresh p le
    refine ⟨fun yes => (submitted yes).elim unsubmitted fun same => ?_, unended'⟩
    exact Nat.not_lt.2 le (same ▸ known)

theorem Books.startNextQueued (books : w.Books) (idle : w.Idle)
    (plain : ∀ next ∈ w.queued.head?, (w.entry next).hasOverride = false) :
    w.startNextQueued.Books := by
  have dead : w.activeLive = false := by simp [activeLive, idle.active]
  unfold PromptWorld.startNextQueued
  rw [dead, if_neg Bool.false_ne_true]
  split
  · exact books
  case h_2 next rest queued =>
    have first : next ∈ w.queued := queued ▸ List.mem_cons_self ..
    obtain ⟨unended, unaborted⟩ := books.queued next first
    unfold PromptWorld.startPrompt
    dsimp only
    rw [plain next (by rw [queued]; rfl), if_neg Bool.false_ne_true]
    refine books.callPrompt idle.active (idle.created next first) unended unaborted
      (fun p mem => queued ▸ List.mem_cons_of_mem _ mem) (fun p mem => ?_) fun other mem => ?_
    · rw [queued] at mem
      exact (List.mem_cons.1 mem).symm
    · rw [idle.starting] at mem
      cases mem

theorem Books.map (books : w.Books) (core : TurnFlow) (prompting : List Start) (cancelling : ℕ) :
    ({ w with core, prompting, cancelling } : PromptWorld).Books :=
  { books with }

theorem Running.noStart {start : Start} (run : w.Running p) : start ∉ w.starting := by
  rw [run.starting]
  exact List.not_mem_nil

theorem Books.ended {event : PromptEvent} (books : w.Books) (run : w.Running p)
    (settled : w.aborts p = 0) (pending : (w.entry p).aborted = false)
    (ends : ∀ q, event.endsPrompt q = decide (p = q))
    (plain : ∀ q status, event ≠ .submitted q status) :
    (({ w.setEntry p state with active := none } : PromptWorld).publish event).Books := by
  have noAborts : w.aborting = [] := by
    refine List.eq_nil_iff_forall_not_mem.2 fun call mem => ?_
    have active := books.aborting call mem
    rw [run.active] at active
    refine List.countP_eq_zero.1 settled call mem ?_
    exact decide_eq_true (Option.some.inj active).symm
  have own : w.ends p = 0 := by
    have sum := books.active p run.active
    rw [settled, pending] at sum
    exact sum
  let w' := ({ w.setEntry p state with active := none } : PromptWorld).publish event
  have ends' (q : ℕ) : w'.ends q = w.ends q + if p = q then 1 else 0 := by
    refine (ends_publish event).trans ?_
    rw [ends q]
    simp only [decide_eq_true_eq]
    rfl
  have submitted {q : ℕ} : w'.Submitted q ↔ w.Submitted q := submitted_publish (plain q)
  have other {q : ℕ} (mem : q ∈ w.queued) : q ≠ p := fun same => run.unqueued (same ▸ mem)
  refine ⟨books.steering, fun q mem => ?_, fun start mem => ?_, fun q active => ?_,
    fun call mem => ?_, fun q yes => ?_, fun q le => ?_⟩
  · obtain ⟨unended, plain⟩ := books.queued q mem
    rw [ends', if_neg (other mem).symm, unended]
    exact ⟨rfl, by rwa [show w'.entry q = w.entry q from entry_setEntry_ne (other mem) state]⟩
  · exact absurd mem run.noStart
  · cases active
  · rw [show w'.aborting = w.aborting from rfl, noAborts] at mem
    cases mem
  · rcases books.submitted q (submitted.1 yes) with queued | active | ended
    · exact .inl queued
    · cases run.active.symm.trans active
      exact .inr (.inr (by rw [ends', if_pos rfl, own]))
    · have differs : p ≠ q := by
        rintro rfl
        rw [own] at ended
        cases ended
      exact .inr (.inr (by rw [ends', if_neg differs, ended]))
  · obtain ⟨unsubmitted, unended⟩ := books.fresh q le
    refine ⟨fun yes => unsubmitted (submitted.1 yes), ?_⟩
    rw [ends', if_neg (Nat.ne_of_lt (Nat.lt_of_lt_of_le run.known le)), unended]

theorem Books.endedAborted (books : w.Books) (active : w.active = some p)
    (settled : w.aborts p = 0) (aborted : (w.entry p).aborted = true) :
    ({ w with active := none } : PromptWorld).Books := by
  have own : w.ends p = 1 := by
    have sum := books.active p active
    rw [settled, aborted] at sum
    exact sum
  refine { books with
    active := fun q active => nomatch active
    aborting := fun call mem => ?_
    submitted := fun q yes => ?_ }
  · have same := active.symm.trans (books.aborting call mem)
    refine absurd settled (Nat.ne_of_gt (List.countP_pos_iff.2 ⟨call, mem, ?_⟩))
    exact decide_eq_true (Option.some.inj same).symm
  · rcases books.submitted q yes with queued | active' | ended
    · exact .inl queued
    · cases active.symm.trans active'
      exact .inr (.inr own)
    · exact .inr (.inr ended)

theorem Books.setEntry (books : w.Books) (aborted : state.aborted = (w.entry p).aborted) :
    (w.setEntry p state).Books := by
  have flag (q : ℕ) : ((w.setEntry p state).entry q).aborted = (w.entry q).aborted := by
    by_cases same : q = p
    · subst same
      rwa [entry_setEntry]
    · rw [entry_setEntry_ne same]
  refine { books with
    queued := fun q mem => ?_
    starting := fun start mem => ?_
    active := fun q active => ?_ }
  · rw [flag]
    exact books.queued q mem
  · rw [flag]
    exact books.starting start mem
  · rw [flag]
    exact books.active q active

theorem Books.deliver (books : w.Books) (inv : w.Inv) (undisturbed : w.Undisturbed .deliver)
    (next : w.step .deliver = some w') : w'.Books := by
  simp only [step] at next
  split at next
  · cases next
  case h_2 event rest outbox =>
  cases next
  have books' : ({ w with core := { w.core with outbox := rest } } : PromptWorld).Books :=
    { books with }
  unfold handleBusEvent
  split
  case h_1 => exact books'
  case h_2 p active =>
    have run := inv.running active
    cases event with
    | started => exact books'.setEntry rfl
    | ended turn reason =>
      dsimp only
      split
      case isTrue => exact books'
      case isFalse own =>
        have own := not_not.1 own
        obtain ⟨settled, plain⟩ :=
          undisturbed p active (.ended turn reason) (by rw [outbox]; rfl) turn rfl own
        have plain' (state : PromptState) : ∀ next ∈ w.queued.head?,
            ((w.setEntry p state).entry next).hasOverride = false := by
          intro next head
          have ne : next ≠ p := fun same => run.unqueued (same ▸ List.mem_of_mem_head? head)
          rw [entry_setEntry_ne ne]
          exact plain next head
        split
        case isTrue aborted =>
          have idle := run.ended outbox own (rfl : (w.entry p).turnId = _)
          rw [PromptWorld.setEntry, Function.update_eq_self] at idle
          exact (books'.endedAborted active settled aborted).startNextQueued idle plain
        case isFalse pending =>
        have pending := Bool.eq_false_iff.2 pending
        split
        · refine (Books.map (books.ended run settled pending ?_ ?_) _ _ _).startNextQueued
            ((run.ended outbox own ?_).publish ?_) (plain' _)
          · exact fun q => rfl
          · exact fun q status no => by cases no
          · rfl
          · rfl
        · refine (Books.map (books.ended run settled pending ?_ ?_) _ _ _).startNextQueued
            ((run.ended outbox own ?_).publish ?_) (plain' _)
          · exact fun q => rfl
          · exact fun q status no => by cases no
          · rfl
          · rfl

/-! ## Steps -/

theorem Books.create (books : w.Books) (inv : w.Inv) (hasOverride : Bool) :
    (({ w with created := w.created + 1 } : PromptWorld).setEntry w.created
      { hasOverride }).Books := by
  have known {q : ℕ} (mem : q ∈ w.queued ∨ (∃ start ∈ w.starting, start.promptId = q) ∨
      w.active = some q) : q ≠ w.created := by
    refine Nat.ne_of_lt ?_
    rcases mem with queued | ⟨start, mem, rfl⟩ | active
    · exact inv.queue.created q queued
    · obtain ⟨i, found⟩ := List.getElem?_of_mem mem
      exact (inv.starting found).2.1.known
    · exact (inv.running active).known
  refine { books with
    queued := fun q mem => ?_
    starting := fun start mem => ?_
    active := fun q active => ?_
    fresh := fun q le => books.fresh q (Nat.le_of_succ_le le) }
  · rw [entry_setEntry_ne (known (.inl mem))]
    exact books.queued q mem
  · rw [entry_setEntry_ne (known (.inr (.inl ⟨start, mem, rfl⟩)))]
    exact books.starting start mem
  · rw [entry_setEntry_ne (known (.inr (.inr active)))]
    exact books.active q active

theorem Books.submit {hasOverride : Bool} (books : w.Books) (inv : w.Inv)
    (undisturbed : w.Undisturbed (.submit hasOverride)) : (w.submit hasOverride).Books := by
  let w' := ({ w with created := w.created + 1 } : PromptWorld).setEntry w.created { hasOverride }
  have books' : w'.Books := books.create inv hasOverride
  have entry : w'.entry w.created = { hasOverride } := entry_setEntry _
  obtain ⟨unsubmitted, unended⟩ := books.fresh w.created (Nat.le_refl _)
  rcases inv with ⟨idle, empty⟩ | waiting | ⟨p, run⟩
  · have dead : w'.activeLive = false := by
      have none : w'.active = none := idle.active
      simp [activeLive, none]
    have starting : w'.starting = [] := idle.starting
    have result : (w'.startPrompt { promptId := w.created, caller := .submit }).Books := by
      unfold PromptWorld.startPrompt
      dsimp only
      split
      · refine { books' with starting := fun start mem => ?_ }
        rw [starting] at mem
        obtain rfl := List.mem_singleton.1 mem
        exact ⟨rfl, unsubmitted, unended, congrArg PromptState.aborted entry⟩
      · refine books'.callPrompt idle.active (Nat.lt_succ_self _) unended
          (congrArg PromptState.aborted entry) (fun _ mem => mem) (fun _ mem => .inl mem) ?_
        intro other mem
        rw [starting] at mem
        cases mem
    unfold PromptWorld.submit
    dsimp only
    rw [dead, if_neg Bool.false_ne_true]
    exact result
  · obtain ⟨start, starting, -⟩ := waiting.starting
    have none := (undisturbed.2 waiting.active).1
    rw [starting] at none
    cases none
  · have entry' : w'.entry p = w.entry p := entry_setEntry_ne (Nat.ne_of_lt run.known) _
    have live : w'.activeLive = true := by
      have active : w'.active = some p := run.active
      simp [activeLive, active, entry', run.running, undisturbed.1 p run.active]
    let w'' := ({ w' with queued := w'.queued ++ [w.created] } : PromptWorld).publish
      (.submitted w.created .queued)
    have ends (q : ℕ) : w''.ends q = w.ends q := (ends_publish _).trans (Nat.add_zero _)
    have submitted {q : ℕ} (yes : w''.Submitted q) : w.Submitted q ∨ q = w.created := by
      obtain ⟨status, mem⟩ := yes
      rcases List.mem_append.1 mem with old | new
      · exact .inl ⟨status, old⟩
      · cases List.mem_singleton.1 new
        exact .inr rfl
    unfold PromptWorld.submit
    dsimp only
    rw [live, if_pos rfl]
    refine { books' with
      queued := fun q mem => ?_
      starting := fun start mem => ?_
      active := fun q active => ?_
      submitted := fun q yes => ?_
      fresh := fun q le => ?_ }
    · rw [show PromptWorld.ends _ q = w.ends q from ends q]
      rcases List.mem_append.1 mem with old | new
      · exact books'.queued q old
      · obtain rfl := List.mem_singleton.1 new
        exact ⟨unended, congrArg PromptState.aborted entry⟩
    · exact absurd mem run.noStart
    · rw [show PromptWorld.ends _ q = w.ends q from ends q]
      exact books'.active q active
    · rw [show PromptWorld.ends _ q = w.ends q from ends q]
      rcases submitted yes with old | rfl
      · exact (books.submitted q old).imp (fun mem => List.mem_append_left _ mem) id
      · exact .inl (List.mem_append_right _ (List.mem_singleton_self _))
    · rw [show PromptWorld.ends _ q = w.ends q from ends q]
      obtain ⟨unsubmitted', unended'⟩ := books'.fresh q le
      refine ⟨fun yes => (submitted yes).elim unsubmitted' fun same => ?_, unended'⟩
      exact Nat.lt_irrefl _ (same ▸ le)

theorem Books.settersDone {i : ℕ} (books : w.Books) (inv : w.Inv)
    (next : w.step (.settersDone i) = some w') : w'.Books := by
  obtain ⟨start, found, rfl⟩ := Option.map_eq_some_iff.1 next
  obtain ⟨none, able, -, idle⟩ := inv.starting found
  obtain ⟨-, -, unended, unaborted⟩ := books.starting start (List.mem_of_getElem? found)
  refine books.callPrompt idle.active able.known unended unaborted (fun _ mem => mem)
    (fun _ mem => .inl mem) fun other mem => ?_
  rw [none] at mem
  cases mem

theorem Books.settersReject {i : ℕ} (books : w.Books)
    (next : w.step (.settersReject i) = some w') : w'.Books := by
  obtain ⟨start, found, rfl⟩ := Option.map_eq_some_iff.1 next
  obtain ⟨caller, -⟩ := books.starting start (List.mem_of_getElem? found)
  unfold startFailed
  rw [caller]
  exact { books with
    starting := fun other mem => books.starting other (List.mem_of_mem_eraseIdx mem) }

theorem aborts_erase {i : ℕ} {call : Abort} (found : w.aborting[i]? = some call) :
    w.aborts p = (w.aborting.eraseIdx i).countP (·.promptId = p) +
      if call.promptId = p then 1 else 0 := by
  obtain ⟨lt, rfl⟩ := List.getElem?_eq_some_iff.1 found
  have perm : w.aborting.Perm (w.aborting[i] :: w.aborting.eraseIdx i) := by
    rw [List.eraseIdx_eq_take_drop_succ]
    refine (List.Perm.of_eq ?_).trans List.perm_middle
    rw [List.getElem_cons_drop, List.take_append_drop]
  rw [aborts, perm.countP_eq, List.countP_cons]
  simp

theorem Books.abort (books : w.Books) (inv : w.Inv) (next : w.abort p = some w') : w'.Books := by
  unfold PromptWorld.abort at next
  dsimp only at next
  split at next
  case isTrue active =>
    have run := inv.running active
    split at next
    case isTrue => cases next
    case isFalse pending =>
    cases next
    have unaborted : (w.entry p).aborted = false :=
      Bool.eq_false_iff.2 fun yes => pending (by rw [yes, Bool.or_true])
    have other {q : ℕ} (mem : q ∈ w.queued) : q ≠ p := fun same => run.unqueued (same ▸ mem)
    refine { books with
      queued := fun q mem => ?_
      starting := fun start mem => ?_
      active := fun q active' => ?_
      aborting := fun call mem => ?_ }
    · rw [entry_setEntry_ne (other mem)]
      exact books.queued q mem
    · exact absurd mem run.noStart
    · cases active.symm.trans active'
      have sum := books.active p active
      rw [unaborted] at sum
      rw [entry_setEntry]
      change w.ends p + List.countP _ (w.aborting ++ _) = 1
      rw [List.countP_append, ← Nat.add_assoc]
      change w.ends p + w.aborts p + _ = 1
      rw [sum]
      simp
    · rcases List.mem_append.1 mem with old | new
      · exact books.aborting call old
      · obtain rfl := List.mem_singleton.1 new
        exact active
  case isFalse inactive =>
    split at next
    case isFalse => cases next
    case isTrue queued =>
    cases next
    have nodup := inv.queue.nodup
    let w'' := ({ w with queued := w.queued.erase p } : PromptWorld).publish (.aborted p)
    have ends (q : ℕ) : w''.ends q = w.ends q + if p = q then 1 else 0 := by
      refine (ends_publish _).trans ?_
      rw [show PromptEvent.endsPrompt q (.aborted p) = decide (p = q) from rfl]
      simp only [decide_eq_true_eq]
      rfl
    have submitted {q : ℕ} : w''.Submitted q ↔ w.Submitted q :=
      submitted_publish fun status no => nomatch no
    refine { books with
      queued := fun q mem => ?_
      starting := fun start mem => ?_
      active := fun q active => ?_
      submitted := fun q yes => ?_
      fresh := fun q le => ?_ }
    · obtain ⟨ne, old⟩ := nodup.mem_erase_iff.1 mem
      rw [show PromptWorld.ends _ q = _ from ends q, if_neg ne.symm]
      exact books.queued q old
    · obtain ⟨caller, unsubmitted, unended, unaborted⟩ := books.starting start mem
      have ne : p ≠ start.promptId := by
        obtain ⟨i, found⟩ := List.getElem?_of_mem mem
        exact fun same => (inv.starting found).2.1.unqueued (same ▸ queued)
      rw [show PromptWorld.ends _ _ = _ from ends start.promptId, if_neg ne]
      exact ⟨caller, fun yes => unsubmitted (submitted.1 yes), unended, unaborted⟩
    · have ne : p ≠ q := fun same => inactive (same ▸ active)
      rw [show PromptWorld.ends _ q = _ from ends q, if_neg ne]
      exact books.active q active
    · rw [show PromptWorld.ends _ q = _ from ends q]
      by_cases same : p = q
      · subst same
        rw [if_pos rfl, (books.queued p queued).1]
        exact .inr (.inr rfl)
      · rw [if_neg same]
        exact (books.submitted q (submitted.1 yes)).imp
          (fun mem => (List.mem_erase_of_ne (Ne.symm same)).2 mem) id
    · have ne : p ≠ q := by
        rintro rfl
        exact Nat.not_lt.2 le (inv.queue.created p queued)
      rw [show PromptWorld.ends _ q = _ from ends q, if_neg ne]
      exact ⟨fun yes => (books.fresh q le).1 (submitted.1 yes), (books.fresh q le).2⟩

theorem Books.cancelHandled {i : ℕ} (books : w.Books)
    (next : w.step (.cancelHandled i) = some w') : w'.Books := by
  simp only [step] at next
  split at next
  case h_2 => cases next
  case h_1 promptId turnId found =>
    cases next
    obtain ⟨lt, at_i⟩ := List.getElem?_eq_some_iff.1 found
    have ids : (w.aborting.set i { promptId, turnId, handled := true }).map (·.promptId) =
        w.aborting.map (·.promptId) := by
      have inside : i < (w.aborting.map (·.promptId)).length := by rwa [List.length_map]
      have same := List.set_getElem_self inside
      rw [List.getElem_map, at_i] at same
      rw [List.map_set]
      exact same
    refine { books with
      active := fun p active => ?_
      aborting := fun call mem => ?_ }
    · rw [← books.active p active]
      refine congrArg (w.ends p + ·) ?_
      have count := congrArg (List.countP (· = p)) ids
      rwa [List.countP_map, List.countP_map] at count
    · obtain ⟨old, mem', same⟩ := List.mem_map.1 (ids ▸ List.mem_map_of_mem mem)
      rw [← same]
      exact books.aborting old mem'

theorem Books.cancelled {i : ℕ} {call : Abort} (books : w.Books)
    (found : w.aborting[i]? = some call) :
    w.active = some call.promptId ∧ (w.entry call.promptId).aborted = true ∧
      w.ends call.promptId = 0 ∧ w.aborting.eraseIdx i = [] := by
  have active := books.aborting call (List.mem_of_getElem? found)
  have sum := books.active _ active
  rw [aborts_erase found, if_pos rfl] at sum
  cases aborted : (w.entry call.promptId).aborted with
  | false => simp [aborted] at sum
  | true =>
    simp only [aborted, if_true] at sum
    refine ⟨active, rfl, by omega, List.eq_nil_iff_forall_not_mem.2 fun other mem => ?_⟩
    have none : (w.aborting.eraseIdx i).countP (·.promptId = call.promptId) = 0 := by omega
    refine List.countP_eq_zero.1 none other mem (decide_eq_true ?_)
    have active' := books.aborting other (List.mem_of_mem_eraseIdx mem)
    exact Option.some.inj (active'.symm.trans active)

theorem Books.cancelResolves {i : ℕ} (books : w.Books) (inv : w.Inv)
    (next : w.step (.cancelResolves i) = some w') : w'.Books := by
  simp only [step] at next
  split at next
  case h_2 => cases next
  case h_1 promptId turnId found =>
    cases next
    obtain ⟨active, aborted, unended, none⟩ := books.cancelled found
    have run := inv.running active
    let w'' := ({ w with aborting := w.aborting.eraseIdx i } : PromptWorld).publish
      (.aborted promptId)
    have ends (q : ℕ) : w''.ends q = w.ends q + if promptId = q then 1 else 0 := by
      refine (ends_publish _).trans ?_
      rw [show PromptEvent.endsPrompt q (.aborted promptId) = decide (promptId = q) from rfl]
      simp only [decide_eq_true_eq]
      rfl
    have submitted {q : ℕ} : w''.Submitted q ↔ w.Submitted q :=
      submitted_publish fun status no => by cases no
    refine ⟨books.steering, fun q mem => ?_, fun start mem => ?_, fun q active' => ?_,
      fun call mem => ?_, fun q yes => ?_, fun q le => ?_⟩
    · have ne : promptId ≠ q := fun same => run.unqueued (same ▸ mem)
      rw [show PromptWorld.ends _ q = _ from ends q, if_neg ne]
      exact books.queued q mem
    · exact absurd mem run.noStart
    · cases active.symm.trans active'
      rw [show PromptWorld.ends _ promptId = _ from ends promptId, if_pos rfl, unended]
      change 0 + 1 + List.countP _ (w.aborting.eraseIdx i) = if (w.entry promptId).aborted then 1
        else 0
      rw [none, aborted]
      rfl
    · rw [show w''.aborting = w.aborting.eraseIdx i from rfl, none] at mem
      cases mem
    · rw [show PromptWorld.ends _ q = _ from ends q]
      rcases books.submitted q (submitted.1 yes) with queued | active' | ended
      · exact .inl queued
      · exact .inr (.inl active')
      · have ne : promptId ≠ q := by
          rintro rfl
          rw [unended] at ended
          cases ended
        rw [if_neg ne]
        exact .inr (.inr ended)
    · have ne : promptId ≠ q := Nat.ne_of_lt (Nat.lt_of_lt_of_le run.known le)
      rw [show PromptWorld.ends _ q = _ from ends q, if_neg ne]
      exact ⟨fun yes => (books.fresh q le).1 (submitted.1 yes), (books.fresh q le).2⟩

theorem Books.cancelRejects {i : ℕ} (books : w.Books) (inv : w.Inv)
    (next : w.step (.cancelRejects i) = some w') : w'.Books := by
  obtain ⟨call, found, rfl⟩ := Option.map_eq_some_iff.1 next
  obtain ⟨active, aborted, unended, none⟩ := books.cancelled found
  have run := inv.running active
  refine { books with
    queued := fun q mem => ?_
    starting := fun start mem => ?_
    active := fun q active' => ?_
    aborting := fun other mem => ?_ }
  · have ne : q ≠ call.promptId := fun same => run.unqueued (same ▸ mem)
    rw [entry_setEntry_ne ne]
    exact books.queued q mem
  · exact absurd mem run.noStart
  · cases active.symm.trans active'
    rw [entry_setEntry]
    change w.ends call.promptId + List.countP _ (w.aborting.eraseIdx i) = 0
    rw [unended, none]
    rfl
  · have left : other ∈ w.aborting.eraseIdx i := mem
    rw [none] at left
    cases left

theorem Books.noSteer {i : ℕ} (books : w.Books) : w.steering[i]? = none := by
  rw [books.steering]
  rfl

theorem step_books (books : w.Books) (inv : w.Inv) (undisturbed : w.Undisturbed label)
    (next : w.step label = some w') : w'.Books := by
  cases label with
  | submit => exact Option.some.inj next ▸ books.submit inv undisturbed
  | settersDone => exact books.settersDone inv next
  | settersReject => exact books.settersReject next
  | promptHandled =>
    obtain ⟨start, -, rfl⟩ := Option.map_eq_some_iff.1 next
    exact books.map _ _ _
  | promptRejects | steer => exact undisturbed.elim
  | abort => exact books.abort inv next
  | cancelHandled => exact books.cancelHandled next
  | cancelResolves => exact books.cancelResolves inv next
  | cancelRejects => exact books.cancelRejects inv next
  | abortBySession =>
    simp only [step, PromptWorld.abortBySession] at next
    split at next
    · split at next
      · exact books.abort inv next
      · exact Option.some.inj next ▸ books.map _ _ _
    · exact Option.some.inj next ▸ books.map _ _ _
  | sessionCancelHandled =>
    simp only [step] at next
    split at next
    · cases next
    · exact Option.some.inj next ▸ books.map _ _ _
  | steerHandled | steerResolves | steerRejects => simp [step, books.noSteer] at next
  | ownTurn | endTurn =>
    simp only [step] at next
    split at next
    case isTrue => exact Option.some.inj next ▸ books.map _ _ _
    case isFalse => cases next
  | deliver => exact books.deliver inv undisturbed next

abbrev UndisturbedRun : List PromptStep → PromptWorld → Prop :=
  Transition.Run step Undisturbed {}

theorem UndisturbedRun.inv (run : UndisturbedRun labels w) : w.Inv :=
  inv_run (run.mono fun _ _ => Undisturbed.orderly)

theorem UndisturbedRun.books (run : UndisturbedRun labels w) :
    w.Books := by
  refine (run.invariant (fun w => w.Inv ∧ w.Books) ⟨inv_initial, ?_⟩
    fun w label w' ⟨inv, books⟩ undisturbed next =>
      ⟨step_inv inv undisturbed.orderly next, step_books books inv undisturbed next⟩).2
  constructor <;> simp [Submitted, ends]

theorem Books.accounted (books : w.Books) (inv : w.Inv) (submitted : w.Submitted p) :
    w.Accounted p := by
  have once := List.nodup_iff_count_le_one.1 inv.queue.nodup p
  have ended : w.ends p ≤ 1 := by
    rcases books.submitted p submitted with queued | active | ended
    · exact (books.queued p queued).1 ▸ Nat.zero_le 1
    · have sum := books.active p active
      split at sum <;> omega
    · exact Nat.le_of_eq ended
  refine ⟨once, ended, ?_⟩
  rcases books.submitted p submitted with queued | active | ended
  · exact .inl (List.count_eq_one_of_mem inv.queue.nodup queued)
  · exact .inr (.inl active)
  · exact .inr (.inr ended)

/-! ## Becoming active -/

/-- The active prompt is replaced only if it is completed or aborted, and another one becomes
active only when the agent runs no turn. -/
structure Handover (w w' : PromptWorld) : Prop where
  kept : ∀ p, w.active = some p →
    w'.active = some p ∨ (w'.entry p).completed = true ∨ (w'.entry p).aborted = true
  quiet : ∀ p, w'.active = some p → w.active = some p ∨ w'.core.running = []

theorem Handover.of_same (same : w'.active = w.active) : Handover w w' :=
  ⟨fun _ active => .inl (same.trans active), fun _ active => .inl (same ▸ active)⟩

theorem running_eq_nil {core : TurnFlow} (only : core.PromptsOnly)
    (turns : ∀ turn ∈ core.pending, core.launchedBy turn = none) : core.running = [] :=
  List.eq_nil_iff_forall_not_mem.2 fun turn mem =>
    only.1 turn mem (turns turn (List.mem_append_left _ mem))

theorem startPrompt_frame (start : Start) :
    (w.startPrompt start).core = w.core ∧ (w.startPrompt start).entry = w.entry := by
  unfold PromptWorld.startPrompt PromptWorld.callPrompt
  dsimp only
  split <;> exact ⟨rfl, rfl⟩

theorem startNextQueued_frame :
    w.startNextQueued.core = w.core ∧ w.startNextQueued.entry = w.entry := by
  unfold PromptWorld.startNextQueued
  split
  · exact ⟨rfl, rfl⟩
  · split
    · exact ⟨rfl, rfl⟩
    · exact startPrompt_frame _

theorem Handover.submit {hasOverride : Bool} (inv : w.Inv)
    (undisturbed : w.Undisturbed (.submit hasOverride)) : Handover w (w.submit hasOverride) := by
  let w' := ({ w with created := w.created + 1 } : PromptWorld).setEntry w.created { hasOverride }
  by_cases none : w.active = Option.none
  · obtain ⟨starting, only⟩ := undisturbed.2 none
    have dead : w'.activeLive = false := by
      have none' : w'.active = Option.none := none
      simp [activeLive, none']
    have core : (w'.startPrompt { promptId := w.created, caller := .submit }).core = w.core :=
      (startPrompt_frame _).1
    unfold PromptWorld.submit
    dsimp only
    rw [dead, if_neg Bool.false_ne_true]
    refine ⟨fun p active => absurd (none.symm.trans active) (by simp), fun p _ => .inr ?_⟩
    rw [show PromptWorld.core _ = _ from core]
    rcases inv with ⟨idle, -⟩ | waiting | ⟨q, run⟩
    · exact running_eq_nil only idle.turns
    · exact running_eq_nil only waiting.turns
    · exact absurd (none.symm.trans run.active) (by simp)
  · obtain ⟨p, active⟩ := Option.ne_none_iff_exists'.1 none
    have run := inv.running active
    have live : w'.activeLive = true := by
      have active' : w'.active = some p := active
      have entry' : w'.entry p = w.entry p := entry_setEntry_ne (Nat.ne_of_lt run.known) _
      simp [activeLive, active', entry', run.running, undisturbed.1 p active]
    unfold PromptWorld.submit
    dsimp only
    rw [live, if_pos rfl]
    exact .of_same rfl

theorem Handover.ended {w₀ : PromptWorld} (active : w.active = some p) (entry : w₀.entry p = state)
    (ended : state.completed = true ∨ state.aborted = true) (idle : w₀.Idle)
    (only : w₀.core.PromptsOnly) : Handover w w₀.startNextQueued := by
  obtain ⟨core, entries⟩ := startNextQueued_frame (w := w₀)
  refine ⟨fun q active' => .inr ?_, fun q _ => .inr ?_⟩
  · cases active.symm.trans active'
    rwa [entries, entry]
  · rw [core]
    exact running_eq_nil only idle.turns

theorem Handover.deliver (inv : w.Inv) (next : w.step .deliver = some w') : Handover w w' := by
  simp only [step] at next
  split at next
  · cases next
  case h_2 event rest outbox =>
  cases next
  unfold handleBusEvent
  split
  case h_1 => exact .of_same rfl
  case h_2 p active =>
    have run := inv.running active
    have only := promptsOnly_deliver run.promptsOnly outbox
    cases event with
    | started => exact .of_same rfl
    | ended =>
      dsimp only
      split
      case isTrue => exact .of_same rfl
      case isFalse own =>
        have own := not_not.1 own
        split
        case isTrue aborted =>
          have idle := run.ended outbox own (rfl : (w.entry p).turnId = _)
          rw [PromptWorld.setEntry, Function.update_eq_self] at idle
          exact Handover.ended active rfl (.inr aborted) idle only
        split
        · refine Handover.ended active (entry_setEntry _) (.inr rfl)
            ((run.ended outbox own ?_).publish ?_) only
          · rfl
          · rfl
        · refine Handover.ended active (entry_setEntry _) (.inl rfl)
            ((run.ended outbox own ?_).publish ?_) only
          · rfl
          · rfl

theorem abort_active (next : w.abort p = some w') : w'.active = w.active := by
  unfold PromptWorld.abort at next
  dsimp only at next
  split at next
  · split at next
    · cases next
    · exact Option.some.inj next ▸ rfl
  · split at next
    · exact Option.some.inj next ▸ rfl
    · cases next

theorem step_handover (books : w.Books) (inv : w.Inv) (undisturbed : w.Undisturbed label)
    (next : w.step label = some w') : Handover w w' := by
  cases label with
  | submit => exact Option.some.inj next ▸ Handover.submit inv undisturbed
  | settersDone =>
    obtain ⟨start, found, rfl⟩ := Option.map_eq_some_iff.1 next
    obtain ⟨-, -, only, idle⟩ := inv.starting found
    refine ⟨fun p active => ?_, fun p _ => .inr (running_eq_nil only idle.turns)⟩
    exact absurd (idle.active.symm.trans active) (by simp)
  | settersReject =>
    obtain ⟨start, found, rfl⟩ := Option.map_eq_some_iff.1 next
    obtain ⟨caller, -⟩ := books.starting start (List.mem_of_getElem? found)
    unfold startFailed
    rw [caller]
    exact .of_same rfl
  | promptHandled =>
    obtain ⟨start, -, rfl⟩ := Option.map_eq_some_iff.1 next
    exact .of_same rfl
  | promptRejects | steer => exact undisturbed.elim
  | abort => exact .of_same (abort_active next)
  | cancelHandled | cancelResolves =>
    simp only [step] at next
    split at next
    · exact Option.some.inj next ▸ .of_same rfl
    · cases next
  | cancelRejects =>
    obtain ⟨call, -, rfl⟩ := Option.map_eq_some_iff.1 next
    exact .of_same rfl
  | abortBySession =>
    simp only [step, PromptWorld.abortBySession] at next
    split at next
    · split at next
      · exact .of_same (abort_active next)
      · exact Option.some.inj next ▸ .of_same rfl
    · exact Option.some.inj next ▸ .of_same rfl
  | sessionCancelHandled =>
    simp only [step] at next
    split at next
    · cases next
    · exact Option.some.inj next ▸ .of_same rfl
  | steerHandled | steerResolves | steerRejects => simp [step, books.noSteer] at next
  | ownTurn | endTurn =>
    simp only [step] at next
    split at next
    case isTrue => exact Option.some.inj next ▸ .of_same rfl
    case isFalse => cases next
  | deliver => exact Handover.deliver inv next

/-- In every undisturbed run each prompt that was submitted is accounted for, a prompt knows no
turn but the one that its own `core.prompt` has launched, and the active prompt changes only when
it is over and the agent runs no turn. -/
theorem prompts_end_once (run : UndisturbedRun labels w) :
    (∀ p, w.Submitted p → w.Accounted p) ∧
      (∀ p turn, (w.entry p).turnId = some turn → w.core.launchedBy turn = some p) ∧
      ∀ label w', w.Undisturbed label → w.step label = some w' → Handover w w' :=
  ⟨fun _ => run.books.accounted run.inv, run.inv.queue.turnIds,
    fun _ _ undisturbed next => step_handover run.books run.inv undisturbed next⟩

/-! ## Sample runs -/

instance (w : PromptWorld) : ∀ label, Decidable (w.Undisturbed label)
  | .submit hasOverride => inferInstanceAs (Decidable (w.Orderly (.submit hasOverride)))
  | .promptRejects _ | .steer _ => isFalse id
  | .deliver => inferInstanceAs (Decidable (∀ promptId ∈ w.active,
      ∀ event ∈ w.core.outbox.head?, ∀ turn ∈ event.ends, (w.entry promptId).turnId = some turn →
        w.aborts promptId = 0 ∧ ∀ next ∈ w.queued.head?, (w.entry next).hasOverride = false))
  | .settersDone i => inferInstanceAs (Decidable (w.Orderly (.settersDone i)))
  | .settersReject i => inferInstanceAs (Decidable (w.Orderly (.settersReject i)))
  | .promptHandled i => inferInstanceAs (Decidable (w.Orderly (.promptHandled i)))
  | .abort p => inferInstanceAs (Decidable (w.Orderly (.abort p)))
  | .cancelHandled i => inferInstanceAs (Decidable (w.Orderly (.cancelHandled i)))
  | .cancelResolves i => inferInstanceAs (Decidable (w.Orderly (.cancelResolves i)))
  | .cancelRejects i => inferInstanceAs (Decidable (w.Orderly (.cancelRejects i)))
  | .abortBySession => inferInstanceAs (Decidable (w.Orderly .abortBySession))
  | .sessionCancelHandled => inferInstanceAs (Decidable (w.Orderly .sessionCancelHandled))
  | .steerHandled i => inferInstanceAs (Decidable (w.Orderly (.steerHandled i)))
  | .steerResolves i => inferInstanceAs (Decidable (w.Orderly (.steerResolves i)))
  | .steerRejects i => inferInstanceAs (Decidable (w.Orderly (.steerRejects i)))
  | .ownTurn => inferInstanceAs (Decidable (w.Orderly .ownTurn))
  | .endTurn turn reason => inferInstanceAs (Decidable (w.Orderly (.endTurn turn reason)))

/-- Two prompts are queued behind the first one. One of them is aborted in the queue, the first
one while it runs, and the other one is then started and completes. -/
def threePrompts : List PromptStep :=
  [.submit true, .settersDone 0, .submit true, .submit false, .promptHandled 0, .deliver,
    .abort 1, .abortBySession, .cancelHandled 0, .endTurn 0 .cancelled, .cancelResolves 0, .deliver,
    .promptHandled 0, .deliver, .endTurn 1 .completed]

theorem threePrompts_end_once : ∃ w w', UndisturbedRun threePrompts w ∧
    w.step .deliver = some w' ∧ Handover w w' ∧ w.active = some 2 ∧ w'.active = none ∧
    ∀ p < 3, w.Accounted p := by
  have reached : ((Transition.exec (Transition.guarded step Undisturbed) {} threePrompts).map
      fun w => (w.active, (w.step .deliver).map (·.active), w.published.take 3,
        decide (w.Undisturbed .deliver))) = some (some 2, some none,
        [.submitted 0 .running, .submitted 1 .queued, .submitted 2 .queued], true) := by
    decide +kernel
  obtain ⟨w, exec, eq⟩ := Option.map_eq_some_iff.1 reached
  simp only [Prod.mk.injEq, decide_eq_true_eq] at eq
  obtain ⟨active, after, published, undisturbed⟩ := eq
  obtain ⟨w', next, active'⟩ := Option.map_eq_some_iff.1 after
  obtain ⟨accounted, -, handover⟩ := prompts_end_once (Transition.Run.of_exec exec)
  refine ⟨w, w', Transition.Run.of_exec exec, next, handover _ _ undisturbed next, active, active',
    fun p lt => accounted p ?_⟩
  have mem {event : PromptEvent} (first : event ∈ w.published.take 3) : event ∈ w.published :=
    List.mem_of_mem_take first
  rw [published] at mem
  match p, lt with
  | 0, _ => exact ⟨.running, mem (by simp)⟩
  | 1, _ => exact ⟨.queued, mem (by simp)⟩
  | 2, _ => exact ⟨.queued, mem (by simp)⟩

/-- The second prompt starts while the first one waits for its setters. -/
def lateSetters : List PromptStep := [.submit true, .submit false, .promptHandled 0, .settersDone 0]

/-- The first prompt takes the place of the second one, which is left nowhere. -/
theorem lateSetters_loses : ∃ w, Transition.exec step {} lateSetters = some w ∧
    w.Submitted 1 ∧ ¬ w.Accounted 1 := by
  have reached : ((Transition.exec step {} lateSetters).map fun w =>
      (w.active, w.queued, w.published)) =
        some (some 0, [], [.submitted 1 .running, .submitted 0 .running]) := by
    decide +kernel
  obtain ⟨w, exec, eq⟩ := Option.map_eq_some_iff.1 reached
  simp only [Prod.mk.injEq] at eq
  obtain ⟨active, queued, published⟩ := eq
  refine ⟨w, exec, ⟨.running, by simp [published]⟩, ?_⟩
  rintro ⟨-, -, place⟩
  rw [queued, active, ends, published] at place
  revert place
  decide

end PromptWorld

end KimiCli
