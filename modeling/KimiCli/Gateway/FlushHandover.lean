import KimiCli.Gateway.Journal
import KimiCli.Lib.Run

/-!
# The flush rounds of a session event journal

`append`, `flush` and `readSince` of `services/gateway/sessionEventJournal.ts` interleaved with the
asynchronous steps of `flushOnce`, whose writes succeed.  A call of `readSince` is, as far as the
queue of lines goes, the call of `flush` that it starts with.
-/

namespace KimiCli

/-- A journal, the lines of its file and the calls of `flush` that have not returned. -/
structure JournalRounds (V : Type) where
  file : List (JournalLine V)
  journal : SessionEventJournal V
  /-- The executions of `flushOnce` that have not settled. -/
  executions : ℕ := 0
  /-- The calls that await the current `flushPromise`. -/
  waiting : ℕ := 0
  /-- The calls whose awaited promise has settled, and which have not gone on. -/
  resumed : ℕ := 0
  /-- The lines handed to `append`. -/
  appended : List (JournalLine V) := []

inductive RoundEvent (V : Type)
  | append (seq : ℕ) (envelope : V)
  | flush
  | readSince (fromSeqExclusive limit : ℕ)
  /-- `mkdir` and `appendFile` have succeeded, and `flushOnce` settles. -/
  | written
  /-- The `finally` handler runs. -/
  | finallyFlush
  /-- A call of `flush` goes on behind its `await`. -/
  | resume

/-- A step that no caller makes. -/
def RoundEvent.isInternal {V : Type} : RoundEvent V → Bool
  | .append .. | .flush | .readSince .. => false
  | .written | .finallyFlush | .resume => true

/-- `flushOnce` has not settled. -/
def SessionEventJournal.isWriting {V : Type} (j : SessionEventJournal V) : Bool :=
  match j.flushPromise with
  | some (.writing _) => true
  | _ => false

namespace JournalRounds

open SessionEventJournal Transition

variable {V : Type}

/-- The journal that `open` makes of a file. -/
def opened (file : List (JournalLine V)) (fresh : Epoch) : JournalRounds V :=
  { file, journal := .open file fresh }

/-- The journal becomes one in which an execution of `flushOnce` has started. -/
def started (s : JournalRounds V) (journal : SessionEventJournal V) : JournalRounds V :=
  { s with journal, executions := s.executions + if journal.isWriting then 1 else 0 }

def append (s : JournalRounds V) (seq : ℕ) (envelope : V) : JournalRounds V :=
  let journal := s.journal.append seq envelope
  let appended := s.appended ++ [JournalLine.event seq envelope]
  if s.journal.flushPromise.isSome then { s with journal, appended }
  else { s.started journal with appended }

/-- The loop of `flush`, up to its next `await` or to its end. -/
def flushLoop (s : JournalRounds V) : JournalRounds V :=
  if s.journal.flushed then s
  else
    let begun := if s.journal.flushPromise.isNone then s.started s.journal.flushOnce else s
    { begun with waiting := s.waiting + 1 }

def step (s : JournalRounds V) : RoundEvent V → Option (JournalRounds V)
  | .append seq envelope => some (s.append seq envelope)
  | .flush => some s.flushLoop
  | .readSince _ _ => some s.flushLoop
  | .written =>
    match s.journal.flushPromise with
    | some (.writing lines) =>
      some { s with
        file := s.file ++ lines
        journal := { s.journal with flushPromise := some .settled }
        executions := s.executions - 1 }
    | _ => none
  | .finallyFlush =>
    match s.journal.flushPromise with
    | some .settled =>
      some { s with
        journal := { s.journal with flushPromise := none }
        waiting := 0
        resumed := s.resumed + s.waiting }
    | _ => none
  | .resume =>
    match s.resumed with
    | 0 => none
    | n + 1 => some (flushLoop { s with resumed := n })

/-! ## The lines -/

/-- No flush is in progress: no `flushOnce`, and no call of `flush`. -/
def Idle (s : JournalRounds V) : Prop :=
  s.journal.flushPromise = none ∧ s.waiting = 0 ∧ s.resumed = 0

/-- What the file holds when all is written: behind what it held before, the header of a fresh
journal and the appended lines. -/
def complete (s₀ s : JournalRounds V) : List (JournalLine V) :=
  match s.appended with
  | [] => s₀.file
  | appended =>
    s₀.file ++ (if s₀.journal.headerPending then [.header s₀.journal.epoch] else []) ++ appended

/-- Every line is in the file, being written or pending, and a single `flushOnce` is at work. -/
structure Kept (s₀ s : JournalRounds V) : Prop where
  executions : s.executions = if s.journal.isWriting then 1 else 0
  waiting : s.journal.flushPromise = none → s.waiting = 0
  epoch : s.journal.epoch = s₀.journal.epoch
  header : s.journal.headerPending = (s₀.journal.headerPending && s.appended.isEmpty)
  fresh : s.journal.headerPending = true →
    s.journal.flushPromise = none ∧ s.journal.pendingLines = []
  lines : s.file ++ s.journal.writing ++ s.journal.pendingLines = complete s₀ s

section

variable {s₀ s t : JournalRounds V}

theorem flushOnce_writing {j : SessionEventJournal V} (pending : j.pendingLines ≠ []) :
    j.flushOnce.flushPromise =
      some (.writing ((if j.headerPending then [.header j.epoch] else []) ++ j.pendingLines)) := by
  have some' : ((if j.headerPending then [JournalLine.header j.epoch] else []) ++
      j.pendingLines).length ≠ 0 := by
    simp [pending]
  rw [flushOnce]
  exact if_neg some'

theorem isWriting_flushOnce {j : SessionEventJournal V} (pending : j.pendingLines ≠ []) :
    j.flushOnce.isWriting = true := by
  rw [isWriting, flushOnce_writing pending]

theorem complete_append (header : s.journal.headerPending =
      (s₀.journal.headerPending && s.appended.isEmpty))
    (epoch : s.journal.epoch = s₀.journal.epoch) (seq : ℕ) (envelope : V) :
    complete s₀ (s.append seq envelope) = complete s₀ s ++
      (if s.journal.headerPending then [.header s.journal.epoch] else []) ++
        [.event seq envelope] := by
  have appended : (s.append seq envelope).appended = s.appended ++ [.event seq envelope] := by
    rw [append]
    split <;> rfl
  rw [complete, complete, appended, header, epoch]
  cases s.appended with
  | nil => simp
  | cons => simp

theorem Kept.opened (file : List (JournalLine V)) (fresh : Epoch) :
    Kept (opened file fresh) (opened file fresh) := by
  have none : (SessionEventJournal.open file fresh).flushPromise = none ∧
      (SessionEventJournal.open file fresh).pendingLines = [] := by
    unfold SessionEventJournal.open
    split <;> exact ⟨rfl, rfl⟩
  refine ⟨?_, fun _ => rfl, rfl, (Bool.and_true _).symm, fun _ => none, ?_⟩
  · simp [JournalRounds.opened, isWriting, none.1]
  · simp [JournalRounds.opened, writing, none, complete]

theorem Kept.append (kept : Kept s₀ s) (seq : ℕ) (envelope : V) :
    Kept s₀ (s.append seq envelope) := by
  have complete := complete_append kept.header kept.epoch seq envelope
  rw [← kept.lines] at complete
  by_cases flushing : s.journal.flushPromise.isSome = true
  · have old : s.journal.headerPending = false := by
      by_contra header
      rw [(kept.fresh (by simpa using header)).1] at flushing
      cases flushing
    have eq : s.append seq envelope = { s with
        journal := { s.journal with
          pendingLines := s.journal.pendingLines ++ [.event seq envelope] }
        appended := s.appended ++ [.event seq envelope] } := by
      rw [JournalRounds.append, if_pos flushing, SessionEventJournal.append, scheduleFlush,
        if_pos flushing]
    rw [eq] at complete ⊢
    refine ⟨kept.executions, kept.waiting, kept.epoch, ?_, fun header => ?_, ?_⟩
    · rw [old]
      simp
    · rw [old] at header
      cases header
    · rw [complete, old]
      simp [writing]
  · have none : s.journal.flushPromise = none := by simpa using flushing
    have eq : s.append seq envelope = { s with
        journal := flushOnce
          { s.journal with pendingLines := s.journal.pendingLines ++ [.event seq envelope] }
        executions := s.executions + 1
        appended := s.appended ++ [.event seq envelope] } := by
      rw [JournalRounds.append, if_neg flushing, SessionEventJournal.append, scheduleFlush,
        if_neg flushing, started, isWriting_flushOnce (by simp)]
      rfl
    have executions : s.executions = 0 := by
      rw [kept.executions, isWriting, none]
      rfl
    rw [eq] at complete ⊢
    refine ⟨?_, fun idle => ?_, kept.epoch, ?_, (fun header => by cases header), ?_⟩
    · rw [isWriting_flushOnce (by simp), executions]
      rfl
    · rw [flushOnce_writing (by simp)] at idle
      cases idle
    · simp [flushOnce]
    · rw [complete, writing_flushOnce, writing_of_none none]
      cases header : s.journal.headerPending with
      | true => simp [(kept.fresh header).2, flushOnce]
      | false => simp [flushOnce]

theorem flushLoop_cases (s : JournalRounds V) :
    (s.journal.flushed = true ∧ s.flushLoop = s) ∨
    (s.journal.flushPromise ≠ none ∧ s.flushLoop = { s with waiting := s.waiting + 1 }) ∨
    (s.journal.flushPromise = none ∧ s.journal.pendingLines ≠ [] ∧
      s.flushLoop = { s with
        journal := s.journal.flushOnce
        executions := s.executions + 1
        waiting := s.waiting + 1 }) := by
  rw [flushLoop]
  by_cases flushed : s.journal.flushed = true
  · exact .inl ⟨flushed, if_pos flushed⟩
  rw [if_neg flushed]
  by_cases none : s.journal.flushPromise = none
  · have pending : s.journal.pendingLines ≠ [] := by
      intro pending
      simp [SessionEventJournal.flushed, none, pending] at flushed
    refine .inr (.inr ⟨none, pending, ?_⟩)
    rw [if_pos (by simp [none]), started, isWriting_flushOnce pending]
    rfl
  · exact .inr (.inl ⟨none, by rw [if_neg (by simpa using none)]⟩)

theorem Kept.flushLoop (kept : Kept s₀ s) : Kept s₀ s.flushLoop := by
  rcases flushLoop_cases s with ⟨-, eq⟩ | ⟨flushing, eq⟩ | ⟨none, pending, eq⟩
  · exact eq.symm ▸ kept
  · rw [eq]
    exact { kept with waiting := fun idle => absurd idle flushing }
  · have old : s.journal.headerPending = false := by
      by_contra header
      exact pending (kept.fresh (by simpa using header)).2
    have executions : s.executions = 0 := by
      rw [kept.executions, isWriting, none]
      rfl
    have lines := kept.lines
    rw [eq]
    refine ⟨?_, fun idle => ?_, kept.epoch, ?_, (fun header => nomatch header), ?_⟩
    · rw [isWriting_flushOnce pending, executions]
      rfl
    · rw [flushOnce_writing pending] at idle
      cases idle
    · exact old.symm.trans kept.header
    · rw [writing_of_none none] at lines
      rw [writing_flushOnce, old]
      exact Eq.trans (by simp [flushOnce]) lines

theorem Kept.settled (kept : Kept s₀ s) {lines : List (JournalLine V)}
    (writing : s.journal.flushPromise = some (.writing lines)) :
    Kept s₀ { s with
      file := s.file ++ lines
      journal := { s.journal with flushPromise := some .settled }
      executions := s.executions - 1 } := by
  have all := kept.lines
  rw [SessionEventJournal.writing, writing] at all
  refine ⟨?_, (fun idle => by cases idle), kept.epoch, kept.header, fun header => ?_, ?_⟩
  · simp [kept.executions, isWriting, writing]
  · rw [(kept.fresh header).1] at writing
    cases writing
  · refine Eq.trans ?_ all
    simp [SessionEventJournal.writing]

theorem Kept.finally (kept : Kept s₀ s) (settled : s.journal.flushPromise = some .settled) :
    Kept s₀ { s with
      journal := { s.journal with flushPromise := none }
      waiting := 0
      resumed := s.resumed + s.waiting } := by
  have all := kept.lines
  rw [writing, settled] at all
  refine ⟨?_, fun _ => rfl, kept.epoch, kept.header, fun header => ?_, all⟩
  · rw [kept.executions, isWriting, settled]
    rfl
  · exact ⟨rfl, (kept.fresh header).2⟩

variable {e : RoundEvent V} {more : List (RoundEvent V)}

theorem step_cases (next : step s e = some t) :
    (∃ seq envelope, e = .append seq envelope ∧ t = s.append seq envelope) ∨
    (e.isInternal = false ∧ t = s.flushLoop) ∨
    (e = .written ∧ ∃ lines, s.journal.flushPromise = some (.writing lines) ∧
      t = { s with
        file := s.file ++ lines
        journal := { s.journal with flushPromise := some .settled }
        executions := s.executions - 1 }) ∨
    (e = .finallyFlush ∧ s.journal.flushPromise = some .settled ∧
      t = { s with
        journal := { s.journal with flushPromise := none }
        waiting := 0
        resumed := s.resumed + s.waiting }) ∨
    (e = .resume ∧ ∃ n, s.resumed = n + 1 ∧ t = flushLoop { s with resumed := n }) := by
  cases e with
  | append seq envelope => exact .inl ⟨seq, envelope, rfl, (Option.some.inj next).symm⟩
  | flush | readSince => exact .inr (.inl ⟨rfl, (Option.some.inj next).symm⟩)
  | written =>
    refine .inr (.inr (.inl ⟨rfl, ?_⟩))
    rw [step] at next
    split at next
    next lines writing => exact ⟨lines, writing, (Option.some.inj next).symm⟩
    next => cases next
  | finallyFlush =>
    refine .inr (.inr (.inr (.inl ⟨rfl, ?_⟩)))
    rw [step] at next
    split at next
    next settled => exact ⟨settled, (Option.some.inj next).symm⟩
    next => cases next
  | resume =>
    refine .inr (.inr (.inr (.inr ⟨rfl, ?_⟩)))
    rw [step] at next
    split at next
    next => cases next
    next n resumed => exact ⟨n, resumed, (Option.some.inj next).symm⟩

theorem Kept.next (kept : Kept s₀ s) (next : step s e = some t) :
    Kept s₀ t := by
  rcases step_cases next with ⟨seq, envelope, -, rfl⟩ | ⟨-, rfl⟩ | ⟨-, lines, writing, rfl⟩ |
    ⟨-, settled, rfl⟩ | ⟨-, n, -, rfl⟩
  · exact kept.append seq envelope
  · exact kept.flushLoop
  · exact kept.settled writing
  · exact kept.finally settled
  · exact Kept.flushLoop { kept with }

/-! ## Settling -/

/-- The steps that nobody calls. -/
def Internal : JournalRounds V → RoundEvent V → Prop := fun _ e => e.isInternal = true

/-- How far the `flushPromise` is from being cleared. -/
def phase (s : JournalRounds V) : ℕ :=
  match s.journal.flushPromise with
  | none => 0
  | some .settled => 1
  | some (.writing _) => 2

/-- A bound on the internal steps to come: a round for the lines that are pending behind the
current one, each followed by all the calls of `flush`. -/
def remaining (s : JournalRounds V) : ℕ :=
  (3 * (if s.journal.pendingLines.isEmpty then 0 else 1) + s.phase) *
    (s.waiting + s.resumed + 1) + s.resumed

theorem remaining_lt (next : step s e = some t) (internal : e.isInternal = true) :
    t.remaining < s.remaining := by
  rcases step_cases next with ⟨seq, envelope, rfl, -⟩ | ⟨called, -⟩ | ⟨-, lines, writing, rfl⟩ |
    ⟨-, settled, rfl⟩ | ⟨-, n, resumed, rfl⟩
  · cases internal
  · rw [internal] at called
    cases called
  · simp only [remaining, phase, writing]
    refine Nat.add_lt_add_right (Nat.mul_lt_mul_of_pos_right ?_ (by omega)) _
    omega
  · simp only [remaining, phase, settled, Nat.zero_add, Nat.add_zero]
    rw [Nat.add_mul, Nat.add_comm s.waiting]
    omega
  · rcases flushLoop_cases { s with resumed := n } with ⟨flushed, eq⟩ | ⟨-, eq⟩ |
      ⟨none, pending, eq⟩
    · have none : s.journal.flushPromise = Option.none ∧ s.journal.pendingLines = [] := by
        simpa [SessionEventJournal.flushed] using flushed
      rw [eq]
      simp [remaining, phase, none, resumed]
    · have callers : s.waiting + 1 + n = s.waiting + s.resumed := by omega
      rw [eq]
      simp only [remaining, phase, callers]
      omega
    · have callers : s.waiting + 1 + n = s.waiting + s.resumed := by omega
      have some' : s.journal.pendingLines.isEmpty = false := by simpa using pending
      have none' : s.journal.flushPromise = Option.none := none
      rw [eq]
      simp only [remaining, phase, callers, flushOnce_writing pending, some', none']
      simp only [flushOnce, List.isEmpty_nil, if_true, Bool.false_eq_true, if_false]
      omega

theorem length_le_remaining (run : Run step Internal s more t) :
    more.length + t.remaining ≤ s.remaining := by
  induction run with
  | nil => simp
  | @snoc _ _ _ e _ internal next ih =>
    have lt := remaining_lt next internal
    rw [List.length_append, List.length_singleton]
    omega

theorem Kept.idle_of_settled (kept : Kept s₀ s)
    (settled : ∀ e : RoundEvent V, e.isInternal = true → step s e = none) : s.Idle := by
  have noFlush : s.journal.flushPromise = none := by
    cases flushing : s.journal.flushPromise with
    | none => rfl
    | some flush =>
      cases flush with
      | writing =>
        have := settled .written rfl
        simp [step, flushing] at this
      | settled =>
        have := settled .finallyFlush rfl
        simp [step, flushing] at this
  refine ⟨noFlush, kept.waiting noFlush, ?_⟩
  by_contra resumed
  obtain ⟨n, resumed⟩ := Nat.exists_eq_succ_of_ne_zero resumed
  have := settled .resume rfl
  simp [step, resumed] at this

theorem Internal.appended_eq (run : Run step Internal s more t) :
    t.appended = s.appended := by
  refine run.invariant (fun t => t.appended = s.appended) rfl fun u e v ih internal next => ?_
  rcases step_cases next with ⟨seq, envelope, rfl, -⟩ | ⟨called, -⟩ | ⟨-, lines, writing, rfl⟩ |
    ⟨-, settled, rfl⟩ | ⟨-, n, resumed, rfl⟩
  · cases internal
  · exact absurd (called.symm.trans internal) (by decide)
  · exact ih
  · exact ih
  · rcases flushLoop_cases { u with resumed := n } with ⟨-, eq⟩ | ⟨-, eq⟩ | ⟨-, -, eq⟩ <;>
      exact (congrArg JournalRounds.appended eq).trans ih

/-! ## Durability -/

/-- No line stays only in memory. -/
structure Durable (s₀ s : JournalRounds V) : Prop where
  handedOver : s.Idle → s.journal.pendingLines = []
  /-- With no further call the internal steps end, in a file that holds everything. -/
  settles : ∀ more t, Run step Internal s more t → more.length ≤ s.remaining ∧
    ((∀ e : RoundEvent V, e.isInternal = true → step t e = none) → t.file = complete s₀ s)
  single : s.executions ≤ 1

/-- An append during a flush comes while a call of `flush` is there to start the next one. -/
def Awaited (s : JournalRounds V) : RoundEvent V → Prop
  | .append _ _ => s.journal.flushPromise ≠ none → 0 < s.waiting + s.resumed
  | _ => True

/-- Lines are pending only when a call of `flush` has not returned. -/
def Attended (s : JournalRounds V) : Prop :=
  s.journal.pendingLines ≠ [] → 0 < s.waiting + s.resumed

theorem attended_flushLoop (s : JournalRounds V) : s.flushLoop.Attended := by
  rcases flushLoop_cases s with ⟨flushed, eq⟩ | ⟨-, eq⟩ | ⟨-, -, eq⟩
  · intro pending
    rw [eq] at pending
    simp only [SessionEventJournal.flushed, Bool.and_eq_true, List.isEmpty_iff] at flushed
    exact absurd flushed.2 pending
  · intro _
    rw [eq]
    exact Nat.add_pos_left (Nat.succ_pos _) _
  · intro _
    rw [eq]
    exact Nat.add_pos_left (Nat.succ_pos _) _

theorem attended_append {seq : ℕ} {envelope : V}
    (awaited : s.Awaited (.append seq envelope)) : (s.append seq envelope).Attended := by
  rw [JournalRounds.append]
  by_cases flushing : s.journal.flushPromise.isSome = true
  · rw [if_pos flushing]
    exact fun _ => awaited fun none => by simp [none] at flushing
  · rw [if_neg flushing, SessionEventJournal.append, scheduleFlush, if_neg flushing]
    exact fun pending => absurd rfl pending

theorem Attended.next (attended : s.Attended) (awaited : s.Awaited e) (next : step s e = some t) :
    t.Attended := by
  rcases step_cases next with ⟨seq, envelope, rfl, rfl⟩ | ⟨-, rfl⟩ | ⟨-, lines, writing, rfl⟩ |
    ⟨-, settled, rfl⟩ | ⟨-, n, resumed, rfl⟩
  · exact attended_append awaited
  · exact attended_flushLoop s
  · exact attended
  · intro pending
    have := attended pending
    show 0 < 0 + (s.resumed + s.waiting)
    omega
  · exact attended_flushLoop _

theorem Kept.run {events : List (RoundEvent V)} {ok : JournalRounds V → RoundEvent V → Prop}
    (kept : Kept s₀ s) (run : Run step ok s events t) : Kept s₀ t :=
  run.invariant (Kept s₀) kept fun _ _ _ kept _ next => kept.next next

theorem Attended.run_internal (attended : s.Attended) (run : Run step Internal s more t) :
    t.Attended := by
  refine run.invariant Attended attended fun u e v ih internal next => ih.next ?_ next
  cases e <;> trivial

theorem Kept.durable (kept : Kept s₀ s) (attended : s.Attended) : Durable s₀ s where
  handedOver idle := by
    by_contra pending
    have callers := attended pending
    rw [idle.2.1, idle.2.2] at callers
    exact absurd callers (by decide)
  settles more t run := by
    refine ⟨by have := length_le_remaining run; omega, fun settled => ?_⟩
    have kept' := kept.run run
    obtain ⟨none, waiting, resumed⟩ := kept'.idle_of_settled settled
    have pending : t.journal.pendingLines = [] := by
      by_contra pending
      have callers := attended.run_internal run pending
      rw [waiting, resumed] at callers
      exact absurd callers (by decide)
    have lines := kept'.lines
    rw [pending, writing_of_none none, List.append_nil, List.append_nil] at lines
    rw [lines, complete, complete, Internal.appended_eq run]
  single := by
    rw [kept.executions]
    split <;> decide

theorem not_durable (kept : Kept s₀ s) (flushing : s.journal.flushPromise ≠ none)
    (pending : s.journal.pendingLines ≠ []) (alone : s.waiting + s.resumed = 0) :
    ¬ Durable s₀ s := by
  intro durable
  have left {t : JournalRounds V} {more : List (RoundEvent V)} (run : Run step Internal s more t)
      (none : t.journal.flushPromise = none)
      (same : t.journal.pendingLines = s.journal.pendingLines) (resumed : t.resumed = 0) :
      False := by
    have file := (durable.settles more t run).2 fun e internal => by
      cases e with
      | written => simp [step, none]
      | finallyFlush => simp [step, none]
      | resume => simp [step, resumed]
      | _ => cases internal
    have lines := (kept.run run).lines
    rw [writing_of_none none, List.append_nil, file, same, complete, complete,
      Internal.appended_eq run] at lines
    exact pending (List.append_right_eq_self.1 lines)
  have resumed : s.resumed + s.waiting = 0 := by omega
  cases promise : s.journal.flushPromise with
  | none => exact flushing promise
  | some flush =>
    cases flush with
    | settled =>
      have cleared : step s .finallyFlush = some { s with
          journal := { s.journal with flushPromise := none }
          waiting := 0
          resumed := s.resumed + s.waiting } := by
        simp only [step, promise]
      exact left (.cons (by rfl) cleared .nil) rfl rfl resumed
    | writing lines =>
      have written : step s .written = some { s with
          file := s.file ++ lines
          journal := { s.journal with flushPromise := some .settled }
          executions := s.executions - 1 } := by
        simp only [step, promise]
      have cleared : step { s with
          file := s.file ++ lines
          journal := { s.journal with flushPromise := some .settled }
          executions := s.executions - 1 } .finallyFlush = some { s with
            file := s.file ++ lines
            journal := { s.journal with flushPromise := none }
            executions := s.executions - 1
            waiting := 0
            resumed := s.resumed + s.waiting } := rfl
      exact left (.cons (by rfl) written (.cons (by rfl) cleared .nil)) rfl rfl resumed

/-- While every append during a flush finds a call of `flush` waiting, no line stays only in memory;
the next step keeps that exactly if it does so too. -/
theorem durable_iff_awaited {file : List (JournalLine V)} {fresh : Epoch}
    {events : List (RoundEvent V)} (run : Run step Awaited (opened file fresh) events s) :
    Durable (opened file fresh) s ∧
      ∀ e t, step s e = some t → (Durable (opened file fresh) t ↔ Awaited s e) := by
  obtain ⟨kept, attended⟩ : Kept (opened file fresh) s ∧ s.Attended := by
    refine run.invariant (fun s => Kept (opened file fresh) s ∧ s.Attended) ⟨.opened _ _, ?_⟩ ?_
    · intro pending
      have none : (SessionEventJournal.open file fresh).pendingLines = [] := by
        unfold SessionEventJournal.open
        split <;> rfl
      exact absurd none pending
    · exact fun s e t inv awaited next => ⟨inv.1.next next, inv.2.next awaited next⟩
  refine ⟨kept.durable attended, fun e t next => ⟨fun durable => ?_, fun awaited =>
    (kept.next next).durable (attended.next awaited next)⟩⟩
  by_contra unawaited
  cases e with
  | append seq envelope =>
    simp only [Awaited, Classical.not_imp, Nat.not_lt, Nat.le_zero] at unawaited
    obtain rfl : s.append seq envelope = t := Option.some.inj next
    have isSome : s.journal.flushPromise.isSome = true :=
      Option.isSome_iff_ne_none.2 unawaited.1
    refine not_durable (kept.append seq envelope) ?_ ?_ ?_ durable <;>
      rw [JournalRounds.append, if_pos isSome]
    · rw [SessionEventJournal.append, scheduleFlush, if_pos isSome]
      exact unawaited.1
    · rw [SessionEventJournal.append, scheduleFlush, if_pos isSome]
      simp
    · exact unawaited.2
  | _ => exact unawaited trivial

/-- An append during a flush that a reader waits for. -/
theorem durable_iff_awaited_reader :
    Durable (opened [] "ep_1")
      ((exec step (opened [] "ep_1") [.append 1 'a', .readSince 0 10, .append 2 'b']).getD
        (opened [] "ep_1")) := by
  have run : Run step Awaited (opened [] "ep_1") [.append 1 'a', .readSince 0 10, .append 2 'b']
      ((exec step (opened [] "ep_1") [.append 1 'a', .readSince 0 10, .append 2 'b']).getD
        (opened [] "ep_1")) := by
    refine .cons (s := (opened [] "ep_1").append 1 'a') ?_ rfl
      (.cons trivial rfl (.cons ?_ rfl .nil))
    · exact fun flushing => absurd rfl flushing
    · exact fun _ => by decide
  exact (durable_iff_awaited run).1

/-- The second line is appended while the first one is being written, and stays in memory. -/
theorem unawaited_append_stays : ¬∀ file fresh events (s : JournalRounds Char),
    Run step Always (opened file fresh) events s → Durable (opened file fresh) s := by
  intro all
  have durable := all [] "ep_1" [.append 1 'a', .append 2 'b', .written, .finallyFlush] _
    (.cons trivial rfl (.cons trivial rfl (.cons trivial rfl (.cons trivial rfl .nil))))
  have pending := durable.handedOver ⟨rfl, rfl, rfl⟩
  cases pending

end

end JournalRounds

end KimiCli
