import KimiCli.Gateway.Journal
import KimiCli.Lib.Run

/-!
# Replay to a reconnecting client

`services/gateway/wsBroadcastService.ts` for one session: the dispatch queue, the journal with its
file, the tail cache and the calls of `getBufferedSince`, each at the `await` it waits for.  A
restart closes the journal and drops everything else that is in memory.  `Ev` is the type of the
published events.
-/

namespace KimiCli

def DEFAULT_MAX_BUFFER_SIZE : ℕ := 1000

/-- `buildEventEnvelope` of a durable event. -/
structure EventEnvelope (Ev : Type) where
  seq : ℕ
  epoch : Epoch
  payload : Ev
  deriving DecidableEq

structure SessionCursor where
  seq : ℕ
  epoch : Option Epoch := none
  deriving DecidableEq

inductive ResyncReason
  | buffer_overflow | session_recreated | epoch_changed

structure BufferedSinceResult (Ev : Type) where
  events : List (JournalEntry (EventEnvelope Ev))
  resyncRequired : Option ResyncReason
  currentSeq : ℕ
  epoch : Epoch

/-- A call of `getBufferedSince`. -/
inductive BufferedSinceCall (Ev : Type)
  /-- It waits for `state.ready`. -/
  | opening (cursor : SessionCursor)
  /-- It waits for `state.queue`, in which `ahead` dispatches were to be done. -/
  | draining (cursor : SessionCursor) (ahead : ℕ)
  /-- In `readSince`, at the `flush()`. -/
  | flushing (cursor : SessionCursor) (currentSeq : ℕ) (epoch : Epoch)
  /-- In `readSince`, reading the file, which had `lines` lines at the start. -/
  | reading (cursor : SessionCursor) (currentSeq : ℕ) (epoch : Epoch) (lines : ℕ)
  /-- It has returned, when `journal.seq` was `seq`. -/
  | returned (cursor : SessionCursor) (seq : ℕ) (result : BufferedSinceResult Ev)

/-- The state of a session, with the file of its journal. -/
structure SessionBroadcast (Ev : Type) where
  file : List (JournalLine (EventEnvelope Ev)) := []
  journal : Option (SessionEventJournal (EventEnvelope Ev)) := none
  tail : List (JournalEntry (EventEnvelope Ev)) := []
  /-- The events published and not yet dispatched, with whether their type is volatile. -/
  queue : List (Bool × Ev) := []
  calls : List (BufferedSinceCall Ev) := []
  /-- Every durable event dispatched so far, in any incarnation of the server. -/
  history : List (JournalEntry (EventEnvelope Ev)) := []

inductive BroadcastEvent (Ev : Type)
  | publish (isVolatile : Bool) (event : Ev)
  /-- The journal has been opened; `fresh` is the ulid of a new epoch. -/
  | ready (fresh : Epoch)
  /-- The first queued event is dispatched. -/
  | dispatch
  /-- `appendFile` has settled, with or without an error. -/
  | written (ok : Bool)
  /-- The `finally` handler of a flush runs. -/
  | finallyFlush
  | getBufferedSince (cursor : SessionCursor)
  /-- Call `i` goes on behind the `await` it waits for; a reader has seen `lines` lines. -/
  | resume (i : ℕ) (lines : ℕ)
  /-- The server is restarted; the journal has been closed. -/
  | restart

namespace SessionBroadcast

open SessionEventJournal

variable {Ev : Type}

/-- A dispatch that calls wait for has been done. -/
def BufferedSinceCall.dispatched : BufferedSinceCall Ev → BufferedSinceCall Ev
  | .draining cursor ahead => .draining cursor (ahead - 1)
  | call => call

/-- The synchronous part of `_dispatch`. -/
def dispatch (s : SessionBroadcast Ev) (j : SessionEventJournal (EventEnvelope Ev))
    (isVolatile : Bool) (event : Ev) : SessionBroadcast Ev :=
  if isVolatile then s
  else
    let (j, seq) := j.nextSeq
    let envelope : EventEnvelope Ev := { seq, epoch := j.epoch, payload := event }
    let tail := s.tail ++ [⟨seq, envelope⟩]
    { s with
      journal := some (j.append seq envelope)
      tail := tail.drop (tail.length - DEFAULT_MAX_BUFFER_SIZE)
      history := s.history ++ [⟨seq, envelope⟩] }

/-- `getBufferedSince` behind its `await state.queue`, up to its next `await` or its end. -/
def bufferedSince (s : SessionBroadcast Ev) (j : SessionEventJournal (EventEnvelope Ev))
    (cursor : SessionCursor) : BufferedSinceCall Ev :=
  let currentSeq := j.seq
  let epoch := j.epoch
  let answer (events : List (JournalEntry (EventEnvelope Ev)))
      (resyncRequired : Option ResyncReason) : BufferedSinceCall Ev :=
    .returned cursor currentSeq { events, resyncRequired, currentSeq, epoch }
  if cursor.epoch.isSome ∧ cursor.epoch ≠ some epoch then answer [] (some .epoch_changed)
  else if cursor.seq > currentSeq then answer [] (some .epoch_changed)
  else if cursor.seq = currentSeq then answer [] none
  else if currentSeq - cursor.seq > DEFAULT_MAX_BUFFER_SIZE then answer [] (some .buffer_overflow)
  else
    match s.tail with
    | first :: _ =>
      if first.seq ≤ cursor.seq + 1 then answer (s.tail.filter fun e => cursor.seq < e.seq) none
      else .flushing cursor currentSeq epoch
    | [] => .flushing cursor currentSeq epoch

/-- A call goes on.  At the `flush()` it starts a flush if lines are pending and none runs. -/
def resumeCall (s : SessionBroadcast Ev) (j : SessionEventJournal (EventEnvelope Ev)) (lines : ℕ) :
    BufferedSinceCall Ev →
      Option (SessionEventJournal (EventEnvelope Ev) × BufferedSinceCall Ev)
  | .opening cursor => some (j, .draining cursor s.queue.length)
  | .draining cursor ahead => if ahead = 0 then some (j, s.bufferedSince j cursor) else none
  | .flushing cursor currentSeq epoch =>
    if j.flushed then some (j, .reading cursor currentSeq epoch s.file.length)
    else if j.flushPromise.isNone then some (j.flushOnce, .flushing cursor currentSeq epoch)
    else none
  | .reading cursor currentSeq epoch atLeast =>
    let content := s.file ++ j.writing
    if atLeast ≤ lines ∧ lines ≤ content.length then
      some (j, .returned cursor j.seq
        { events := JournalLine.since cursor.seq DEFAULT_MAX_BUFFER_SIZE (content.take lines)
          resyncRequired := none, currentSeq, epoch })
    else none
  | .returned _ _ _ => none

def step (s : SessionBroadcast Ev) : BroadcastEvent Ev → Option (SessionBroadcast Ev)
  | .publish isVolatile event => some { s with queue := s.queue ++ [(isVolatile, event)] }
  | .ready fresh =>
    match s.journal with
    | none => some { s with journal := some (.open s.file fresh) }
    | some _ => none
  | .dispatch =>
    match s.journal, s.queue with
    | some j, (isVolatile, event) :: queue =>
      some ({ s with queue, calls := s.calls.map BufferedSinceCall.dispatched }.dispatch j
        isVolatile event)
    | _, _ => none
  | .written ok =>
    match s.journal with
    | some j =>
      match j.flushPromise with
      | some (.writing lines) =>
        some { s with
          file := if ok then s.file ++ lines else s.file
          journal := some { j with flushPromise := some .settled } }
      | _ => none
    | none => none
  | .finallyFlush =>
    match s.journal with
    | some j =>
      match j.flushPromise with
      | some .settled => some { s with journal := some { j with flushPromise := none } }
      | _ => none
    | none => none
  | .getBufferedSince cursor => some { s with calls := s.calls ++ [.opening cursor] }
  | .resume i lines =>
    match s.journal, s.calls[i]? with
    | some j, some call =>
      (s.resumeCall j lines call).map fun (j, call) =>
        { s with journal := some j, calls := s.calls.set i call }
    | _, _ => none
  | .restart =>
    match s.journal with
    | none => some { file := s.file, history := s.history }
    | some j => if j.flushed then some { file := s.file, history := s.history } else none

/-! ## Invariants -/

section

variable {s t : SessionBroadcast Ev} {j : SessionEventJournal (EventEnvelope Ev)}

/-- What a call has found out and what it has returned. -/
def CallOk (s : SessionBroadcast Ev) : BufferedSinceCall Ev → Prop
  | .opening _ => True
  | .draining _ _ => True
  | .flushing cursor currentSeq _ =>
    cursor.seq < currentSeq ∧ currentSeq - cursor.seq ≤ DEFAULT_MAX_BUFFER_SIZE ∧
      currentSeq ≤ s.history.length
  | .reading cursor currentSeq _ lines =>
    cursor.seq < currentSeq ∧ currentSeq - cursor.seq ≤ DEFAULT_MAX_BUFFER_SIZE ∧
      currentSeq ≤ s.history.length ∧ currentSeq + 1 ≤ lines
  | .returned cursor seq result =>
    seq ≤ s.history.length ∧ (result.resyncRequired = none → ∃ m, result.currentSeq ≤ m ∧ m ≤ seq ∧
      result.events = (s.history.take m).drop cursor.seq)

structure Inv (s : SessionBroadcast Ev) : Prop where
  numbered : Numbered s.history
  stamped : ∀ entry ∈ s.history, entry.envelope.seq = entry.seq
  disk : s.journal = none →
    s.file = [] ∧ s.history = [] ∨ ∃ epoch, s.file = fileLines epoch s.history
  journal : ∀ j, s.journal = some j → Holds s.file s.history j
  tail : s.tail <:+ s.history
  calls : ∀ call ∈ s.calls, CallOk s call

/-- Later events do not change what calls have found out. -/
theorem CallOk.mono {call : BufferedSinceCall Ev} (ok : CallOk s call)
    (grown : s.history <+: t.history) : CallOk t call := by
  have longer := grown.length_le
  cases call with
  | opening => trivial
  | draining => trivial
  | flushing => exact ⟨ok.1, ok.2.1, Nat.le_trans ok.2.2 longer⟩
  | reading =>
    exact ⟨ok.1, ok.2.1, Nat.le_trans ok.2.2.1 longer, ok.2.2.2⟩
  | returned =>
    refine ⟨Nat.le_trans ok.1 longer, fun served => ?_⟩
    obtain ⟨m, from_current, upto, events⟩ := ok.2 served
    refine ⟨m, from_current, upto, ?_⟩
    obtain ⟨more, eq⟩ := grown
    rw [events, ← eq, List.take_append_of_le_length (Nat.le_trans upto ok.1)]

theorem CallOk.dispatched {call : BufferedSinceCall Ev} (ok : CallOk s call) :
    CallOk s (BufferedSinceCall.dispatched call) := by
  cases call with
  | draining => trivial
  | _ => exact ok

theorem tail_filter (inv : Inv s) {first : JournalEntry (EventEnvelope Ev)}
    {rest : List (JournalEntry (EventEnvelope Ev))} (tail : s.tail = first :: rest) {c : ℕ}
    (reaches : first.seq ≤ c + 1) :
    (s.tail.filter fun e => c < e.seq) = s.history.drop c := by
  obtain ⟨front, eq⟩ := inv.tail
  have position : first.seq = front.length + 1 :=
    inv.numbered front.length first (by simp [← eq, tail])
  have early : (front.filter fun e => c < e.seq) = [] := by
    refine List.filter_eq_nil_iff.2 fun e mem => ?_
    obtain ⟨i, inside, rfl⟩ := List.getElem_of_mem mem
    have := inv.numbered i front[i] (by simp [← eq, List.getElem?_append_left inside])
    simp
    omega
  rw [← inv.numbered.filter, ← eq, List.filter_append, early, List.nil_append]

theorem bufferedSince_ok (inv : Inv s) (holds : Holds s.file s.history j) (cursor : SessionCursor) :
    CallOk s (s.bufferedSince j cursor) := by
  have seq : j.seq = s.history.length := holds.seq
  have refused (reason : ResyncReason) : CallOk s (.returned cursor j.seq
      { events := [], resyncRequired := some reason, currentSeq := j.seq, epoch := j.epoch }) :=
    ⟨Nat.le_of_eq seq, fun served => nomatch served⟩
  unfold bufferedSince
  dsimp only
  split
  · exact refused _
  split
  · exact refused _
  split
  case isTrue current =>
    refine ⟨Nat.le_of_eq seq, fun _ => ⟨j.seq, Nat.le_refl _, Nat.le_refl _, ?_⟩⟩
    rw [current, seq, List.take_length, List.drop_length]
  split
  · exact refused _
  case isFalse behind different near =>
    have waits : CallOk s (.flushing cursor j.seq j.epoch) :=
      ⟨by omega, Nat.le_of_not_lt near, Nat.le_of_eq seq⟩
    split
    case h_1 first rest tail =>
      split
      case isTrue reaches =>
        refine ⟨Nat.le_of_eq seq, fun _ => ⟨j.seq, Nat.le_refl _, Nat.le_refl _, ?_⟩⟩
        rw [seq, List.take_length]
        exact tail_filter inv tail reaches
      case isFalse => exact waits
    case h_2 => exact waits

theorem since_file (inv : Inv s) (holds : Holds s.file s.history j) {cursor : SessionCursor}
    {currentSeq lines atLeast : ℕ} {epoch : Epoch}
    (ok : CallOk s (.reading cursor currentSeq epoch atLeast)) (from_start : atLeast ≤ lines)
    (upto : lines ≤ (s.file ++ j.writing).length) :
    ∃ m, currentSeq ≤ m ∧ m ≤ j.seq ∧ JournalLine.since cursor.seq DEFAULT_MAX_BUFFER_SIZE
      ((s.file ++ j.writing).take lines) = (s.history.take m).drop cursor.seq := by
  obtain ⟨behind, near, known, whole⟩ := ok
  have some : 0 < lines := by omega
  have old : j.headerPending = false := by
    by_contra header
    rw [Bool.not_eq_false] at header
    obtain ⟨file, idle, -⟩ := holds.fresh header
    rw [file, writing_of_none idle, List.append_nil, List.length_nil] at upto
    omega
  have all := holds.lines old
  have longer := congrArg List.length all
  rw [fileLines, List.length_append, List.length_cons, List.length_map] at longer
  have content : (s.file ++ j.writing).take lines =
      fileLines j.epoch (s.history.take (lines - 1)) := by
    have ahead : (s.file ++ j.writing ++ j.pendingLines).take lines =
        (s.file ++ j.writing).take lines := List.take_append_of_le_length upto
    rw [← ahead, all, fileLines, fileLines, List.map_take]
    obtain ⟨n, rfl⟩ : ∃ n, lines = n + 1 := ⟨lines - 1, by omega⟩
    rfl
  refine ⟨min (cursor.seq + DEFAULT_MAX_BUFFER_SIZE) (lines - 1), by omega, ?_, ?_⟩
  · rw [holds.seq]
    omega
  · have capped (entries : List (JournalEntry (EventEnvelope Ev))) (c n : ℕ) :
        (entries.take (c + n)).drop c = (entries.drop c).take n := by
      rw [List.drop_take, Nat.add_sub_cancel_left]
    rw [content, fileLines, since_lines, (inv.numbered.take _).filter, ← List.take_take, capped]

theorem resumeCall_ok (inv : Inv s) (holds : Holds s.file s.history j) {lines : ℕ}
    {call call' : BufferedSinceCall Ev} {j' : SessionEventJournal (EventEnvelope Ev)}
    (ok : CallOk s call) (next : s.resumeCall j lines call = some (j', call')) :
    Holds s.file s.history j' ∧ CallOk s call' := by
  cases call with
  | opening =>
    cases next
    exact ⟨holds, trivial⟩
  | draining cursor =>
    simp only [resumeCall] at next
    split at next
    · cases next
      exact ⟨holds, bufferedSince_ok inv holds cursor⟩
    · cases next
  | flushing =>
    simp only [resumeCall] at next
    split at next
    case isTrue flushed =>
      cases next
      refine ⟨holds, ok.1, ok.2.1, ok.2.2, ?_⟩
      rcases holds.file_eq flushed with ⟨-, none⟩ | file
      · have behind := ok.1
        have upto := ok.2.2
        simp only [none, List.length_nil] at upto
        omega
      · simpa [file, fileLines] using ok.2.2
    case isFalse waiting =>
      split at next
      case isTrue idle =>
        cases next
        exact ⟨holds.flushOnce (Option.isNone_iff_eq_none.1 idle), ok⟩
      case isFalse => cases next
  | reading =>
    simp only [resumeCall] at next
    split at next
    case isTrue seen =>
      cases next
      exact ⟨holds, Nat.le_of_eq holds.seq, fun _ => since_file inv holds ok seen.1 seen.2⟩
    case isFalse => cases next
  | returned => cases next

theorem dispatch_inv (inv : Inv s) (journal : s.journal = some j) (isVolatile : Bool) (event : Ev)
    (queue : List (Bool × Ev)) :
    Inv ({ s with queue, calls := s.calls.map BufferedSinceCall.dispatched }.dispatch j isVolatile
      event) := by
  have calls {t : SessionBroadcast Ev} (grown : s.history <+: t.history)
      (same : t.calls = s.calls.map BufferedSinceCall.dispatched) :
      ∀ call ∈ t.calls, CallOk t call := by
    intro call mem
    rw [same] at mem
    obtain ⟨call, old, rfl⟩ := List.mem_map.1 mem
    exact (inv.calls call old).dispatched.mono grown
  unfold dispatch
  split
  case isTrue =>
    exact ⟨inv.numbered, inv.stamped, inv.disk, inv.journal, inv.tail, calls List.prefix_rfl rfl⟩
  case isFalse =>
    have holds := inv.journal j journal
    have seq : j.nextSeq.2 = s.history.length + 1 := congrArg Nat.succ holds.seq
    refine ⟨?_, fun entry mem => ?_, (fun none => nomatch none), ?_, ?_, calls ⟨_, rfl⟩ rfl⟩
    · change Numbered (s.history ++ [⟨j.nextSeq.2, _⟩])
      rw [seq]
      exact inv.numbered.concat _
    · rcases List.mem_append.1 mem with old | new
      · exact inv.stamped entry old
      · obtain rfl := List.mem_singleton.1 new
        rfl
    · intro j' eq
      cases eq
      exact holds.append _
    · have pushed (n : ℕ) (entry : JournalEntry (EventEnvelope Ev)) :
          (s.tail ++ [entry]).drop n <:+ s.history ++ [entry] := by
        obtain ⟨front, eq⟩ := inv.tail
        exact (List.drop_suffix _ _).trans ⟨front, by rw [← eq, List.append_assoc]⟩
      dsimp only [nextSeq]
      exact pushed _ _

theorem step_inv (inv : Inv s) {event : BroadcastEvent Ev} (writes : event ≠ .written false)
    (next : s.step event = some t) : Inv t := by
  cases event with
  | publish =>
    cases next
    exact ⟨inv.numbered, inv.stamped, inv.disk, inv.journal, inv.tail, inv.calls⟩
  | ready fresh =>
    simp only [step] at next
    split at next
    case h_1 closed =>
      cases next
      refine ⟨inv.numbered, inv.stamped, (fun none => nomatch none), fun j eq => ?_, inv.tail,
        inv.calls⟩
      cases eq
      exact holds_open inv.numbered (inv.disk closed) fresh
    case h_2 => cases next
  | dispatch =>
    simp only [step] at next
    split at next
    case h_1 j isVolatile event queue journal queued =>
      cases next
      exact dispatch_inv inv journal isVolatile event queue
    case h_2 => cases next
  | written ok =>
    simp only [step] at next
    split at next
    case h_2 => cases next
    case h_1 j journal =>
      split at next
      case h_2 => cases next
      case h_1 lines writing =>
        cases next
        obtain rfl : ok = true := by
          cases ok with
          | true => rfl
          | false => exact absurd rfl writes
        refine ⟨inv.numbered, inv.stamped, (fun none => nomatch none), fun j' eq => ?_, inv.tail,
          inv.calls⟩
        cases eq
        exact (inv.journal j journal).written writing
  | finallyFlush =>
    simp only [step] at next
    split at next
    case h_2 => cases next
    case h_1 j journal =>
      split at next
      case h_2 => cases next
      case h_1 settled =>
        cases next
        refine ⟨inv.numbered, inv.stamped, (fun none => nomatch none), fun j' eq => ?_, inv.tail,
          inv.calls⟩
        cases eq
        exact (inv.journal j journal).finallyFlush settled
  | getBufferedSince =>
    cases next
    refine ⟨inv.numbered, inv.stamped, inv.disk, inv.journal, inv.tail, fun call mem => ?_⟩
    rcases List.mem_append.1 mem with old | new
    · exact inv.calls call old
    · obtain rfl := List.mem_singleton.1 new
      trivial
  | resume =>
    simp only [step] at next
    split at next
    case h_2 => cases next
    case h_1 j call journal at_i =>
      obtain ⟨⟨j', call'⟩, resumed, rfl⟩ := Option.map_eq_some_iff.1 next
      obtain ⟨holds, ok⟩ := resumeCall_ok inv (inv.journal j journal)
        (inv.calls call (List.mem_of_getElem? at_i)) resumed
      refine ⟨inv.numbered, inv.stamped, (fun none => nomatch none), fun j'' eq => ?_, inv.tail,
        fun other mem => ?_⟩
      · cases eq
        exact holds
      · rcases List.mem_or_eq_of_mem_set mem with old | rfl
        · exact inv.calls other old
        · exact ok
  | restart =>
    simp only [step] at next
    split at next
    case h_1 closed =>
      cases next
      exact ⟨inv.numbered, inv.stamped, fun _ => inv.disk closed, (fun j eq => nomatch eq),
        List.nil_suffix, fun call mem => nomatch mem⟩
    case h_2 j journal =>
      split at next
      case isTrue flushed =>
        cases next
        refine ⟨inv.numbered, inv.stamped, fun _ => ?_, (fun j eq => nomatch eq), List.nil_suffix,
          fun call mem => nomatch mem⟩
        rcases (inv.journal j journal).file_eq flushed with empty | file
        · exact .inl empty
        · exact .inr ⟨j.epoch, file⟩
      case isFalse => cases next

/-- A run of the server, from the first event of a session on, in which no write fails. -/
abbrev WritingRun (events : List (BroadcastEvent Ev)) (s : SessionBroadcast Ev) : Prop :=
  Transition.Run step (fun _ event => event ≠ .written false) {} events s

theorem inv_of_run {events : List (BroadcastEvent Ev)} (run : WritingRun events s) : Inv s := by
  refine Transition.Run.invariant Inv run ?_ fun s event t inv writes next =>
    step_inv inv writes next
  exact ⟨Numbered.nil, (fun entry mem => nomatch mem), fun _ => .inl ⟨rfl, rfl⟩,
    (fun j eq => nomatch eq), List.nil_suffix, fun call mem => nomatch mem⟩

/-- Durable events are numbered by their positions, and a call that does not ask for a resync
returns the durable events behind its cursor up to some `m`, which is at least the watermark it
reports and at most the journal's `seq` when it returns. -/
theorem replay_exact {events : List (BroadcastEvent Ev)} (run : WritingRun events s) :
    (∀ i entry, s.history[i]? = some entry → entry.seq = i + 1 ∧ entry.envelope.seq = i + 1) ∧
    ∀ cursor seq result, .returned cursor seq result ∈ s.calls → result.resyncRequired = none →
      ∃ m, result.currentSeq ≤ m ∧ m ≤ seq ∧
        result.events = s.history.filter fun e => cursor.seq < e.seq && e.seq ≤ m := by
  have inv := inv_of_run run
  refine ⟨fun i entry at_i => ?_, fun cursor seq result mem served => ?_⟩
  · have position := inv.numbered i entry at_i
    exact ⟨position, (inv.stamped entry (List.mem_of_getElem? at_i)).trans position⟩
  · obtain ⟨m, from_current, upto, eq⟩ := (inv.calls _ mem).2 served
    refine ⟨m, from_current, upto, ?_⟩
    rw [eq, ← (inv.numbered.take m).filter, ← inv.numbered.filter_le, List.filter_filter]

end

/-- A session with one event before a restart and one while a client is served from the file. -/
def overtaken : List (BroadcastEvent ℕ) :=
  [.publish false 7, .ready "ep_1", .dispatch, .written true, .finallyFlush, .restart,
    .ready "ep_2", .getBufferedSince { seq := 0 }, .resume 0 0, .resume 0 0, .resume 0 0,
    .publish false 8, .dispatch, .written true, .resume 0 3]

/-- A write fails, and the server is restarted. -/
def unwritten : List (BroadcastEvent ℕ) :=
  [.publish false 7, .ready "ep_1", .dispatch, .written true, .finallyFlush, .publish false 8,
    .dispatch, .written false, .finallyFlush, .restart, .ready "ep_2", .publish false 9, .dispatch]

instance (event : BroadcastEvent Ev) : Decidable (event ≠ .written false) :=
  match event with
  | .written ok => decidable_of_iff (ok = true) (by simp)
  | .publish _ _ | .ready _ | .dispatch | .finallyFlush | .getBufferedSince _ | .resume _ _
  | .restart => .isTrue nofun

/-- The session of `overtaken`, to which the law applies. -/
theorem overtaken_exact : ∃ s : SessionBroadcast ℕ, WritingRun overtaken s ∧
    ∀ cursor seq result, .returned cursor seq result ∈ s.calls → result.resyncRequired = none →
      ∃ m, result.currentSeq ≤ m ∧ m ≤ seq ∧
        result.events = s.history.filter fun e => cursor.seq < e.seq && e.seq ≤ m := by
  have reached : (Transition.exec (Transition.guarded step fun _ event => event ≠ .written false)
      ({} : SessionBroadcast ℕ) overtaken).isSome = true := by
    decide +kernel
  obtain ⟨s, run⟩ := Option.isSome_iff_exists.1 reached
  exact ⟨s, .of_exec run, (replay_exact (.of_exec run)).2⟩

/-- A call has returned without a resync and other events than those up to its watermark. -/
def beyondWatermark [DecidableEq Ev] (s : SessionBroadcast Ev) : BufferedSinceCall Ev → Bool
  | .returned cursor _ result =>
    result.resyncRequired.isNone && result.events != s.history.filter fun e =>
      cursor.seq < e.seq && e.seq ≤ result.currentSeq
  | _ => false

/-- The file can answer beyond the watermark that is reported, and after a failed write a number is
given twice. -/
theorem replay_overtakes :
    (∃ s : SessionBroadcast ℕ, WritingRun overtaken s ∧ ∃ call ∈ s.calls, beyondWatermark s call) ∧
    ∃ s, Transition.exec step {} unwritten = some s ∧ s.history.map (·.seq) = [1, 2, 2] := by
  constructor
  · have reached : ((Transition.exec (Transition.guarded step fun _ event => event ≠ .written false)
        {} overtaken).map fun s => s.calls.any (beyondWatermark s)) = some true := by
      decide +kernel
    obtain ⟨s, run, some⟩ := Option.map_eq_some_iff.1 reached
    exact ⟨s, Transition.Run.of_exec run, by simpa using some⟩
  · have reached : ((Transition.exec step {} unwritten).map fun s => s.history.map (·.seq)) =
        some [1, 2, 2] := by
      decide +kernel
    exact Option.map_eq_some_iff.1 reached

end SessionBroadcast

end KimiCli
