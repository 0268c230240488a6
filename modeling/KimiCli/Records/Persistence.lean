import KimiCli.Js.Utf8
import KimiCli.Lib.Run

/-!
# The write queue of `wire.jsonl`

The writing half of `FileSystemAgentRecordPersistence` (`agent/records/persistence.ts`).  The
synchronous part of a method is a function on the object's fields; what runs asynchronously is a
process: a *drain* is one execution of `drainPendingRecords` together with the `catch` and `finally`
handlers of `ensureFlush`, and stands at the `await` it waits for.  Every settled promise is a step
of its own, so that calls may come between any two of them.
-/

namespace KimiCli

/-- What turns a record into the text of its line. -/
structure WireFormat (R : Type) where
  /-- `BlobStore.offload`, if there is a blob store. -/
  offload : Option (R → R)
  /-- `JSON.stringify`. -/
  stringify : R → String

namespace WireFormat

variable {R : Type} (fmt : WireFormat R)

/-- The record as it is written. -/
def writable (record : R) : R :=
  match fmt.offload with
  | some offload => offload record
  | none => record

def content (records : List R) : String :=
  String.join (records.map fun e => fmt.stringify e ++ "\n")

/-- The bytes of the line of a record. -/
def line (record : R) : Bytes := encodeUtf8 (fmt.stringify (fmt.writable record) ++ "\n")

def lines (records : List R) : Bytes := records.flatMap fmt.line

theorem encodeUtf8_content (records : List R) :
    encodeUtf8 (fmt.content records) =
      records.flatMap fun e => encodeUtf8 (fmt.stringify e ++ "\n") := by
  induction records with
  | nil => rfl
  | cons record records ih =>
    rw [List.flatMap_cons, ← ih, content, List.map_cons, String.join_cons, encodeUtf8_append]
    rfl

theorem encodeUtf8_writable (batch : List R) :
    encodeUtf8 (fmt.content (batch.map fmt.writable)) = fmt.lines batch := by
  rw [encodeUtf8_content, List.flatMap_map]
  rfl

@[simp] theorem lines_nil : fmt.lines [] = [] := rfl

@[simp] theorem lines_append (rs ss : List R) :
    fmt.lines (rs ++ ss) = fmt.lines rs ++ fmt.lines ss :=
  List.flatMap_append

end WireFormat

/-- Where a drain stands: the `await` it waits for, and what it still has to do there. -/
inductive Drain (R E : Type)
  /-- In `drainBatch`, at the `offload` of every record of the batch. -/
  | offloading (shouldClear : Bool) (batch : List R)
  | makingDirectory (shouldClear : Bool) (content : String)
  | opening (shouldClear : Bool) (content : String)
  | writing (content : String)
  | syncing
  /-- In the `finally` of `drainBatch`; `failure` is what the `try` block has thrown. -/
  | closing (failure : Option E)
  | syncingDirectory
  /-- `drainBatch` has settled, `drainPendingRecords` has not gone on. -/
  | batchSettled (failure : Option E)
  /-- `drainPendingRecords` has settled; the handlers of `ensureFlush` have not run. -/
  | settled (failure : Option E)
  /-- The `catch` handler has run. -/
  | caught (failure : Option E)
  /-- The `finally` handler has run. -/
  | finished (failure : Option E)

/-- A call of `flush()`. -/
inductive FlushCall (E : Type)
  /-- It waits for the promise of a drain. -/
  | awaiting (drain : ℕ)
  | resolved
  | rejected (error : E)

def FlushCall.isResolved {E : Type} : FlushCall E → Bool
  | .resolved => true
  | _ => false

structure FileSystemAgentRecordPersistence (R E : Type) where
  pendingRecords : List R := []
  shouldClear : Bool := false
  directorySynced : Bool := false
  /-- The drain whose promise is kept. -/
  flushPromise : Option ℕ := none
  error : Option E := none
  /-- The bytes of the file; `none` if it does not exist. -/
  file : Option Bytes := none
  /-- The drains that have been started, in this order. -/
  drains : List (Drain R E) := []
  /-- The calls of `flush()`, in this order. -/
  flushes : List (FlushCall E) := []

/-- A call, or the settling of a promise. -/
inductive PersistenceEvent (R E : Type)
  | append (input : R)
  | rewrite (records : List R)
  | flush
  /-- What drain `d` waits for succeeds, or fails with `failure`; a write that fails has written the
  first `written` bytes. -/
  | drain (d : ℕ) (failure : Option E) (written : ℕ)
  /-- The promise that flush call `f` waits for has settled. -/
  | resume (f : ℕ)

namespace FileSystemAgentRecordPersistence

variable {R E : Type}

def contents (s : FileSystemAgentRecordPersistence R E) : Bytes := s.file.getD []

/-- `drainBatch`, up to its first `await`. -/
def drainBatch (fmt : WireFormat R) (s : FileSystemAgentRecordPersistence R E) :
    FileSystemAgentRecordPersistence R E × Drain R E :=
  let shouldClear := s.shouldClear
  let batch := s.pendingRecords
  ({ s with pendingRecords := [], shouldClear := false },
    if fmt.offload.isSome then .offloading shouldClear batch
    else .makingDirectory shouldClear (fmt.content batch))

/-- The loop of `drainPendingRecords`, up to its next `await` or its end. -/
def drainPendingRecords (fmt : WireFormat R) (s : FileSystemAgentRecordPersistence R E) :
    FileSystemAgentRecordPersistence R E × Drain R E :=
  if s.shouldClear ∨ s.pendingRecords ≠ [] then s.drainBatch fmt else (s, .settled none)

/-- `ensureFlush`, with the drain whose promise it returns. -/
def ensureFlush (fmt : WireFormat R) (s : FileSystemAgentRecordPersistence R E) :
    FileSystemAgentRecordPersistence R E × ℕ :=
  match s.flushPromise with
  | some d => (s, d)
  | none =>
    let (s, drain) := s.drainPendingRecords fmt
    ({ s with drains := s.drains ++ [drain], flushPromise := some s.drains.length },
      s.drains.length)

def scheduleFlush (fmt : WireFormat R) (s : FileSystemAgentRecordPersistence R E) :
    FileSystemAgentRecordPersistence R E :=
  (s.ensureFlush fmt).1

def throwIfError (s : FileSystemAgentRecordPersistence R E) : Except E Unit :=
  match s.error with
  | some error => .error error
  | none => .ok ()

def append (fmt : WireFormat R) (s : FileSystemAgentRecordPersistence R E) (input : R) :
    Except E (FileSystemAgentRecordPersistence R E) := do
  s.throwIfError
  return scheduleFlush fmt { s with pendingRecords := s.pendingRecords ++ [input] }

def rewrite (fmt : WireFormat R) (s : FileSystemAgentRecordPersistence R E) (records : List R) :
    Except E (FileSystemAgentRecordPersistence R E) := do
  s.throwIfError
  return scheduleFlush fmt { s with shouldClear := true, pendingRecords := records }

/-- The `while` loop of `flush()`, up to its next `await` or its end. -/
def flushLoop (fmt : WireFormat R) (s : FileSystemAgentRecordPersistence R E) :
    FileSystemAgentRecordPersistence R E × FlushCall E :=
  if s.flushPromise ≠ none ∨ s.shouldClear ∨ s.pendingRecords ≠ [] then
    let (s, d) := s.ensureFlush fmt
    (s, .awaiting d)
  else (s, .resolved)

/-- `flush()`, and what it does each time the promise it waits for has been fulfilled. -/
def flush (fmt : WireFormat R) (s : FileSystemAgentRecordPersistence R E) :
    FileSystemAgentRecordPersistence R E × FlushCall E :=
  match s.throwIfError with
  | .error error => (s, .rejected error)
  | .ok _ => s.flushLoop fmt

/-- The flush call goes on after the drain it waits for has finished. -/
def resumeFlush (fmt : WireFormat R) (s : FileSystemAgentRecordPersistence R E) (d : ℕ) :
    Option (FileSystemAgentRecordPersistence R E × FlushCall E) :=
  match s.drains[d]? with
  | some (.finished (some error)) => some (s, .rejected error)
  | some (.finished none) => some (s.flush fmt)
  | _ => none

/-- `open(filePath, shouldClear ? 'w' : 'a')`. -/
def openFile (s : FileSystemAgentRecordPersistence R E) (shouldClear : Bool) :
    FileSystemAgentRecordPersistence R E :=
  { s with file := some (if shouldClear then [] else s.contents) }

def writeFile (s : FileSystemAgentRecordPersistence R E) (bytes : Bytes) :
    FileSystemAgentRecordPersistence R E :=
  { s with file := some (s.contents ++ bytes) }

/-- A drain goes on after what it waits for has settled. -/
def advance (fmt : WireFormat R) (s : FileSystemAgentRecordPersistence R E) (d : ℕ) (written : ℕ) :
    Drain R E → Option E → Option (FileSystemAgentRecordPersistence R E × Drain R E)
  | .offloading clear batch, none =>
    some (s, .makingDirectory clear (fmt.content (batch.map fmt.writable)))
  | .makingDirectory clear content, none => some (s, .opening clear content)
  | .opening clear content, none =>
    some (s.openFile clear, if content.length > 0 then .writing content else .syncing)
  | .writing content, none => some (s.writeFile (encodeUtf8 content), .syncing)
  | .syncing, none => some (s, .closing none)
  | .closing failure, none =>
    -- without a failure `drainBatch` goes on with the directory
    some (s, if failure.isNone && !s.directorySynced then .syncingDirectory
      else .batchSettled failure)
  | .syncingDirectory, none => some ({ s with directorySynced := true }, .batchSettled none)
  | .batchSettled none, none => some (s.drainPendingRecords fmt)
  | .batchSettled (some error), none => some (s, .settled (some error))
  | .settled none, none => some (s, .caught none)
  | .settled (some error), none => some ({ s with error := some error }, .caught (some error))
  | .caught failure, none =>
    let s := if s.flushPromise = some d then { s with flushPromise := none } else s
    some (if s.error.isNone ∧ (s.shouldClear ∨ s.pendingRecords ≠ []) then s.scheduleFlush fmt
      else s,
      .finished failure)
  | .offloading .., some error | .makingDirectory .., some error | .opening .., some error
  | .syncingDirectory, some error => some (s, .batchSettled (some error))
  | .writing content, some error =>
    some (s.writeFile ((encodeUtf8 content).take written), .closing (some error))
  | .syncing, some error => some (s, .closing (some error))
  | .closing _, some error => some (s, .batchSettled (some error))
  | _, _ => none

def step (fmt : WireFormat R) (s : FileSystemAgentRecordPersistence R E) :
    PersistenceEvent R E → Option (FileSystemAgentRecordPersistence R E)
  | .append input =>
    match s.append fmt input with
    | .ok s => some s
    | .error _ => some s
  | .rewrite records =>
    match s.rewrite fmt records with
    | .ok s => some s
    | .error _ => some s
  | .flush =>
    let (s, call) := s.flush fmt
    some { s with flushes := s.flushes ++ [call] }
  | .drain d failure written => do
    let (s, drain) ← s.advance fmt d written (← s.drains[d]?) failure
    return { s with drains := s.drains.set d drain }
  | .resume f =>
    match s.flushes[f]? with
    | some (.awaiting d) => do
      let (s, call) ← s.resumeFlush fmt d
      return { s with flushes := s.flushes.set f call }
    | _ => none

/-- The object over a file with these bytes, before its first call. -/
def start (file : Option Bytes) : FileSystemAgentRecordPersistence R E := { file }

/-! ## At most one drain -/

end FileSystemAgentRecordPersistence

namespace Drain

variable {R E : Type}

def isOver : Drain R E → Bool
  | .finished _ => true
  | _ => false

/-- An execution of `drainBatch` that has not settled. -/
def inBatch : Drain R E → Bool
  | .batchSettled _ | .settled _ | .caught _ | .finished _ => false
  | _ => true

/-- The failure a drain carries. -/
def failure : Drain R E → Option E
  | .closing failure | .batchSettled failure | .settled failure | .caught failure
  | .finished failure => failure
  | _ => none

/-- The failure that the `catch` handler has seen. -/
def reported : Drain R E → Option E
  | .caught failure | .finished failure => failure
  | _ => none

end Drain

namespace FileSystemAgentRecordPersistence

variable {R E : Type} {fmt : WireFormat R} {s t : FileSystemAgentRecordPersistence R E} {d : ℕ}
  {drain : Drain R E}

theorem throwIfError_of_none (healthy : s.error = none) : s.throwIfError = .ok () := by
  rw [throwIfError, healthy]

variable {error : E} {failure : Option E} {written : ℕ} {drain' : Drain R E}

theorem throwIfError_of_some (failed : s.error = some error) :
    s.throwIfError = .error error := by
  rw [throwIfError, failed]

theorem append_of_none (healthy : s.error = none) (input : R) : s.append fmt input =
    .ok (scheduleFlush fmt { s with pendingRecords := s.pendingRecords ++ [input] }) := by
  rw [append, throwIfError_of_none healthy]
  rfl

theorem append_of_some (failed : s.error = some error) (input : R) :
    s.append fmt input = .error error := by
  rw [append, throwIfError_of_some failed]
  rfl

theorem rewrite_of_none (healthy : s.error = none) (records : List R) : s.rewrite fmt records =
    .ok (scheduleFlush fmt { s with shouldClear := true, pendingRecords := records }) := by
  rw [rewrite, throwIfError_of_none healthy]
  rfl

theorem rewrite_of_some (failed : s.error = some error) (records : List R) :
    s.rewrite fmt records = .error error := by
  rw [rewrite, throwIfError_of_some failed]
  rfl

theorem flush_of_none (healthy : s.error = none) : s.flush fmt = s.flushLoop fmt := by
  rw [flush, throwIfError_of_none healthy]

theorem flush_of_some (failed : s.error = some error) :
    s.flush fmt = (s, .rejected error) := by
  rw [flush, throwIfError_of_some failed]

/-- Every drain but the one whose promise is kept is over, and `error` is the failure that the
`catch` handlers have seen. -/
structure Drains (s : FileSystemAgentRecordPersistence R E) : Prop where
  current : ∀ (d : ℕ) (drain : Drain R E), s.drains[d]? = some drain → drain.isOver = false →
    s.flushPromise = some d
  running : ∀ d, s.flushPromise = some d →
    ∃ drain : Drain R E, s.drains[d]? = some drain ∧ drain.isOver = false
  reported : ∀ (d : ℕ) (drain : Drain R E) (error : E), s.drains[d]? = some drain →
    drain.reported = some error → s.error = some error
  latched : ∀ (d : ℕ) (drain : Drain R E), s.flushPromise = some d → s.drains[d]? = some drain →
    s.error ≠ none → drain.reported = s.error

/-- Without a drain nothing is queued, unless an error has ended the queue. -/
def Drained (s : FileSystemAgentRecordPersistence R E) : Prop :=
  s.flushPromise = none → s.error = none → s.shouldClear = false ∧ s.pendingRecords = []

/-- Where `drainPendingRecords` stops next. -/
def nextDrain (fmt : WireFormat R) (s : FileSystemAgentRecordPersistence R E) : Drain R E :=
  (s.drainPendingRecords fmt).2

theorem drainPendingRecords_eq : s.drainPendingRecords fmt =
    ({ s with pendingRecords := [], shouldClear := false }, s.nextDrain fmt) := by
  refine Prod.ext ?_ rfl
  unfold drainPendingRecords drainBatch
  split
  · rfl
  · next idle =>
    obtain ⟨keep, empty⟩ : s.shouldClear = false ∧ s.pendingRecords = [] := by simpa using idle
    rw [← keep, ← empty]

theorem nextDrain_begun : (s.nextDrain fmt).isOver = false ∧ (s.nextDrain fmt).reported = none := by
  unfold nextDrain drainPendingRecords drainBatch
  split
  · dsimp only
    split <;> exact ⟨rfl, rfl⟩
  · exact ⟨rfl, rfl⟩

theorem failure_nextDrain : (s.nextDrain fmt).failure = none := by
  unfold nextDrain drainPendingRecords drainBatch
  split
  · dsimp only
    split <;> rfl
  · rfl

theorem nextDrain_congr (clear : s.shouldClear = t.shouldClear)
    (pending : s.pendingRecords = t.pendingRecords) : s.nextDrain fmt = t.nextDrain fmt := by
  unfold nextDrain drainPendingRecords drainBatch
  rw [clear, pending]
  split <;> rfl

/-- The object after the start of a new drain. -/
def started (fmt : WireFormat R) (s : FileSystemAgentRecordPersistence R E) :
    FileSystemAgentRecordPersistence R E :=
  { s with
    pendingRecords := []
    shouldClear := false
    drains := s.drains ++ [s.nextDrain fmt]
    flushPromise := some s.drains.length }

theorem started_set (lt : d < s.drains.length) :
    { started fmt s with drains := (started fmt s).drains.set d drain } =
      started fmt { s with drains := s.drains.set d drain } := by
  have same : nextDrain fmt { s with drains := s.drains.set d drain } = s.nextDrain fmt :=
    nextDrain_congr rfl rfl
  simp only [started, List.set_append_left _ _ lt, List.length_set, same]

theorem ensureFlush_of_none (idle : s.flushPromise = none) :
    s.ensureFlush fmt = (s.started fmt, s.drains.length) := by
  unfold ensureFlush
  rw [idle]
  rw [drainPendingRecords_eq]
  rfl

theorem ensureFlush_of_some (running : s.flushPromise = some d) : s.ensureFlush fmt = (s, d) := by
  unfold ensureFlush
  rw [running]

theorem Drains.started (h : Drains s) (idle : s.flushPromise = none) (healthy : s.error = none) :
    Drains (s.started fmt) := by
  obtain ⟨running, unreported⟩ :
      (s.nextDrain fmt).isOver = false ∧ (s.nextDrain fmt).reported = none := nextDrain_begun
  have lookup : ∀ (d : ℕ) (drain : Drain R E), (s.drains ++ [s.nextDrain fmt])[d]? = some drain →
      s.drains[d]? = some drain ∨ d = s.drains.length ∧ drain = s.nextDrain fmt := by
    intro d drain h
    grind
  refine ⟨?_, ?_, ?_, ?_⟩
  · intro d drain at? goes
    rcases lookup d drain at? with old | ⟨rfl, rfl⟩
    · have := h.current d drain old goes
      rw [idle] at this
      cases this
    · rfl
  · rintro d kept
    obtain rfl : s.drains.length = d := Option.some.inj kept
    exact ⟨s.nextDrain fmt, by simp [FileSystemAgentRecordPersistence.started], running⟩
  · intro d drain error at? reported
    rcases lookup d drain at? with old | ⟨rfl, rfl⟩
    · exact h.reported d drain error old reported
    · rw [unreported] at reported
      cases reported
  · intro d drain _ _ failed
    exact absurd healthy failed

theorem Drains.ensureFlush (h : Drains s) (healthy : s.error = none) :
    Drains (s.ensureFlush fmt).1 ∧ Drained (s.ensureFlush fmt).1 := by
  cases kept : s.flushPromise with
  | none =>
    rw [ensureFlush_of_none kept]
    exact ⟨h.started kept healthy, fun idle => by cases idle⟩
  | some =>
    rw [ensureFlush_of_some kept]
    exact ⟨h, fun idle => by rw [kept] at idle; cases idle⟩

/-- A step of a drain before its `finally` handler. -/
structure Moved (s t : FileSystemAgentRecordPersistence R E) (drain : Drain R E)
    (failure : Option E) (drain' : Drain R E) : Prop where
  flushPromise : t.flushPromise = s.flushPromise
  drains : t.drains = s.drains
  flushes : t.flushes = s.flushes
  going : drain'.isOver = false
  failure : drain'.failure = failure.or drain.failure
  error : t.error = s.error ∧ drain'.reported = none ∨
    ∃ error, drain = .settled (some error) ∧ t.error = some error ∧ drain' = .caught (some error)

theorem advance_moved (next : s.advance fmt d written drain failure = some (t, drain'))
    (early : ∀ reported, drain ≠ .caught reported) : Moved s t drain failure drain' := by
  have quiet (drain' : Drain R E) (going : drain'.isOver = false) (silent : drain'.reported = none)
      (same : drain'.failure = failure.or drain.failure) (file : Option Bytes) (synced : Bool) :
      Moved s { s with file := file, directorySynced := synced } drain failure drain' :=
    ⟨rfl, rfl, rfl, going, same, .inl ⟨rfl, silent⟩⟩
  cases failure with
  | none =>
    cases drain with
    | offloading | makingDirectory | writing | syncing | syncingDirectory =>
      cases next
      exact quiet _ rfl rfl rfl _ _
    | opening =>
      cases next
      refine quiet _ ?_ ?_ ?_ _ _ <;> split <;> rfl
    | closing thrown =>
      cases next
      cases thrown with
      | none => refine quiet _ ?_ ?_ ?_ _ _ <;> split <;> rfl
      | some => exact quiet _ rfl rfl rfl _ _
    | batchSettled thrown =>
      cases thrown with
      | none =>
        rw [advance, drainPendingRecords_eq] at next
        cases next
        exact ⟨rfl, rfl, rfl, nextDrain_begun.1, failure_nextDrain,
          .inl ⟨rfl, nextDrain_begun.2⟩⟩
      | some =>
        cases next
        exact quiet _ rfl rfl rfl _ _
    | settled thrown =>
      cases thrown with
      | none =>
        cases next
        exact quiet _ rfl rfl rfl _ _
      | some error =>
        cases next
        exact ⟨rfl, rfl, rfl, rfl, rfl, .inr ⟨error, rfl, rfl, rfl⟩⟩
    | caught reported => exact absurd rfl (early reported)
    | finished => cases next
  | some =>
    cases drain with
    | offloading | makingDirectory | opening | writing | syncing | closing | syncingDirectory =>
      cases next
      exact quiet _ rfl rfl rfl _ _
    | batchSettled thrown => cases thrown <;> cases next
    | settled thrown => cases thrown <;> cases next
    | caught => cases next
    | finished => cases next

theorem going_of_advance (next : s.advance fmt d written drain failure = some (t, drain'))
    (early : ∀ reported, drain ≠ .caught reported) :
    drain.isOver = false ∧ drain.reported = none := by
  cases drain with
  | caught reported => exact absurd rfl (early reported)
  | finished => cases failure <;> cases next
  | _ => exact ⟨rfl, rfl⟩

theorem advance_caught {reported : Option E}
    (next : s.advance fmt d written (.caught reported) failure = some (t, drain'))
    (kept : s.flushPromise = some d) :
    drain' = .finished reported ∧
      (t = { s with flushPromise := none } ∧ Drained t ∨
        s.error = none ∧ t = started fmt { s with flushPromise := none }) := by
  cases failure with
  | some => cases next
  | none =>
    rw [advance, if_pos kept] at next
    cases next
    refine ⟨rfl, ?_⟩
    split
    · next queued =>
      exact .inr ⟨Option.isNone_iff_eq_none.1 queued.1, by
        rw [scheduleFlush, ensureFlush_of_none rfl]⟩
    · next empty =>
      exact .inl ⟨rfl, fun _ healthy => by
        simp only [not_and, not_or, not_not] at empty
        simpa using empty (by simpa using healthy)⟩

/-- What holds after every event. -/
structure Inv (s : FileSystemAgentRecordPersistence R E) : Prop where
  drains : Drains s
  drained : Drained s

theorem Inv.start (file : Option Bytes) :
    Inv (start file : FileSystemAgentRecordPersistence R E) where
  drains := by
    refine ⟨?_, ?_, ?_, ?_⟩
    · intro d drain at? _
      cases at?
    · intro d kept
      cases kept
    · intro d drain error at? _
      cases at?
    · intro d drain kept _ _
      cases kept
  drained _ _ := ⟨rfl, rfl⟩

theorem Inv.withFlushes (h : Inv s) (flushes : List (FlushCall E)) :
    Inv { s with flushes := flushes } := ⟨{ h.drains with }, h.drained⟩

theorem Inv.enqueue (h : Inv s) (healthy : s.error = none) (shouldClear : Bool)
    (pendingRecords : List R) :
    Inv (scheduleFlush fmt
      { s with shouldClear := shouldClear, pendingRecords := pendingRecords }) := by
  have queued : Drains { s with shouldClear := shouldClear, pendingRecords := pendingRecords } :=
    { h.drains with }
  exact ⟨(queued.ensureFlush healthy).1, (queued.ensureFlush healthy).2⟩

theorem Inv.flush (h : Inv s) : Inv (s.flush fmt).1 := by
  cases healthy : s.error with
  | some => rwa [flush_of_some healthy]
  | none =>
    rw [flush_of_none healthy, flushLoop]
    split
    · exact ⟨(h.drains.ensureFlush healthy).1, (h.drains.ensureFlush healthy).2⟩
    · exact h

theorem Drains.goes (h : Drains s) (at? : s.drains[d]? = some drain) (going : drain.isOver = false)
    (silent : drain.reported = none) : s.flushPromise = some d ∧ s.error = none := by
  have kept := h.current d drain at? going
  refine ⟨kept, ?_⟩
  by_contra failed
  exact failed ((h.latched d drain kept at? failed).symm.trans silent)

theorem look_set {l : List (Drain R E)} {d d' : ℕ} {drain old : Drain R E} (at? : l[d]? = some old)
    (look : (l.set d drain)[d']? = some drain') :
    d' = d ∧ drain' = drain ∨ d' ≠ d ∧ l[d']? = some drain' := by
  grind

theorem Inv.moved (h : Inv s) (at? : s.drains[d]? = some drain) (going : drain.isOver = false)
    (silent : drain.reported = none) (moved : Moved s t drain failure drain') :
    Inv { t with drains := t.drains.set d drain' } := by
  obtain ⟨kept, healthy⟩ := h.drains.goes at? going silent
  have kept' : t.flushPromise = some d := moved.flushPromise.trans kept
  have at' : t.drains[d]? = some drain := moved.drains ▸ at?
  refine ⟨⟨?_, ?_, ?_, ?_⟩, fun idle => by rw [kept'] at idle; cases idle⟩
  · intro d' other eq goes
    rcases look_set at' eq with ⟨rfl, rfl⟩ | ⟨_, old⟩
    · exact kept'
    · exact moved.flushPromise.trans (h.drains.current d' other (moved.drains ▸ old) goes)
  · intro d' eq
    obtain rfl : d = d' := Option.some.inj (kept'.symm.trans eq)
    have lt : d < t.drains.length := (List.getElem?_eq_some_iff.1 at').1
    exact ⟨drain', List.getElem?_set_self lt, moved.going⟩
  · intro d' other error eq reported
    rcases look_set at' eq with ⟨rfl, rfl⟩ | ⟨_, old⟩
    · rcases moved.error with ⟨_, silent⟩ | ⟨e, rfl, failed, rfl⟩
      · rw [silent] at reported
        cases reported
      · obtain rfl : e = error := Option.some.inj reported
        exact failed
    · have := h.drains.reported d' other error (moved.drains ▸ old) reported
      rw [healthy] at this
      cases this
  · intro d' other eq look failed
    obtain rfl : d = d' := Option.some.inj (kept'.symm.trans eq)
    rcases look_set at' look with ⟨_, rfl⟩ | ⟨different, _⟩
    · rcases moved.error with ⟨same, _⟩ | ⟨e, rfl, told, rfl⟩
      · exact absurd (same.trans healthy) failed
      · exact told.symm
    · exact absurd rfl different

theorem Inv.finish {reported : Option E} (h : Inv s)
    (at? : s.drains[d]? = some (.caught reported)) :
    Drains { s with flushPromise := none, drains := s.drains.set d (.finished reported) } where
  current d' other eq goes := by
    have kept := h.drains.current d _ at? rfl
    rcases look_set at? eq with ⟨rfl, rfl⟩ | ⟨different, old⟩
    · cases goes
    · exact absurd
        (Option.some.inj ((h.drains.current d' other old goes).symm.trans kept)) different
  running d' eq := by cases eq
  reported d' other error eq told := by
    rcases look_set at? eq with ⟨rfl, rfl⟩ | ⟨_, old⟩
    · exact h.drains.reported d' (.caught reported) error at? told
    · exact h.drains.reported d' other error old told
  latched d' other eq := by cases eq

theorem Inv.advance (h : Inv s) (at? : s.drains[d]? = some drain)
    (next : s.advance fmt d written drain failure = some (t, drain')) :
    Inv { t with drains := t.drains.set d drain' } := by
  by_cases late : ∃ reported, drain = .caught reported
  · obtain ⟨reported, rfl⟩ := late
    have finished := h.finish at?
    obtain ⟨rfl, ⟨rfl, drained⟩ | ⟨healthy, rfl⟩⟩ :=
      advance_caught next (h.drains.current d _ at? rfl)
    · exact ⟨finished, drained⟩
    · rw [started_set (s := { s with flushPromise := none }) (List.getElem?_eq_some_iff.1 at?).1]
      exact ⟨finished.started rfl healthy, fun idle => by cases idle⟩
  · have early : ∀ reported, drain ≠ .caught reported := fun reported eq => late ⟨reported, eq⟩
    obtain ⟨going, silent⟩ := going_of_advance next early
    exact h.moved at? going silent (advance_moved next early)

/-- A call that throws changes nothing. -/
theorem step_append {input : R} (next : s.step fmt (.append input) = some t) :
    t = s ∧ s.error ≠ none ∨ s.error = none ∧
      t = scheduleFlush fmt { s with pendingRecords := s.pendingRecords ++ [input] } := by
  unfold step at next
  dsimp only at next
  rcases Option.eq_none_or_eq_some s.error with healthy | ⟨error, failed⟩
  · rw [append_of_none healthy] at next
    exact .inr ⟨healthy, (Option.some.inj next).symm⟩
  · rw [append_of_some failed] at next
    exact .inl ⟨(Option.some.inj next).symm, by simp [failed]⟩

theorem step_rewrite {records : List R} (next : s.step fmt (.rewrite records) = some t) :
    t = s ∧ s.error ≠ none ∨ s.error = none ∧
      t = scheduleFlush fmt { s with shouldClear := true, pendingRecords := records } := by
  unfold step at next
  dsimp only at next
  rcases Option.eq_none_or_eq_some s.error with healthy | ⟨error, failed⟩
  · rw [rewrite_of_none healthy] at next
    exact .inr ⟨healthy, (Option.some.inj next).symm⟩
  · rw [rewrite_of_some failed] at next
    exact .inl ⟨(Option.some.inj next).symm, by simp [failed]⟩

theorem step_flush (next : s.step fmt .flush = some t) :
    t = { (s.flush fmt).1 with flushes := (s.flush fmt).1.flushes ++ [(s.flush fmt).2] } :=
  (Option.some.inj next).symm

theorem step_drain (next : s.step fmt (.drain d failure written) = some t) :
    ∃ drain u drain', s.drains[d]? = some drain ∧
      s.advance fmt d written drain failure = some (u, drain') ∧
      t = { u with drains := u.drains.set d drain' } := by
  obtain ⟨drain, at?, next⟩ := Option.bind_eq_some_iff.1 next
  obtain ⟨⟨u, drain'⟩, advanced, eq⟩ := Option.bind_eq_some_iff.1 next
  exact ⟨drain, u, drain', at?, advanced, (Option.some.inj eq).symm⟩

theorem step_resume {f : ℕ} (next : s.step fmt (.resume f) = some t) :
    ∃ d, s.flushes[f]? = some (.awaiting d) ∧
      ((∃ error, s.drains[d]? = some (.finished (some error)) ∧
          t = { s with flushes := s.flushes.set f (.rejected error) }) ∨
        (s.drains[d]? = some (.finished none) ∧
          t = { (s.flush fmt).1 with
            flushes := (s.flush fmt).1.flushes.set f (s.flush fmt).2 })) := by
  unfold step at next
  dsimp only at next
  split at next
  case h_1 d waits =>
    obtain ⟨⟨u, call⟩, resumed, eq⟩ := Option.bind_eq_some_iff.1 next
    cases eq
    refine ⟨d, waits, ?_⟩
    unfold resumeFlush at resumed
    split at resumed
    case h_1 error ended =>
      cases resumed
      exact .inl ⟨error, ended, rfl⟩
    case h_2 ended =>
      exact .inr ⟨ended, by rw [Option.some.inj resumed]⟩
    case h_3 => cases resumed
  case h_2 => cases next

theorem Inv.step {event : PersistenceEvent R E} (h : Inv s) (next : s.step fmt event = some t) :
    Inv t := by
  cases event with
  | append =>
    obtain ⟨rfl, _⟩ | ⟨healthy, rfl⟩ := step_append next
    · exact h
    · exact h.enqueue healthy s.shouldClear _
  | rewrite records =>
    obtain ⟨rfl, _⟩ | ⟨healthy, rfl⟩ := step_rewrite next
    · exact h
    · exact h.enqueue healthy true records
  | flush =>
    obtain rfl := step_flush next
    exact h.flush.withFlushes _
  | drain =>
    obtain ⟨drain, u, drain', at?, advanced, rfl⟩ := step_drain next
    exact h.advance at? advanced
  | resume =>
    obtain ⟨d, _, ⟨error, _, rfl⟩ | ⟨_, rfl⟩⟩ := step_resume next
    · exact h.withFlushes _
    · exact h.flush.withFlushes _

end FileSystemAgentRecordPersistence

end KimiCli
