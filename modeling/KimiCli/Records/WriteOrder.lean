import KimiCli.Records.Persistence

/-!
# What the write queue writes

The contents of the file once everything queued is written (`eventual`) change with `append` and
`rewrite` only, as long as no I/O step fails; and when a `flush()` resolves, nothing is queued.  An
I/O step that fails ends the queue: its drain rejects, and the error it rejects with is thrown by
every call from then on.
-/

namespace KimiCli

variable {R E : Type}

/-- The contents of the file once the batch of the drain is written. -/
def Drain.leaves (fmt : WireFormat R) (contents : Bytes) : Drain R E → Bytes
  | .offloading shouldClear batch => (if shouldClear then [] else contents) ++ fmt.lines batch
  | .makingDirectory shouldClear content | .opening shouldClear content =>
    (if shouldClear then [] else contents) ++ encodeUtf8 content
  | .writing content => contents ++ encodeUtf8 content
  | _ => contents

/-- What the calls ask for: the previous contents and every appended record after them, or, after a
rewrite, its records. -/
def contentsAfter (fmt : WireFormat R) (contents : Bytes) (events : List (PersistenceEvent R E)) :
    Bytes :=
  events.foldl (fun contents event =>
    match event with
    | .append input => contents ++ fmt.line input
    | .rewrite records => fmt.lines records
    | _ => contents) contents

namespace PersistenceEvent

/-- A call that changes what is to be written. -/
def isWrite : PersistenceEvent R E → Bool
  | .append _ | .rewrite _ => true
  | _ => false

/-- The failure of an I/O step. -/
def failure : PersistenceEvent R E → Option E
  | .drain _ failure _ => failure
  | _ => none

end PersistenceEvent

namespace FileSystemAgentRecordPersistence

variable {fmt : WireFormat R} {s t : FileSystemAgentRecordPersistence R E} {d : ℕ}
  {drain : Drain R E}

/-- The I/O step does not fail. -/
def Succeeds (_ : FileSystemAgentRecordPersistence R E) (event : PersistenceEvent R E) : Prop :=
  event.failure.isNone

instance (s : FileSystemAgentRecordPersistence R E) (event : PersistenceEvent R E) :
    Decidable (Succeeds s event) := inferInstanceAs (Decidable (_ = true))

/-- The kept drain. -/
def kept (s : FileSystemAgentRecordPersistence R E) : Option (Drain R E) :=
  s.flushPromise.bind (s.drains[·]?)

/-- The contents of the file once the batch in flight is written. -/
def inFlight (fmt : WireFormat R) (s : FileSystemAgentRecordPersistence R E) : Bytes :=
  match s.kept with
  | some drain => drain.leaves fmt s.contents
  | none => s.contents

/-- The contents of the file once everything that is queued is written. -/
def eventual (fmt : WireFormat R) (s : FileSystemAgentRecordPersistence R E) : Bytes :=
  (if s.shouldClear then [] else s.inFlight fmt) ++ fmt.lines s.pendingRecords

theorem leaves_nextDrain (contents : Bytes) : (s.nextDrain fmt).leaves fmt contents =
    (if s.shouldClear then [] else contents) ++ fmt.lines s.pendingRecords := by
  unfold nextDrain drainPendingRecords drainBatch
  split
  · dsimp only
    split
    · rfl
    · next noStore =>
      have same : (s.pendingRecords.map fmt.writable) = s.pendingRecords := by
        have writable : fmt.writable = id := by
          funext record
          rw [WireFormat.writable, Option.not_isSome_iff_eq_none.1 noStore]
          rfl
        rw [writable, List.map_id]
      rw [Drain.leaves, ← fmt.encodeUtf8_writable, same]
  · next idle =>
    obtain ⟨keep, empty⟩ : s.shouldClear = false ∧ s.pendingRecords = [] := by simpa using idle
    simp [keep, empty, Drain.leaves]

theorem eventual_started (idle : s.flushPromise = none) :
    (s.started fmt).eventual fmt = s.eventual fmt := by
  have now : (s.started fmt).inFlight fmt = s.eventual fmt := by
    simp only [inFlight, kept, started, Option.bind_some, List.getElem?_concat_length]
    rw [leaves_nextDrain, eventual, inFlight, kept, idle]
    rfl
  rw [eventual, now]
  simp [started]

theorem eventual_ensureFlush : (s.ensureFlush fmt).1.eventual fmt = s.eventual fmt := by
  cases idle : s.flushPromise with
  | none => rw [ensureFlush_of_none idle, eventual_started idle]
  | some => rw [ensureFlush_of_some idle]

theorem eventual_flush : (s.flush fmt).1.eventual fmt = s.eventual fmt := by
  cases healthy : s.error with
  | some => rw [flush_of_some healthy]
  | none =>
    rw [flush_of_none healthy, flushLoop]
    split
    · exact eventual_ensureFlush
    · rfl

theorem leaves_advance {written : ℕ} {drain' : Drain R E}
    (next : s.advance fmt d written drain none = some (t, drain'))
    (early : ∀ reported, drain ≠ .caught reported) :
    (if t.shouldClear then [] else drain'.leaves fmt t.contents) ++ fmt.lines t.pendingRecords =
      (if s.shouldClear then [] else drain.leaves fmt s.contents) ++
        fmt.lines s.pendingRecords := by
  cases drain with
  | offloading =>
    cases next
    simp only [Drain.leaves, fmt.encodeUtf8_writable]
  | makingDirectory | writing | syncing | syncingDirectory =>
    cases next
    rfl
  | opening clear content =>
    cases next
    by_cases some : content.length > 0
    · rw [if_pos some]
      rfl
    · have empty : content = "" := by
        rw [← String.length_eq_zero_iff]
        omega
      rw [if_neg some, empty]
      simp only [openFile, Drain.leaves, FileSystemAgentRecordPersistence.contents, encodeUtf8,
        Option.getD_some, String.toList_empty, encodeChars_nil, List.append_nil]
      rfl
  | closing thrown =>
    cases next
    by_cases directory : thrown.isNone && !s.directorySynced
    · rw [if_pos directory]
      rfl
    · rw [if_neg directory]
      rfl
  | batchSettled thrown =>
    cases thrown with
    | none =>
      rw [advance, drainPendingRecords_eq] at next
      cases next
      rw [leaves_nextDrain]
      simp [Drain.leaves, FileSystemAgentRecordPersistence.contents]
    | some =>
      cases next
      rfl
  | settled thrown =>
    cases thrown <;> obtain ⟨rfl, rfl⟩ := Prod.mk.inj (Option.some.inj next) <;> rfl
  | caught reported => exact absurd rfl (early reported)
  | finished => cases next

theorem eventual_advance {written : ℕ} {drain' : Drain R E} (h : Inv s)
    (at? : s.drains[d]? = some drain)
    (next : s.advance fmt d written drain none = some (t, drain')) :
    eventual fmt { t with drains := t.drains.set d drain' } = s.eventual fmt := by
  have going : drain.isOver = false := by
    cases drain with
    | finished => cases next
    | _ => rfl
  have promise := h.drains.current d drain at? going
  have flight : s.inFlight fmt = drain.leaves fmt s.contents := by
    simp [inFlight, kept, promise, at?]
  have lt : d < s.drains.length := (List.getElem?_eq_some_iff.1 at?).1
  by_cases late : ∃ reported, drain = .caught reported
  · obtain ⟨reported, rfl⟩ := late
    have ended (u : FileSystemAgentRecordPersistence R E)
        (eq : u = { s with flushPromise := none, drains := s.drains.set d (.finished reported) }) :
        u.eventual fmt = s.eventual fmt := by
      rw [eventual, eventual, flight, eq]
      rfl
    obtain ⟨rfl, ⟨rfl, _⟩ | ⟨_, rfl⟩⟩ := advance_caught next promise
    · exact ended _ rfl
    · rw [started_set (s := { s with flushPromise := none }) lt, eventual_started rfl]
      exact ended _ rfl
  · have early : ∀ reported, drain ≠ .caught reported := fun reported eq => late ⟨reported, eq⟩
    have moved := advance_moved next early
    have lt' : d < t.drains.length := by rwa [moved.drains]
    have flight' : inFlight fmt { t with drains := t.drains.set d drain' } =
        drain'.leaves fmt t.contents := by
      simp [inFlight, kept, moved.flushPromise.trans promise, List.getElem?_set_self lt',
        FileSystemAgentRecordPersistence.contents]
    rw [eventual, eventual, flight, flight']
    have written := leaves_advance next early
    exact written

/-! ## Runs without a failing step -/

/-- No drain carries a failure. -/
structure Healthy (s : FileSystemAgentRecordPersistence R E) : Prop where
  error : s.error = none
  drains : ∀ drain ∈ s.drains, drain.failure = none

theorem Healthy.started (h : Healthy s) : Healthy (s.started fmt) where
  error := h.error
  drains drain mem := by
    rcases List.mem_append.1 mem with old | new
    · exact h.drains drain old
    · rw [List.mem_singleton.1 new]
      exact failure_nextDrain

theorem Healthy.ensureFlush (h : Healthy s) : Healthy (s.ensureFlush fmt).1 := by
  cases idle : s.flushPromise with
  | none =>
    rw [ensureFlush_of_none idle]
    exact h.started
  | some => rwa [ensureFlush_of_some idle]

theorem Healthy.flush (h : Healthy s) : Healthy (s.flush fmt).1 := by
  rw [flush_of_none h.error, flushLoop]
  split
  · exact h.ensureFlush
  · exact h

theorem Healthy.advance {written : ℕ} {drain' : Drain R E} (inv : Inv s) (h : Healthy s)
    (at? : s.drains[d]? = some drain)
    (next : s.advance fmt d written drain none = some (t, drain')) :
    Healthy { t with drains := t.drains.set d drain' } := by
  have sound := h.drains drain (List.mem_of_getElem? at?)
  by_cases late : ∃ reported, drain = .caught reported
  · obtain ⟨reported, rfl⟩ := late
    have ended : Healthy { s with
        flushPromise := none
        drains := s.drains.set d (.finished reported) } := by
      refine ⟨h.error, fun other mem => ?_⟩
      rcases List.mem_or_eq_of_mem_set mem with old | rfl
      · exact h.drains other old
      · exact sound
    obtain ⟨rfl, ⟨rfl, _⟩ | ⟨_, rfl⟩⟩ := advance_caught next (inv.drains.current d _ at? rfl)
    · exact ended
    · rw [started_set (s := { s with flushPromise := none }) (List.getElem?_eq_some_iff.1 at?).1]
      exact ended.started
  · have early : ∀ reported, drain ≠ .caught reported := fun reported eq => late ⟨reported, eq⟩
    have moved := advance_moved next early
    refine ⟨?_, fun other mem => ?_⟩
    · rcases moved.error with ⟨same, _⟩ | ⟨error, rfl, _, _⟩
      · exact same.trans h.error
      · cases sound
    · rcases List.mem_or_eq_of_mem_set mem with old | rfl
      · exact h.drains other (moved.drains ▸ old)
      · exact moved.failure.trans sound

theorem contentsAfter_concat (contents : Bytes) (events : List (PersistenceEvent R E))
    (event : PersistenceEvent R E) : contentsAfter fmt contents (events ++ [event]) =
      contentsAfter fmt (contentsAfter fmt contents events) [event] := List.foldl_append

variable {event : PersistenceEvent R E}

/-- After every event that does not fail, what is queued and in flight is what the calls ask for. -/
theorem Healthy.step (inv : Inv s) (h : Healthy s) (succeeds : Succeeds s event)
    (next : s.step fmt event = some t) :
    Healthy t ∧ t.eventual fmt = contentsAfter fmt (s.eventual fmt) [event] := by
  cases event with
  | append =>
    obtain ⟨_, failed⟩ | ⟨_, rfl⟩ := step_append next
    · exact absurd h.error failed
    · refine ⟨Healthy.ensureFlush { h with }, ?_⟩
      rw [scheduleFlush, eventual_ensureFlush, eventual]
      simp [contentsAfter, eventual, WireFormat.lines, inFlight, kept,
        FileSystemAgentRecordPersistence.contents]
  | rewrite =>
    obtain ⟨_, failed⟩ | ⟨_, rfl⟩ := step_rewrite next
    · exact absurd h.error failed
    · refine ⟨Healthy.ensureFlush { h with }, ?_⟩
      rw [scheduleFlush, eventual_ensureFlush, eventual]
      simp [contentsAfter]
  | flush =>
    obtain rfl := step_flush next
    exact ⟨{ Healthy.flush h with }, eventual_flush⟩
  | drain d failure =>
    obtain rfl : failure = none := Option.isNone_iff_eq_none.1 succeeds
    obtain ⟨drain, u, drain', at?, advanced, rfl⟩ := step_drain next
    exact ⟨h.advance inv at? advanced, eventual_advance inv at? advanced⟩
  | resume =>
    obtain ⟨d, _, ⟨error, _, rfl⟩ | ⟨_, rfl⟩⟩ := step_resume next
    · exact ⟨{ h with }, rfl⟩
    · exact ⟨{ Healthy.flush h with }, eventual_flush⟩

/-! ## After a flush -/

/-- Nothing is queued and no drain is kept. -/
structure Idle (s : FileSystemAgentRecordPersistence R E) : Prop where
  flushPromise : s.flushPromise = none
  shouldClear : s.shouldClear = false
  pendingRecords : s.pendingRecords = []

theorem Idle.eventual (h : Idle s) : s.eventual fmt = s.contents := by
  simp [FileSystemAgentRecordPersistence.eventual, inFlight, kept, h.flushPromise, h.shouldClear,
    h.pendingRecords]

theorem Idle.flush (h : Idle s) : (s.flush fmt).1 = s := by
  cases healthy : s.error with
  | some => rw [flush_of_some healthy]
  | none =>
    rw [flush_of_none healthy, flushLoop, if_neg]
    simp [h.flushPromise, h.shouldClear, h.pendingRecords]

theorem idle_of_flush (resolved : (s.flush fmt).2 = .resolved) :
    Idle s ∧ (s.flush fmt).1 = s := by
  cases healthy : s.error with
  | some =>
    rw [flush_of_some healthy] at resolved
    cases resolved
  | none =>
    rw [flush_of_none healthy, flushLoop] at resolved ⊢
    split at resolved
    · cases resolved
    · next idle =>
      rw [if_neg idle]
      simp only [not_or, not_not, Bool.not_eq_true] at idle
      exact ⟨⟨idle.1, idle.2.1, idle.2.2⟩, rfl⟩

/-- Until the next write everything stays as it is. -/
theorem Idle.step (inv : Inv s) (h : Idle s) (quiet : event.isWrite = false)
    (next : s.step fmt event = some t) :
    Idle t ∧ t.contents = s.contents := by
  cases event with
  | append => cases quiet
  | rewrite => cases quiet
  | flush =>
    obtain rfl := step_flush next
    rw [h.flush]
    exact ⟨{ h with }, rfl⟩
  | drain d failure =>
    obtain ⟨drain, u, drain', at?, advanced, rfl⟩ := step_drain next
    have going : drain.isOver = false := by
      cases drain with
      | finished => cases failure <;> cases advanced
      | _ => rfl
    have kept := inv.drains.current d drain at? going
    rw [h.flushPromise] at kept
    cases kept
  | resume =>
    obtain ⟨d, _, ⟨error, _, rfl⟩ | ⟨_, rfl⟩⟩ := step_resume next
    · exact ⟨{ h with }, rfl⟩
    · rw [h.flush]
      exact ⟨{ h with }, rfl⟩

theorem flushes_ensureFlush : (s.ensureFlush fmt).1.flushes = s.flushes := by
  cases idle : s.flushPromise with
  | none => rw [ensureFlush_of_none idle]; rfl
  | some => rw [ensureFlush_of_some idle]

theorem flushes_flush : (s.flush fmt).1.flushes = s.flushes := by
  cases healthy : s.error with
  | some => rw [flush_of_some healthy]
  | none =>
    rw [flush_of_none healthy, flushLoop]
    split
    · exact flushes_ensureFlush
    · rfl

theorem flushes_advance {written : ℕ} {failure : Option E} {drain' : Drain R E} (inv : Inv s)
    (at? : s.drains[d]? = some drain)
    (next : s.advance fmt d written drain failure = some (t, drain')) : t.flushes = s.flushes := by
  by_cases late : ∃ reported, drain = .caught reported
  · obtain ⟨reported, rfl⟩ := late
    obtain ⟨_, ⟨rfl, _⟩ | ⟨_, rfl⟩⟩ := advance_caught next (inv.drains.current d _ at? rfl) <;> rfl
  · exact (advance_moved next fun reported eq => late ⟨reported, eq⟩).flushes

theorem idle_of_resolved {f : ℕ} (inv : Inv s) (next : s.step fmt event = some t)
    (before : s.flushes[f]? ≠ some .resolved) (after : t.flushes[f]? = some .resolved) :
    Idle t := by
  have changed : t.flushes ≠ s.flushes := fun same => before (same ▸ after)
  cases event with
  | append =>
    obtain ⟨rfl, _⟩ | ⟨_, rfl⟩ := step_append next
    · exact absurd rfl changed
    · exact absurd flushes_ensureFlush changed
  | rewrite =>
    obtain ⟨rfl, _⟩ | ⟨_, rfl⟩ := step_rewrite next
    · exact absurd rfl changed
    · exact absurd flushes_ensureFlush changed
  | flush =>
    obtain rfl := step_flush next
    have resolved : (s.flush fmt).2 = .resolved := by
      rw [flushes_flush] at after
      grind
    obtain ⟨idle, same⟩ := idle_of_flush resolved
    rw [same]
    exact { idle with }
  | drain =>
    obtain ⟨drain, u, drain', at?, advanced, rfl⟩ := step_drain next
    exact absurd (flushes_advance inv at? advanced) changed
  | resume =>
    obtain ⟨d, _, ⟨error, _, rfl⟩ | ⟨_, rfl⟩⟩ := step_resume next
    · grind
    · have resolved : (s.flush fmt).2 = .resolved := by
        rw [flushes_flush] at after
        grind
      obtain ⟨idle, same⟩ := idle_of_flush resolved
      rw [same]
      exact { idle with }

/-! ## After a failure -/

/-- Every call throws `error`, and so does every flush that still waits, once it goes on. -/
structure Throws (fmt : WireFormat R) (s : FileSystemAgentRecordPersistence R E) (error : E) :
    Prop where
  append : ∀ input, s.append fmt input = .error error
  rewrite : ∀ records, s.rewrite fmt records = .error error
  flush : s.flush fmt = (s, .rejected error)
  waiting : ∀ (f d : ℕ) (t : FileSystemAgentRecordPersistence R E) (call : FlushCall E),
    s.flushes[f]? = some (.awaiting d) → s.resumeFlush fmt d = some (t, call) →
      call = .rejected error

theorem Inv.throws {error : E} (inv : Inv s) (failed : s.error = some error) :
    Throws fmt s error where
  append := append_of_some failed
  rewrite := rewrite_of_some failed
  flush := flush_of_some failed
  waiting _ d t call _ resumed := by
    unfold resumeFlush at resumed
    split at resumed
    case h_1 thrown ended =>
      cases resumed
      have told := inv.drains.reported d _ thrown ended rfl
      rw [Option.some.inj (told.symm.trans failed)]
    case h_2 =>
      rw [flush_of_some failed] at resumed
      exact (Prod.mk.inj (Option.some.inj resumed)).2.symm
    case h_3 => cases resumed

/-- The failure of the I/O step of drain `d` that the event reports. -/
def failureAt (d : ℕ) : PersistenceEvent R E → Option E
  | .drain d' failure _ => if d' = d then failure else none
  | _ => none

theorem getElem?_started (at? : s.drains[d]? = some drain) :
    (s.started fmt).drains[d]? = some drain := by
  have lt : d < s.drains.length := (List.getElem?_eq_some_iff.1 at?).1
  rw [started, List.getElem?_append_left lt, at?]

theorem getElem?_ensureFlush (at? : s.drains[d]? = some drain) :
    (s.ensureFlush fmt).1.drains[d]? = some drain := by
  cases idle : s.flushPromise with
  | none =>
    rw [ensureFlush_of_none idle]
    exact getElem?_started at?
  | some => rwa [ensureFlush_of_some idle]

theorem getElem?_flush (at? : s.drains[d]? = some drain) :
    (s.flush fmt).1.drains[d]? = some drain := by
  cases healthy : s.error with
  | some => rwa [flush_of_some healthy]
  | none =>
    rw [flush_of_none healthy, flushLoop]
    split
    · exact getElem?_ensureFlush at?
    · exact at?

theorem failure_advance {d' written : ℕ} {failure : Option E} {other drain' : Drain R E}
    (inv : Inv s) (at? : s.drains[d]? = some drain) (at' : s.drains[d']? = some other)
    (next : s.advance fmt d' written other failure = some (t, drain')) :
    ∃ drain'' : Drain R E, (t.drains.set d' drain')[d]? = some drain'' ∧
      drain''.failure = (if d' = d then failure else none).or drain.failure := by
  have same : t.drains[d]? = some drain ∧ drain'.failure = failure.or other.failure := by
    by_cases late : ∃ reported, other = .caught reported
    · obtain ⟨reported, rfl⟩ := late
      obtain ⟨rfl, outcome⟩ := advance_caught next (inv.drains.current d' _ at' rfl)
      cases failure with
      | some => cases next
      | none =>
        refine ⟨?_, rfl⟩
        rcases outcome with ⟨rfl, _⟩ | ⟨_, rfl⟩
        · exact at?
        · exact getElem?_started at?
    · have moved := advance_moved next fun reported eq => late ⟨reported, eq⟩
      exact ⟨moved.drains ▸ at?, moved.failure⟩
  by_cases eq : d' = d
  · subst eq
    have lt : d' < t.drains.length := (List.getElem?_eq_some_iff.1 same.1).1
    obtain rfl : drain = other := Option.some.inj (at?.symm.trans at')
    exact ⟨drain', List.getElem?_set_self lt, by rw [if_pos rfl, same.2]⟩
  · exact ⟨drain, by rw [List.getElem?_set_ne eq, same.1], by rw [if_neg eq]; rfl⟩

theorem failure_step (inv : Inv s) (at? : s.drains[d]? = some drain)
    (next : s.step fmt event = some t) :
    ∃ drain' : Drain R E, t.drains[d]? = some drain' ∧
      drain'.failure = (failureAt d event).or drain.failure := by
  cases event with
  | append =>
    obtain ⟨rfl, _⟩ | ⟨_, rfl⟩ := step_append next
    · exact ⟨drain, at?, rfl⟩
    · exact ⟨drain, getElem?_ensureFlush at?, rfl⟩
  | rewrite =>
    obtain ⟨rfl, _⟩ | ⟨_, rfl⟩ := step_rewrite next
    · exact ⟨drain, at?, rfl⟩
    · exact ⟨drain, getElem?_ensureFlush at?, rfl⟩
  | flush =>
    obtain rfl := step_flush next
    exact ⟨drain, getElem?_flush at?, rfl⟩
  | drain =>
    obtain ⟨other, u, drain', at', advanced, rfl⟩ := step_drain next
    exact failure_advance inv at? at' advanced
  | resume =>
    obtain ⟨d', _, ⟨error, _, rfl⟩ | ⟨_, rfl⟩⟩ := step_resume next
    · exact ⟨drain, at?, rfl⟩
    · exact ⟨drain, getElem?_flush at?, rfl⟩

/-! ## The law of the queue -/

/-- A run without a failing step in which a flush resolves after the last write. -/
inductive FlushedRun (fmt : WireFormat R) (file : Option Bytes) :
    List (PersistenceEvent R E) → FileSystemAgentRecordPersistence R E → Prop
  | intro {before after : List (PersistenceEvent R E)} {event : PersistenceEvent R E}
      {s s' t : FileSystemAgentRecordPersistence R E} {f : ℕ}
      (run : Transition.Run (step fmt) Succeeds (start file) before s)
      (succeeds : Succeeds s event) (next : s.step fmt event = some s')
      (unresolved : s.flushes[f]? ≠ some .resolved) (resolved : s'.flushes[f]? = some .resolved)
      (rest : Transition.Run (step fmt) Succeeds s' after t)
      (quiet : ∀ later ∈ after, later.isWrite = false) :
      FlushedRun fmt file (before ++ event :: after) t

theorem FlushedRun.of_exec {file : Option Bytes} {events : List (PersistenceEvent R E)}
    (quiet : ((Transition.exec (Transition.guarded (step fmt) Succeeds) (start file) events).any
      fun s => s.flushes.isEmpty && (s.flush fmt).2.isResolved) = true) :
    ∃ t, FlushedRun fmt file (events ++ [.flush]) t := by
  obtain ⟨s, run, ends⟩ := (Option.any_eq_true ..).1 quiet
  obtain ⟨empty, resolved⟩ := (Bool.and_eq_true ..).mp ends
  have none : s.flushes = [] := List.isEmpty_iff.1 empty
  have next : s.step fmt .flush = some { (s.flush fmt).1 with
      flushes := (s.flush fmt).1.flushes ++ [(s.flush fmt).2] } := rfl
  refine ⟨_, .intro (f := 0) (.of_exec run) rfl next (by simp [none]) ?_ .nil (by simp)⟩
  have call : (s.flush fmt).2 = .resolved := by
    revert resolved
    cases (s.flush fmt).2 with
    | resolved => exact fun _ => rfl
    | awaiting | rejected => exact fun resolved => by cases resolved
  rw [flushes_flush, none, call]
  rfl

/-- What holds of every run over a file with the bytes `file`. -/
structure WriteQueueLaw (fmt : WireFormat R) (E : Type) (file : Option Bytes) : Prop where
  /-- At most one `drainBatch` is in progress. -/
  single : ∀ (events : List (PersistenceEvent R E)) s,
    Transition.Run (step fmt) Transition.Always (start file) events s →
    ∀ (d d' : ℕ) (drain drain' : Drain R E),
      s.drains[d]? = some drain → s.drains[d']? = some drain' → drain.inBatch → drain'.inBatch →
        d = d'
  /-- If no I/O step fails, then once a flush has resolved and until the next write the file holds
  what the calls ask for. -/
  written : ∀ (events : List (PersistenceEvent R E)) t, FlushedRun fmt file events t →
    t.contents = contentsAfter fmt (file.getD []) events
  /-- If an I/O step of a drain fails, the drain ends with that failure, or with one that comes
  after it in the same drain, and once its `catch` handler has run every call throws it. -/
  failed : ∀ (before : List (PersistenceEvent R E)) s d error written s' after t,
    Transition.Run (step fmt) Transition.Always (start file) before s →
    s.step fmt (.drain d (some error) written) = some s' →
    Transition.Run (step fmt) Transition.Always s' after t →
      ∃ thrown, (thrown = error ∨ ∃ event ∈ after, failureAt d event = some thrown) ∧
        ∃ drain : Drain R E, t.drains[d]? = some drain ∧ drain.failure = some thrown ∧
          (drain.reported.isSome → Throws fmt t thrown)

theorem inv_of_run {ok : FileSystemAgentRecordPersistence R E → PersistenceEvent R E → Prop}
    {events : List (PersistenceEvent R E)} (inv : Inv s)
    (run : Transition.Run (step fmt) ok s events t) : Inv t :=
  run.invariant Inv inv fun _ _ _ h _ next => h.step next

theorem inBatch_going (h : drain.inBatch = true) : drain.isOver = false := by
  cases drain with
  | finished => cases h
  | _ => rfl

/-- What a run without a failing step asks for is written or on its way. -/
theorem healthy_of_run {events : List (PersistenceEvent R E)} {file : Option Bytes}
    (run : Transition.Run (step fmt) Succeeds (start file) events s) :
    Inv s ∧ Healthy s ∧ s.eventual fmt = contentsAfter fmt (file.getD []) events := by
  refine run.invariant_labels
    (fun events s => Inv s ∧ Healthy s ∧ s.eventual fmt = contentsAfter fmt (file.getD []) events)
    ⟨.start file, ⟨rfl, fun _ mem => by cases mem⟩, ?_⟩ ?_
  · exact Idle.eventual ⟨rfl, rfl, rfl⟩
  · intro events s event t ⟨inv, healthy, eq⟩ succeeds next
    obtain ⟨healthy', eq'⟩ := healthy.step inv succeeds next
    exact ⟨inv.step next, healthy', by rw [eq', eq, ← contentsAfter_concat]⟩

theorem idle_of_run {events : List (PersistenceEvent R E)} (inv : Inv s) (idle : Idle s)
    (run : Transition.Run (step fmt) Succeeds s events t)
    (quiet : ∀ event ∈ events, event.isWrite = false) : Idle t ∧ t.contents = s.contents := by
  refine (run.invariant_labels (fun events t => (∀ event ∈ events, event.isWrite = false) →
    Inv t ∧ Idle t ∧ t.contents = s.contents) (fun _ => ⟨inv, idle, rfl⟩) ?_ quiet).2
  intro events u event v ih _ next quiet
  obtain ⟨inv, idle, same⟩ := ih fun event mem => quiet event (List.mem_append_left _ mem)
  obtain ⟨idle', same'⟩ := idle.step inv (quiet event (by simp)) next
  exact ⟨inv.step next, idle', same'.trans same⟩

theorem contentsAfter_of_quiet (contents : Bytes) {events : List (PersistenceEvent R E)}
    (quiet : ∀ event ∈ events, event.isWrite = false) :
    contentsAfter fmt contents events = contents := by
  induction events with
  | nil => rfl
  | cons event events ih =>
    have silent := quiet event (List.mem_cons_self ..)
    have rest := ih fun event mem => quiet event (List.mem_cons_of_mem _ mem)
    cases event with
    | append => cases silent
    | rewrite => cases silent
    | _ => exact rest

/-- A drain that carries a failure goes on carrying one. -/
theorem failure_of_run {ok : FileSystemAgentRecordPersistence R E → PersistenceEvent R E → Prop}
    {events : List (PersistenceEvent R E)} {error : E} (inv : Inv s)
    (at? : s.drains[d]? = some drain) (failed : drain.failure = some error)
    (run : Transition.Run (step fmt) ok s events t) :
    ∃ thrown, (thrown = error ∨ ∃ event ∈ events, failureAt d event = some thrown) ∧
      ∃ drain : Drain R E, t.drains[d]? = some drain ∧ drain.failure = some thrown := by
  refine (run.invariant_labels (fun events t => Inv t ∧
    ∃ thrown, (thrown = error ∨ ∃ event ∈ events, failureAt d event = some thrown) ∧
      ∃ drain : Drain R E, t.drains[d]? = some drain ∧ drain.failure = some thrown)
    ⟨inv, error, .inl rfl, drain, at?, failed⟩ ?_).2
  rintro events u event v ⟨inv, thrown, source, drain, at?, failed⟩ _ next
  refine ⟨inv.step next, ?_⟩
  obtain ⟨drain', at', carried⟩ := failure_step inv at? next
  cases fresh : failureAt d event with
  | some error' =>
    exact ⟨error', .inr ⟨event, by simp, fresh⟩, drain', at', by rw [carried, fresh]; rfl⟩
  | none =>
    refine ⟨thrown, ?_, drain', at', by rw [carried, fresh, failed]; rfl⟩
    rcases source with rfl | ⟨earlier, mem, eq⟩
    · exact .inl rfl
    · exact .inr ⟨earlier, List.mem_append_left _ mem, eq⟩

theorem reported_eq_failure (told : drain.reported.isSome) : drain.reported = drain.failure := by
  cases drain with
  | caught => rfl
  | finished => rfl
  | _ => cases told

theorem contents_of_flushed {file : Option Bytes} {events : List (PersistenceEvent R E)}
    (h : FlushedRun fmt file events t) :
    t.contents = contentsAfter fmt (file.getD []) events := by
  obtain @⟨before, after, event, s, s', t, f, run, succeeds, next, unresolved, resolved, rest,
    quiet⟩ := h
  obtain ⟨inv, healthy, eq⟩ := healthy_of_run run
  have idle := idle_of_resolved inv next unresolved resolved
  obtain ⟨_, eq'⟩ := healthy.step inv succeeds next
  calc t.contents = s'.contents := (idle_of_run (inv.step next) idle rest quiet).2
    _ = s'.eventual fmt := idle.eventual.symm
    _ = contentsAfter fmt (file.getD []) (before ++ [event]) := by
      rw [eq', eq, ← contentsAfter_concat]
    _ = contentsAfter fmt (file.getD []) ((before ++ [event]) ++ after) := by
      rw [contentsAfter, contentsAfter, List.foldl_append (l := before ++ [event])]
      exact (contentsAfter_of_quiet _ quiet).symm
    _ = contentsAfter fmt (file.getD []) (before ++ event :: after) := by
      rw [List.append_assoc, List.singleton_append]

theorem writeQueueLaw (fmt : WireFormat R) (file : Option Bytes) : WriteQueueLaw fmt E file where
  single events s run d d' drain drain' at? at' busy busy' := by
    have inv := inv_of_run (Inv.start file) run
    exact Option.some.inj ((inv.drains.current d drain at? (inBatch_going busy)).symm.trans
      (inv.drains.current d' drain' at' (inBatch_going busy')))
  written _ _ flushed := contents_of_flushed flushed
  failed before s d error written s' after t run next rest := by
    have inv := inv_of_run (Inv.start file) run
    obtain ⟨drain, _, _, at?, _, _⟩ := step_drain next
    obtain ⟨drain', at', carried⟩ := failure_step inv at? next
    have failed : drain'.failure = some error := by
      rw [carried, failureAt, if_pos rfl]
      rfl
    obtain ⟨thrown, source, drain, at?, failed⟩ := failure_of_run (inv.step next) at' failed rest
    have inv' := inv_of_run (inv.step next) rest
    refine ⟨thrown, source, drain, at?, failed, fun told => ?_⟩
    exact inv'.throws (inv'.drains.reported d drain thrown at?
      ((reported_eq_failure told).trans failed))

/-- A record is accepted while a drain whose write has failed still closes the file. -/
theorem append_whileClosing :
    ∃ s t u : FileSystemAgentRecordPersistence String String,
      Transition.exec (step ⟨none, id⟩) (start none)
        [.append "a", .drain 0 none 0, .drain 0 none 0] = some s ∧
      s.step ⟨none, id⟩ (.drain 0 (some "EIO") 0) = some t ∧
      t.append ⟨none, id⟩ "b" = .ok u :=
  ⟨_, _, _, rfl, rfl, rfl⟩

end FileSystemAgentRecordPersistence

end KimiCli
