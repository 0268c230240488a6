import KimiCli.Js.Text
import KimiCli.Js.Utf8
import KimiCli.Lib.Run

/-!
# The output log of a background task

The part of `agent-core/src/agent/background/index.ts` that handles the output of one task, for a
manager with a persistence whose appends succeed.  A foreground task keeps its output in memory
until it is detached, is asked to persist, or has too much of it; from then on every chunk is
appended to `output.log`, one append after the other.
-/

namespace KimiCli

def maxOutputBytes : ℕ := 1024 * 1024

/-- A `ManagedTask`, with its log, and with what has happened to its output. -/
structure OutputTask where
  /-- `foregroundRelease === undefined` -/
  detached : Bool
  /-- The status is terminal. -/
  ended : Bool := false
  outputChunks : List String := []
  outputSizeBytes : ℕ := 0
  pendingOutput : List String := []
  pendingOutputBytes : ℕ := 0
  outputPersistStarted : Bool
  /-- The appends that are still to come. -/
  outputWriteQueue : List String := []
  /-- The bytes of `output.log`. -/
  log : Bytes := []
  /-- All chunks that have arrived. -/
  chunks : List String := []
  /-- The chunks whose buffer `finalizeTask` has released. -/
  released : List String := []

inductive OutputStep
  | appendOutput (chunk : String)
  | detach
  | persistOutput
  | finalizeTask
  /-- The first append of the queue. -/
  | write

/-- The loop that drops the oldest chunks. -/
def trimChunks : List String → List String
  | [] => []
  | [chunk] => [chunk]
  | chunk :: next :: chunks =>
    let total := ((chunk :: next :: chunks).map fun chunk => utf16Length chunk.toList).sum
    if maxOutputBytes < total then trimChunks (next :: chunks) else chunk :: next :: chunks

def bytesOf (chunks : List String) : Bytes := chunks.flatMap encodeUtf8

namespace OutputTask

open Transition

variable (s : OutputTask)

/-- `registerTask` -/
def registered (detached : Bool) : OutputTask := { detached, outputPersistStarted := detached }

def appendTaskOutput (chunk : String) : OutputTask :=
  { s with outputWriteQueue := s.outputWriteQueue ++ [chunk] }

def startOutputPersist : OutputTask :=
  if s.outputPersistStarted then s
  else
    let s := { s with outputPersistStarted := true }
    let s := if s.pendingOutput ≠ [] then s.appendTaskOutput (String.join s.pendingOutput) else s
    { s with pendingOutput := [], pendingOutputBytes := 0 }

def appendOutput (chunk : String) : OutputTask :=
  let s :=
    { s with
      chunks := s.chunks ++ [chunk]
      outputSizeBytes := s.outputSizeBytes + (encodeUtf8 chunk).length
      outputChunks := trimChunks (s.outputChunks ++ [chunk]) }
  if s.outputPersistStarted then s.appendTaskOutput chunk
  else
    let s :=
      { s with
        pendingOutput := s.pendingOutput ++ [chunk]
        pendingOutputBytes := s.pendingOutputBytes + (encodeUtf8 chunk).length }
    if maxOutputBytes < s.pendingOutputBytes then s.startOutputPersist else s

def detach : OutputTask :=
  if s.ended then s
  else if s.detached then s
  else { s with detached := true }.startOutputPersist

def finalizeTask : OutputTask :=
  let s := { s with ended := true }
  if s.outputPersistStarted then s
  else { s with released := s.pendingOutput, pendingOutput := [], pendingOutputBytes := 0 }

def step : OutputStep → Option OutputTask
  | .appendOutput chunk => some (s.appendOutput chunk)
  | .detach => some s.detach
  | .persistOutput => some s.startOutputPersist
  | .finalizeTask => if s.ended then none else some s.finalizeTask
  | .write =>
    match s.outputWriteQueue with
    | [] => none
    | chunk :: chunks =>
      some { s with log := s.log ++ encodeUtf8 chunk, outputWriteQueue := chunks }

/-- The task when its queue has drained. -/
def drain : OutputTask :=
  { s with log := s.log ++ bytesOf s.outputWriteQueue, outputWriteQueue := [] }

/-! ## What a step keeps -/

/-- Where the output is: every byte that has arrived was released, or is in the log, on its way
there, or in memory. -/
structure Books : Prop where
  bytes : bytesOf s.chunks =
    bytesOf s.released ++ (s.log ++ bytesOf s.outputWriteQueue ++ bytesOf s.pendingOutput)
  started : s.outputPersistStarted = true → s.pendingOutput = []
  waiting : s.outputPersistStarted = false →
    s.log = [] ∧ s.outputWriteQueue = [] ∧ s.chunks = s.released ++ s.pendingOutput
  running : s.ended = false → s.released = []
  tail : s.outputChunks <:+ s.chunks

variable {s} {t : OutputTask}

theorem bytesOf_append (chunks more : List String) :
    bytesOf (chunks ++ more) = bytesOf chunks ++ bytesOf more := List.flatMap_append

/-- The buffer as one append, if there is any. -/
def joined (pending : List String) : List String :=
  if pending ≠ [] then [String.join pending] else []

theorem encodeUtf8_join (chunks : List String) :
    encodeUtf8 (String.join chunks) = bytesOf chunks := by
  induction chunks with
  | nil => rfl
  | cons chunk chunks ih =>
    rw [String.join_cons, encodeUtf8_append, ih]
    rfl

theorem bytesOf_joined (pending : List String) : bytesOf (joined pending) = bytesOf pending := by
  unfold joined
  split
  case isTrue => exact (List.flatMap_singleton ..).trans (encodeUtf8_join pending)
  case isFalse none => rw [not_not.1 none]

theorem startOutputPersist_eq (notStarted : s.outputPersistStarted = false) :
    s.startOutputPersist =
      { s with
        outputPersistStarted := true
        outputWriteQueue := s.outputWriteQueue ++ joined s.pendingOutput
        pendingOutput := [], pendingOutputBytes := 0 } := by
  unfold startOutputPersist joined
  rw [notStarted, if_neg Bool.false_ne_true]
  dsimp only
  split
  · rfl
  · rw [List.append_nil]

theorem trimChunks_suffix : ∀ chunks : List String, trimChunks chunks <:+ chunks
  | [] => List.suffix_rfl
  | [_] => List.suffix_rfl
  | chunk :: next :: chunks => by
    rw [trimChunks]
    split
    · exact (trimChunks_suffix (next :: chunks)).trans (List.suffix_cons _ _)
    · exact List.suffix_rfl

theorem books_registered (detached : Bool) : (registered detached).Books :=
  ⟨rfl, fun _ => rfl, fun _ => ⟨rfl, rfl, rfl⟩, fun _ => rfl, List.suffix_rfl⟩

theorem Books.startOutputPersist (books : s.Books) : s.startOutputPersist.Books := by
  cases started : s.outputPersistStarted with
  | true => rwa [OutputTask.startOutputPersist, if_pos started]
  | false =>
    obtain ⟨log, queue, -⟩ := books.waiting started
    rw [startOutputPersist_eq started]
    refine ⟨?_, fun _ => rfl, fun no => (nomatch no), books.running, books.tail⟩
    rw [books.bytes, bytesOf_append, bytesOf_joined]
    exact congrArg _ (by rw [← List.append_assoc]; exact (List.append_nil _).symm)

/-- A chunk, before it is looked at whether there are too many. -/
def buffer (s : OutputTask) (chunk : String) : OutputTask :=
  { s with
    chunks := s.chunks ++ [chunk]
    outputSizeBytes := s.outputSizeBytes + (encodeUtf8 chunk).length
    outputChunks := trimChunks (s.outputChunks ++ [chunk])
    pendingOutput := s.pendingOutput ++ [chunk]
    pendingOutputBytes := s.pendingOutputBytes + (encodeUtf8 chunk).length }

theorem appendOutput_started (started : s.outputPersistStarted = true) (chunk : String) :
    s.appendOutput chunk =
      { s with
        chunks := s.chunks ++ [chunk]
        outputSizeBytes := s.outputSizeBytes + (encodeUtf8 chunk).length
        outputChunks := trimChunks (s.outputChunks ++ [chunk]) }.appendTaskOutput chunk := by
  unfold appendOutput
  exact if_pos started

theorem appendOutput_buffer (notStarted : s.outputPersistStarted = false) (chunk : String) :
    s.appendOutput chunk =
      if maxOutputBytes < (s.buffer chunk).pendingOutputBytes then
        (s.buffer chunk).startOutputPersist
      else s.buffer chunk := by
  unfold appendOutput
  exact if_neg (Bool.eq_false_iff.1 notStarted)

theorem tail_appendOutput (books : s.Books) (chunk : String) :
    trimChunks (s.outputChunks ++ [chunk]) <:+ s.chunks ++ [chunk] := by
  obtain ⟨dropped, same⟩ := books.tail
  refine (trimChunks_suffix _).trans ⟨dropped, ?_⟩
  rw [← List.append_assoc, same]

theorem Books.buffer (books : s.Books) (notStarted : s.outputPersistStarted = false)
    (chunk : String) : (s.buffer chunk).Books := by
  obtain ⟨log, queue, chunks⟩ := books.waiting notStarted
  refine ⟨?_, fun started => absurd (started.symm.trans notStarted) nofun,
    fun _ => ⟨log, queue, ?_⟩, books.running, tail_appendOutput books chunk⟩
  · dsimp only [OutputTask.buffer]
    rw [bytesOf_append, books.bytes, bytesOf_append]
    simp only [List.append_assoc]
  · dsimp only [OutputTask.buffer]
    rw [chunks, List.append_assoc]

theorem Books.appendOutput (books : s.Books) (chunk : String) : (s.appendOutput chunk).Books := by
  cases started : s.outputPersistStarted with
  | true =>
    rw [appendOutput_started started]
    refine ⟨?_, fun _ => books.started started,
      fun notStarted => absurd (started.symm.trans notStarted) nofun, books.running,
      tail_appendOutput books chunk⟩
    dsimp only [appendTaskOutput]
    rw [bytesOf_append, books.bytes, bytesOf_append, books.started started]
    simp [bytesOf]
  | false =>
    rw [appendOutput_buffer started]
    split
    · exact (books.buffer started chunk).startOutputPersist
    · exact books.buffer started chunk

theorem Books.finalizeTask (books : s.Books) (running : s.ended = false) :
    s.finalizeTask.Books := by
  unfold OutputTask.finalizeTask
  dsimp only
  split
  case isTrue started =>
    exact ⟨books.bytes, books.started, books.waiting, fun no => absurd no nofun, books.tail⟩
  case isFalse notStarted =>
    obtain ⟨log, queue, chunks⟩ := books.waiting (Bool.eq_false_iff.2 notStarted)
    rw [books.running running, List.nil_append] at chunks
    refine ⟨?_, fun _ => rfl, fun _ => ⟨log, queue, ?_⟩, fun no => absurd no nofun, books.tail⟩
    · dsimp only
      rw [chunks, log, queue]
      exact (List.append_nil _).symm
    · dsimp only
      rw [chunks, List.append_nil]

theorem Books.step {a : OutputStep} (books : s.Books) (next : s.step a = some t) : t.Books := by
  cases a with
  | appendOutput chunk =>
    cases next
    exact books.appendOutput chunk
  | detach =>
    cases next
    unfold detach
    split
    · exact books
    · split
      · exact books
      · have : { s with detached := true }.Books :=
          ⟨books.bytes, books.started, books.waiting, books.running, books.tail⟩
        exact this.startOutputPersist
  | persistOutput =>
    cases next
    exact books.startOutputPersist
  | finalizeTask =>
    rw [OutputTask.step] at next
    split at next
    case isTrue => cases next
    case isFalse running =>
      cases next
      exact books.finalizeTask (Bool.eq_false_iff.2 running)
  | write =>
    rw [OutputTask.step] at next
    split at next
    case h_1 => cases next
    case h_2 chunk chunks queue =>
      cases next
      refine ⟨?_, books.started, fun notStarted => ?_, books.running, books.tail⟩
      · dsimp only
        rw [books.bytes, queue]
        simp [bytesOf]
      · rw [(books.waiting notStarted).2.1] at queue
        cases queue

/-! ## When persistence starts -/

/-- Whether a step starts to persist the output. -/
def starts (s : OutputTask) : OutputStep → Bool
  | .appendOutput chunk =>
    !s.outputPersistStarted &&
      decide (maxOutputBytes < s.pendingOutputBytes + (encodeUtf8 chunk).length)
  | .detach => !s.outputPersistStarted && !s.ended && !s.detached
  | .persistOutput => !s.outputPersistStarted
  | .finalizeTask | .write => false

theorem startOutputPersist_started (s : OutputTask) :
    s.startOutputPersist.outputPersistStarted = true ∧
      s.startOutputPersist.released = s.released := by
  cases started : s.outputPersistStarted with
  | true =>
    rw [startOutputPersist, if_pos started]
    exact ⟨started, rfl⟩
  | false =>
    rw [startOutputPersist_eq started]
    exact ⟨rfl, rfl⟩

/-- What a step does to the start of the persistence; the released output is another one only when
the task ends without it. -/
theorem step_started {a : OutputStep} (next : s.step a = some t) :
    t.outputPersistStarted = (s.outputPersistStarted || s.starts a) ∧
      (t.outputPersistStarted = true → t.released = s.released) := by
  cases a with
  | appendOutput chunk =>
    cases next
    cases started : s.outputPersistStarted with
    | true =>
      rw [appendOutput_started started]
      exact ⟨started, fun _ => rfl⟩
    | false =>
      have spill : s.starts (.appendOutput chunk) =
          decide (maxOutputBytes < (s.buffer chunk).pendingOutputBytes) := by
        rw [starts, started]
        rfl
      rw [appendOutput_buffer started, spill, Bool.false_or]
      split
      case isTrue many =>
        rw [(startOutputPersist_started _).1, (startOutputPersist_started _).2]
        exact ⟨(decide_eq_true many).symm, fun _ => rfl⟩
      case isFalse few => exact ⟨started.trans (decide_eq_false few).symm, fun _ => rfl⟩
  | detach =>
    cases next
    rw [starts]
    unfold detach
    split
    case isTrue ended => simp [ended]
    case isFalse running =>
      split
      case isTrue detached => simp [detached]
      case isFalse foreground =>
        obtain ⟨started, released⟩ := startOutputPersist_started { s with detached := true }
        rw [started, released]
        simp [running, foreground]
  | persistOutput =>
    cases next
    obtain ⟨started, released⟩ := startOutputPersist_started s
    rw [started, released, starts, Bool.or_not_self]
    exact ⟨rfl, fun _ => rfl⟩
  | finalizeTask =>
    rw [OutputTask.step] at next
    split at next
    case isTrue => cases next
    case isFalse =>
      cases next
      unfold finalizeTask
      rw [starts, Bool.or_false]
      dsimp only
      split
      · exact ⟨rfl, fun _ => rfl⟩
      case isFalse notStarted => exact ⟨rfl, fun started => absurd started notStarted⟩
  | write =>
    rw [OutputTask.step] at next
    split at next
    · cases next
    · cases next
      rw [starts, Bool.or_false]
      exact ⟨rfl, fun _ => rfl⟩

/-- A step that starts the persistence does so while no output has been released. -/
def InTime (s : OutputTask) (a : OutputStep) : Prop := s.starts a = true → bytesOf s.released = []

/-- Once persistence has started, what is in the log when the queue has drained is all output, and
before there is nothing in the log and, until the end, all output in memory. -/
structure LogComplete (s : OutputTask) : Prop where
  started : s.outputPersistStarted = true → s.drain.log = bytesOf s.chunks
  notStarted : s.outputPersistStarted = false → s.log = [] ∧ s.outputWriteQueue = [] ∧
    (s.ended = false → s.pendingOutput = s.chunks)

theorem Books.complete_iff_released (books : s.Books) :
    s.LogComplete ↔ (s.outputPersistStarted = true → bytesOf s.released = []) := by
  have all (started : s.outputPersistStarted = true) :
      bytesOf s.chunks = bytesOf s.released ++ s.drain.log := by
    rw [books.bytes, books.started started]
    exact congrArg _ (List.append_nil _)
  constructor
  · intro complete started
    have same := complete.started started
    rw [all started] at same
    exact List.append_left_eq_self.1 same.symm
  · intro nothing
    refine ⟨fun started => ?_, fun notStarted => ?_⟩
    · rw [all started, nothing started, List.nil_append]
    · obtain ⟨log, queue, chunks⟩ := books.waiting notStarted
      refine ⟨log, queue, fun running => ?_⟩
      rw [chunks, books.running running, List.nil_append]

theorem books_run {detached : Bool} {as : List OutputStep}
    (run : Run step Always (registered detached) as s) : s.Books :=
  run.invariant Books (books_registered detached) fun _ _ _ books _ next => books.step next

theorem logComplete_step {a : OutputStep} (books : s.Books) (next : s.step a = some t) :
    t.LogComplete ↔ s.LogComplete ∧ s.InTime a := by
  obtain ⟨started, released⟩ := step_started next
  rw [(books.step next).complete_iff_released, books.complete_iff_released]
  constructor
  · intro nothing
    have kept (started' : t.outputPersistStarted = true) : bytesOf s.released = [] := by
      rw [← released started']
      exact nothing started'
    exact ⟨fun before => kept (by rw [started, before, Bool.true_or]),
      fun now => kept (by rw [started, now, Bool.or_true])⟩
  · rintro ⟨before, now⟩ started'
    rw [released started']
    rw [started, Bool.or_eq_true] at started'
    exact started'.elim before now

/-- The log is complete after a run exactly if no step of it has started the persistence too
late. -/
theorem logComplete_iff {detached : Bool} {as : List OutputStep}
    (run : Run step Always (registered detached) as s) :
    s.LogComplete ↔ Run step InTime (registered detached) as s := by
  induction run with
  | nil =>
    refine iff_of_true ?_ .nil
    exact (books_registered detached).complete_iff_released.2 fun _ => rfl
  | snoc before _ next ih =>
    rw [logComplete_step (books_run before) next, ih]
    refine ⟨fun ⟨run, inTime⟩ => .snoc run inTime next, fun run => ?_⟩
    obtain ⟨s', run', inTime, -⟩ := run.last
    obtain rfl := before.unique run'
    exact ⟨run', inTime⟩

theorem logComplete_iff_detached :
    ((registered false).appendOutput "a").detach.LogComplete ↔
      Run step InTime (registered false) [.appendOutput "a", .detach]
        ((registered false).appendOutput "a").detach :=
  logComplete_iff (.cons trivial rfl (.cons trivial rfl .nil))

/-- A task that ends in the foreground and is asked to persist its output then. -/
theorem persistedTooLate :
    ∃ s, exec step (registered false) [.appendOutput "a", .finalizeTask, .persistOutput] = some s ∧
      s.outputPersistStarted = true ∧ s.drain.log = [] ∧ bytesOf s.chunks = [97] :=
  ⟨_, rfl, rfl, rfl, rfl⟩

end OutputTask

end KimiCli
