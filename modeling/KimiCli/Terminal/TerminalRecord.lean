import KimiCli.Lib.Run
import Mathlib.Data.Int.Notation
import Mathlib.Logic.Function.Basic
import Mathlib.Algebra.Group.Nat.Defs

/-!
# A terminal and its sinks

One record of `TerminalService`: the process writes and exits, a call closes the terminal, and
sinks attach and detach.  An attach first awaits the session, and takes effect when that is done,
with the `sinceSeq` of the call.  Beside the record stands what was produced, and what each sink was
sent.

A frame is its sequence number and its data or exit code, and `send` does not throw.
-/

namespace KimiCli.Terminal

inductive TerminalFrame
  | output (seq : ℕ) (data : String)
  | exit (exitCode : Option ℤ)

/-- `Number.MAX_SAFE_INTEGER`. -/
def maxSafeInteger : ℕ := 2 ^ 53 - 1

/-- `++n` on a number, which no longer changes once `n + 1` is not a number. -/
def increment (n : ℕ) : ℕ := if n < 2 ^ 53 then n + 1 else n

namespace TerminalFrame

def frameSeq : TerminalFrame → ℕ
  | .output seq _ => seq
  | .exit _ => maxSafeInteger

/-- The sequence number of an output frame. -/
def seq? : TerminalFrame → Option ℕ
  | .output seq _ => some seq
  | .exit _ => none

end TerminalFrame

structure TerminalRecord where
  /-- The status of the terminal is `exited`. -/
  exited : Bool := false
  sinks : List String := []
  buffer : List TerminalFrame := []
  nextSeq : ℕ := 0
  /-- The listeners of the process are in `disposables`. -/
  listening : Bool := true
  closed : Bool := false
  /-- The attaches that wait for their session, each a sink and a `sinceSeq`. -/
  pending : List (String × ℕ) := []
  produced : List TerminalFrame := []
  sent : String → List TerminalFrame := fun _ => []
  /-- What was produced while a sink was away. -/
  missed : String → List TerminalFrame := fun _ => []
  /-- A sink attached after it had missed more frames than the buffer keeps. -/
  overrun : String → Bool := fun _ => false

namespace TerminalRecord

/-- The last output sequence that a sink was sent. -/
def lastSeq (frames : List TerminalFrame) : ℕ :=
  ((frames.filterMap TerminalFrame.seq?).getLast?).getD 0

variable (maxBufferedFrames : ℕ) (s : TerminalRecord)

def trim (buffer : List TerminalFrame) : List TerminalFrame :=
  if maxBufferedFrames < buffer.length then buffer.drop (buffer.length - maxBufferedFrames)
  else buffer

def pushFrame (frame : TerminalFrame) : TerminalRecord :=
  { s with
    buffer := trim maxBufferedFrames (s.buffer ++ [frame])
    produced := s.produced ++ [frame]
    sent := fun k => if k ∈ s.sinks then s.sent k ++ [frame] else s.sent k
    missed := fun k => if k ∈ s.sinks then s.missed k else s.missed k ++ [frame] }

def onData (data : String) : TerminalRecord :=
  { s with nextSeq := increment s.nextSeq }.pushFrame maxBufferedFrames
    (.output (increment s.nextSeq) data)

def markExited (exitCode : Option ℤ) : TerminalRecord :=
  if s.exited then s
  else
    { { s with closed := true, exited := true }.pushFrame maxBufferedFrames (.exit exitCode) with
      listening := false }

/-- The process writes. -/
def emitData (s : TerminalRecord) (data : String) : TerminalRecord :=
  if s.listening then s.onData maxBufferedFrames data else s

/-- The process exits. -/
def emitExit (exitCode : Option ℤ) : TerminalRecord :=
  if s.listening then s.markExited maxBufferedFrames exitCode else s

/-- What the process emits while it is being killed comes before the exit frame of `close`. -/
def close (emitted : List String) (exitCode : Option (Option ℤ)) (killed : Bool) :
    TerminalRecord :=
  if s.closed then s
  else
    let s := emitted.foldl (emitData maxBufferedFrames) { s with closed := true }
    let s := match exitCode with
      | some exitCode => s.emitExit maxBufferedFrames exitCode
      | none => s
    if killed then s.markExited maxBufferedFrames none else s

/-- What `attach` does when it has the record. -/
def attach (sinkId : String) (sinceSeq : ℕ) : TerminalRecord :=
  let replay := s.buffer.filter fun frame => sinceSeq < frame.frameSeq
  { s with
    sinks := if sinkId ∈ s.sinks then s.sinks else s.sinks ++ [sinkId]
    sent := Function.update s.sent sinkId (s.sent sinkId ++ replay)
    missed := Function.update s.missed sinkId []
    overrun := Function.update s.overrun sinkId
      (s.overrun sinkId || decide (maxBufferedFrames < (s.missed sinkId).length)) }

def detach (sinkId : String) : TerminalRecord :=
  { s with sinks := s.sinks.filter (· ≠ sinkId) }

inductive TerminalLabel
  | output (data : String)
  | exit (exitCode : Option ℤ)
  /-- `close` has the record: what the process emits in `kill`, and whether `kill` returns. -/
  | close (emitted : List String) (exitCode : Option (Option ℤ)) (killed : Bool)
  /-- A call of `attach`. -/
  | attach (sinkId : String) (sinceSeq : Option ℕ)
  /-- An attach has the record, or is refused it. -/
  | attached (sinkId : String) (sinceSeq : ℕ)
  | refused (sinkId : String) (sinceSeq : ℕ)
  | detach (sinkId : String)

def step (s : TerminalRecord) : TerminalLabel → Option TerminalRecord
  | .output data => some (s.emitData maxBufferedFrames data)
  | .exit exitCode => some (s.emitExit maxBufferedFrames exitCode)
  | .close emitted exitCode killed => some (s.close maxBufferedFrames emitted exitCode killed)
  | .attach sinkId sinceSeq =>
    some { s with pending := s.pending ++ [(sinkId, sinceSeq.getD 0)] }
  | .attached sinkId sinceSeq =>
    if (sinkId, sinceSeq) ∈ s.pending then
      some { s.attach maxBufferedFrames sinkId sinceSeq with
        pending := s.pending.erase (sinkId, sinceSeq) }
    else none
  | .refused sinkId sinceSeq =>
    if (sinkId, sinceSeq) ∈ s.pending then
      some { s with pending := s.pending.erase (sinkId, sinceSeq) }
    else none
  | .detach sinkId => some (s.detach sinkId)

end TerminalRecord

end KimiCli.Terminal
