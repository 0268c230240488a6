import KimiCli.Terminal.TerminalRecord
import Mathlib.Data.List.Count
import Mathlib.Order.Nat

/-!
# Attaching to a terminal again

The output frames are numbered 1, 2, 3 and so on, and nothing follows the exit frame.  A sink that
waits for its attach before it detaches or attaches again, each time with the last sequence that it
was sent, gets every output frame once and in order, or, when it was away for too long, the newest
frames (`terminal_attach_exact`).  A detach that overtakes an attach is lost.
-/

namespace KimiCli.Terminal

open Transition

namespace TerminalRecord

/-- The sequence numbers of the output frames. -/
def seqs (frames : List TerminalFrame) : List ℕ := frames.filterMap TerminalFrame.seq?

def outputs (frames : List TerminalFrame) : List TerminalFrame :=
  frames.filter fun frame => frame.seq?.isSome

/-- A sink attaches while it is away, with the last sequence that it was sent, and neither attaches
nor detaches before that attach has taken effect; the sequence numbers stay below the one that
stands for the exit frame. -/
def Orderly (sinkId : String) (s : TerminalRecord) : TerminalLabel → Prop
  | .output _ => s.nextSeq + 1 < maxSafeInteger
  | .close emitted _ _ => s.nextSeq + emitted.length < maxSafeInteger
  | .attach k sinceSeq => k = sinkId → sinkId ∉ s.sinks ∧ (∀ p ∈ s.pending, p.1 ≠ sinkId) ∧
    sinceSeq.getD 0 = lastSeq (s.sent sinkId)
  | .detach k => k = sinkId → ∀ p ∈ s.pending, p.1 ≠ sinkId
  | _ => True

instance (sinkId : String) (s : TerminalRecord) : ∀ label, Decidable (s.Orderly sinkId label)
  | .output _ => inferInstanceAs (Decidable (_ < _))
  | .close _ _ _ => inferInstanceAs (Decidable (_ < _))
  | .attach _ _ => inferInstanceAs (Decidable (_ → _))
  | .detach _ => inferInstanceAs (Decidable (_ → _))
  | .exit _ | .attached _ _ | .refused _ _ => .isTrue trivial

/-- What a sink can count on. -/
structure Delivered (maxBufferedFrames : ℕ) (sinkId : String) (s : TerminalRecord) : Prop where
  numbered : seqs s.produced = List.range' 1 s.nextSeq
  /-- Nothing follows the exit frame. -/
  exit : ∀ before exitCode rest, s.produced = before ++ .exit exitCode :: rest → rest = []
  ordered : (seqs (s.sent sinkId)).Pairwise (· < ·)
  /-- Every output frame was sent, or is still missed. -/
  complete : s.overrun sinkId = false →
    outputs (s.sent sinkId) ++ outputs (s.missed sinkId) = outputs s.produced
  attached : sinkId ∈ s.sinks → s.missed sinkId = []
  /-- A sink that has missed too much is sent the newest frames. -/
  newest : ∀ sinceSeq, (sinkId, sinceSeq) ∈ s.pending →
    maxBufferedFrames < (s.missed sinkId).length →
      s.buffer = s.produced.drop (s.produced.length - maxBufferedFrames) ∧
      ∃ t, step maxBufferedFrames s (.attached sinkId sinceSeq) = some t ∧
        t.sent sinkId = s.sent sinkId ++ s.buffer
  exited : s.exited = true → sinkId ∈ s.sinks →
    ∃ exitCode, (s.sent sinkId).getLast? = some (.exit exitCode)

variable {maxBufferedFrames sinceSeq seq : ℕ} {sinkId data : String} {s t : TerminalRecord}
  {frame : TerminalFrame} {frames : List TerminalFrame} {exitCode : Option ℤ}

/-! ## Sequences -/

theorem seqs_append (frames frames' : List TerminalFrame) :
    seqs (frames ++ frames') = seqs frames ++ seqs frames' := List.filterMap_append

theorem outputs_append (frames frames' : List TerminalFrame) :
    outputs (frames ++ frames') = outputs frames ++ outputs frames' := List.filter_append ..

theorem mem_seqs : seq ∈ seqs frames ↔ ∃ data, .output seq data ∈ frames := by
  rw [seqs, List.mem_filterMap]
  constructor
  · rintro ⟨frame, mem, same⟩
    cases frame with
    | output seq' data =>
      cases same
      exact ⟨data, mem⟩
    | exit => cases same
  · rintro ⟨data, mem⟩
    exact ⟨_, mem, rfl⟩

theorem le_lastSeq (ordered : (seqs frames).Pairwise (· < ·)) (mem : seq ∈ seqs frames) :
    seq ≤ lastSeq frames := by
  rw [lastSeq, ← seqs]
  obtain ⟨before, last, split⟩ :=
    (List.eq_nil_or_concat (seqs frames)).resolve_left (List.ne_nil_of_mem mem)
  rw [split, List.concat_eq_append] at mem ordered ⊢
  rw [List.getLast?_concat, Option.getD_some]
  rcases List.mem_append.1 mem with earlier | same
  · exact ((List.pairwise_append.1 ordered).2.2 _ earlier _ (List.mem_singleton_self _)).le
  · exact (List.mem_singleton.1 same).le

theorem lastSeq_le (bound : ∀ x ∈ seqs frames, x ≤ seq) : lastSeq frames ≤ seq := by
  rw [lastSeq, ← seqs]
  cases last : (seqs frames).getLast? with
  | none => exact Nat.zero_le _
  | some => exact bound _ (List.mem_of_getLast? last)

theorem lastSeq_le_append {frames' : List TerminalFrame}
    (ordered : (seqs (frames ++ frames')).Pairwise (· < ·)) :
    lastSeq frames ≤ lastSeq (frames ++ frames') :=
  lastSeq_le fun x mem => le_lastSeq ordered (by
    rw [seqs_append]
    exact List.mem_append_left _ mem)

theorem trim_eq_drop (buffer : List TerminalFrame) :
    trim maxBufferedFrames buffer = buffer.drop (buffer.length - maxBufferedFrames) := by
  rw [trim]
  split
  case isTrue => rfl
  case isFalse fits => rw [Nat.sub_eq_zero_of_le (Nat.not_lt.1 fits), List.drop_zero]

theorem trim_drop_append (frames : List TerminalFrame) (frame : TerminalFrame) :
    trim maxBufferedFrames (frames.drop (frames.length - maxBufferedFrames) ++ [frame]) =
      (frames ++ [frame]).drop ((frames ++ [frame]).length - maxBufferedFrames) := by
  rw [trim_eq_drop, ← List.drop_append_of_le_length (Nat.sub_le _ _), List.drop_drop]
  congr 1
  rw [List.length_drop, List.length_append, List.length_singleton]
  omega

/-! ## What is produced -/

/-- The buffer holds the newest frames; the outputs are numbered, and the exit frame is the last. -/
structure Produced (maxBufferedFrames : ℕ) (s : TerminalRecord) : Prop where
  numbered : seqs s.produced = List.range' 1 s.nextSeq
  bounded : s.nextSeq < maxSafeInteger
  buffered : s.buffer = s.produced.drop (s.produced.length - maxBufferedFrames)
  running : s.exited = false → ∀ exitCode, .exit exitCode ∉ s.produced
  exited : s.exited = true → ∃ before exitCode, s.produced = before ++ [.exit exitCode] ∧
    ∀ exitCode, .exit exitCode ∉ before
  listening : s.listening = !s.exited

/-- What holds of one sink. -/
structure Follows (sinkId : String) (s : TerminalRecord) : Prop where
  /-- Of the frames from before the sink left, those in the buffer were sent. -/
  missed : ∃ before, s.produced = before ++ s.missed sinkId ∧ ∀ seq data,
    .output seq data ∈ before → .output seq data ∈ s.buffer → seq ≤ lastSeq (s.sent sinkId)
  attached : sinkId ∈ s.sinks → s.missed sinkId = []
  later : ∀ seq ∈ seqs (s.missed sinkId), lastSeq (s.sent sinkId) < seq
  ordered : (seqs (s.sent sinkId)).Pairwise (· < ·)
  bounded : ∀ seq ∈ seqs (s.sent sinkId), seq ≤ s.nextSeq
  complete : s.overrun sinkId = false →
    outputs (s.sent sinkId) ++ outputs (s.missed sinkId) = outputs s.produced
  exited : s.exited = true → sinkId ∈ s.sinks →
    ∃ exitCode, (s.sent sinkId).getLast? = some (.exit exitCode)
  since : ∀ sinceSeq, (sinkId, sinceSeq) ∈ s.pending →
    sinceSeq = lastSeq (s.sent sinkId) ∧ sinkId ∉ s.sinks
  sole : s.pending.countP (·.1 = sinkId) ≤ 1

theorem produced_init : Produced maxBufferedFrames {} where
  numbered := rfl
  bounded := by decide
  buffered := by simp
  running := by simp
  exited := by simp
  listening := rfl

theorem follows_init : Follows sinkId {} where
  missed := ⟨[], rfl, by simp⟩
  attached := by simp
  later := by simp [seqs]
  ordered := List.Pairwise.nil
  bounded := by simp [seqs]
  complete := fun _ => rfl
  exited := by simp
  since := by simp
  sole := Nat.zero_le _

theorem Produced.mem_seqs (produced : Produced maxBufferedFrames s)
    (mem : seq ∈ seqs s.produced) : seq ≤ s.nextSeq := by
  rw [produced.numbered, List.mem_range'_1] at mem
  omega

/-! ## A new frame -/

theorem Produced.push_output (produced : Produced maxBufferedFrames s)
    (running : s.exited = false) (bound : s.nextSeq + 1 < maxSafeInteger) (data : String) :
    Produced maxBufferedFrames (s.onData maxBufferedFrames data) := by
  have next : increment s.nextSeq = s.nextSeq + 1 := if_pos (by
    rw [maxSafeInteger] at bound
    omega)
  rw [onData, next]
  refine ⟨?_, bound, ?_, fun _ exitCode mem => ?_, fun exited => ?_, produced.listening⟩
  · refine (seqs_append _ _).trans ?_
    rw [produced.numbered]
    change List.range' 1 s.nextSeq ++ [s.nextSeq + 1] = List.range' 1 (s.nextSeq + 1)
    rw [List.range'_1_concat, Nat.add_comm 1]
  · refine (congrArg (trim maxBufferedFrames <| · ++ _) produced.buffered).trans ?_
    exact trim_drop_append _ _
  · rcases List.mem_append.1 mem with earlier | new
    · exact produced.running running _ earlier
    · cases List.mem_singleton.1 new
  · exact absurd (running.symm.trans exited) Bool.false_ne_true

theorem Produced.push_exit (produced : Produced maxBufferedFrames s) (exitCode : Option ℤ) :
    Produced maxBufferedFrames (s.markExited maxBufferedFrames exitCode) := by
  rw [markExited]
  split
  · exact produced
  case isFalse running =>
    rw [Bool.not_eq_true] at running
    refine ⟨?_, produced.bounded, ?_, fun exited => ?_, fun _ => ?_, rfl⟩
    · refine (seqs_append _ _).trans ?_
      rw [produced.numbered]
      exact List.append_nil _
    · refine (congrArg (trim maxBufferedFrames <| · ++ _) produced.buffered).trans ?_
      exact trim_drop_append _ _
    · cases exited
    · exact ⟨s.produced, exitCode, rfl, produced.running running⟩

theorem pairwise_seqs_singleton : (seqs [frame]).Pairwise (· < ·) := by
  cases frame with
  | output => exact List.pairwise_singleton _ _
  | exit => exact List.Pairwise.nil

theorem mem_trim_append (mem : frame ∈ trim maxBufferedFrames frames) : frame ∈ frames := by
  rw [trim_eq_drop] at mem
  exact List.mem_of_mem_drop mem

theorem Follows.pushFrame {nextSeq : ℕ} {closed exited listening : Bool}
    (follows : Follows sinkId s) (grown : s.nextSeq ≤ nextSeq)
    (old : ∀ seq ∈ seqs s.produced, seq ≤ s.nextSeq)
    (fresh : ∀ seq ∈ seqs [frame], s.nextSeq < seq ∧ seq ≤ nextSeq)
    (exit : exited = true → ∃ exitCode, frame = .exit exitCode) :
    Follows sinkId ({ s with nextSeq, closed, exited, listening }.pushFrame maxBufferedFrames
      frame) := by
  obtain ⟨before, split, covered⟩ := follows.missed
  by_cases here : sinkId ∈ s.sinks
  · have nothing := follows.attached here
    have sent : ({ s with nextSeq, closed, exited, listening }.pushFrame maxBufferedFrames
        frame).sent sinkId = s.sent sinkId ++ [frame] := if_pos here
    have missed : ({ s with nextSeq, closed, exited, listening }.pushFrame maxBufferedFrames
        frame).missed sinkId = [] := (if_pos here).trans nothing
    have ordered : (seqs (s.sent sinkId ++ [frame])).Pairwise (· < ·) := by
      rw [seqs_append]
      refine List.pairwise_append.2
        ⟨follows.ordered, pairwise_seqs_singleton, fun x earlier y new => ?_⟩
      exact (follows.bounded x earlier).trans_lt (fresh y new).1
    rw [nothing, List.append_nil] at split
    refine ⟨⟨s.produced ++ [frame], ?_, fun seq data mem inside => ?_⟩, fun _ => missed, ?_, ?_,
      fun seq mem => ?_, fun kept => ?_, fun gone _ => ?_, fun sinceSeq waiting => ?_,
      follows.sole⟩
    · rw [missed, List.append_nil]
      rfl
    · rw [sent]
      rcases List.mem_append.1 mem with earlier | new
      · rcases List.mem_append.1 (mem_trim_append inside) with buffered | new
        · refine (covered seq data ?_ buffered).trans (lastSeq_le_append ordered)
          rwa [← split]
        · have impossible := (fresh seq (mem_seqs.2 ⟨data, new⟩)).1
          exact absurd (old seq (mem_seqs.2 ⟨data, earlier⟩)) (Nat.not_le.2 impossible)
      · refine le_lastSeq ordered (mem_seqs.2 ⟨data, List.mem_append_right _ new⟩)
    · rw [missed]
      simp [seqs]
    · rw [sent]
      exact ordered
    · rw [sent, seqs_append] at mem
      rcases List.mem_append.1 mem with earlier | new
      · exact (follows.bounded _ earlier).trans grown
      · exact (fresh _ new).2
    · have complete := follows.complete kept
      rw [nothing] at complete
      rw [sent, missed, outputs_append]
      refine Eq.trans ?_ (outputs_append s.produced [frame]).symm
      rw [← complete]
      exact (List.append_nil _).trans (congrArg (· ++ _) (List.append_nil _).symm)
    · obtain ⟨exitCode, rfl⟩ := exit gone
      exact ⟨exitCode, by rw [sent, List.getLast?_concat]⟩
    · exact absurd here (follows.since _ waiting).2
  · have sent : ({ s with nextSeq, closed, exited, listening }.pushFrame maxBufferedFrames
        frame).sent sinkId = s.sent sinkId := if_neg here
    have missed : ({ s with nextSeq, closed, exited, listening }.pushFrame maxBufferedFrames
        frame).missed sinkId = s.missed sinkId ++ [frame] := if_neg here
    refine ⟨⟨before, ?_, fun seq data mem inside => ?_⟩, fun inside => absurd inside here,
      fun seq mem => ?_, ?_, fun seq mem => ?_, fun kept => ?_, fun _ inside => absurd inside here,
      fun sinceSeq waiting => ?_, follows.sole⟩
    · rw [missed, ← List.append_assoc, ← split]
      rfl
    · rw [sent]
      rcases List.mem_append.1 (mem_trim_append inside) with buffered | new
      · exact covered seq data mem buffered
      · have earlier : TerminalFrame.output seq data ∈ s.produced := by
          rw [split]
          exact List.mem_append_left _ mem
        have impossible := (fresh seq (mem_seqs.2 ⟨data, new⟩)).1
        exact absurd (old seq (mem_seqs.2 ⟨data, earlier⟩)) (Nat.not_le.2 impossible)
    · rw [missed, seqs_append] at mem
      rw [sent]
      rcases List.mem_append.1 mem with earlier | new
      · exact follows.later _ earlier
      · exact (lastSeq_le follows.bounded).trans_lt (fresh _ new).1
    · rw [sent]
      exact follows.ordered
    · rw [sent] at mem
      exact (follows.bounded _ mem).trans grown
    · rw [sent, missed, outputs_append, ← List.append_assoc, follows.complete kept]
      exact (outputs_append _ _).symm
    · rw [sent]
      exact follows.since _ waiting

/-- The two invariants together. -/
def Kept (maxBufferedFrames : ℕ) (sinkId : String) (s : TerminalRecord) : Prop :=
  Produced maxBufferedFrames s ∧ Follows sinkId s

section

variable (kept : Kept maxBufferedFrames sinkId s)
include kept

theorem Kept.emitData (bound : s.nextSeq + 1 < maxSafeInteger) (data : String) :
    Kept maxBufferedFrames sinkId (s.emitData maxBufferedFrames data) ∧
      (s.emitData maxBufferedFrames data).nextSeq ≤ s.nextSeq + 1 := by
  obtain ⟨produced, follows⟩ := kept
  rw [TerminalRecord.emitData]
  split
  case isFalse => exact ⟨⟨produced, follows⟩, Nat.le_succ _⟩
  case isTrue listening =>
    have running : s.exited = false := by
      rw [produced.listening] at listening
      exact Bool.not_eq_true' _ ▸ listening
    have next : increment s.nextSeq = s.nextSeq + 1 := if_pos (by
      rw [maxSafeInteger] at bound
      omega)
    refine ⟨⟨produced.push_output running bound data, ?_⟩, ?_⟩
    · rw [onData, next]
      refine follows.pushFrame (Nat.le_succ _) (fun seq => produced.mem_seqs) ?_ ?_
      · intro seq mem
        cases List.mem_singleton.1 mem
        exact ⟨Nat.lt_succ_self _, le_rfl⟩
      · intro gone
        exact absurd (running.symm.trans gone) Bool.false_ne_true
    · exact (next.le : increment s.nextSeq ≤ _)

theorem Kept.markExited (exitCode : Option ℤ) :
    Kept maxBufferedFrames sinkId (s.markExited maxBufferedFrames exitCode) := by
  obtain ⟨produced, follows⟩ := kept
  refine ⟨produced.push_exit exitCode, ?_⟩
  rw [TerminalRecord.markExited]
  split
  · exact follows
  · have pushed : Follows sinkId ({ s with closed := true, exited := true, listening := false
        }.pushFrame maxBufferedFrames (.exit exitCode)) := by
      refine follows.pushFrame le_rfl (fun seq => produced.mem_seqs) ?_ fun _ => ⟨_, rfl⟩
      intro seq mem
      cases mem
    exact pushed

theorem Kept.emitExit (exitCode : Option ℤ) :
    Kept maxBufferedFrames sinkId (s.emitExit maxBufferedFrames exitCode) := by
  rw [TerminalRecord.emitExit]
  split
  · exact kept.markExited exitCode
  · exact kept

theorem Kept.closed :
    Kept maxBufferedFrames sinkId { s with closed := true } := by
  obtain ⟨produced, follows⟩ := kept
  exact ⟨⟨produced.numbered, produced.bounded, produced.buffered, produced.running, produced.exited,
    produced.listening⟩, ⟨follows.missed, follows.attached, follows.later, follows.ordered,
    follows.bounded, follows.complete, follows.exited, follows.since, follows.sole⟩⟩

theorem Kept.emitAll (emitted : List String) (bound : s.nextSeq + emitted.length < maxSafeInteger) :
    Kept maxBufferedFrames sinkId
      (emitted.foldl (TerminalRecord.emitData maxBufferedFrames) s) := by
  induction emitted generalizing s with
  | nil => exact kept
  | cons data emitted ih =>
    rw [List.length_cons] at bound
    obtain ⟨kept, grown⟩ := kept.emitData (by omega) data
    exact ih kept (by omega)

theorem Kept.close {emitted : List String} (bound : s.nextSeq + emitted.length < maxSafeInteger)
    (exitCode : Option (Option ℤ)) (killed : Bool) :
    Kept maxBufferedFrames sinkId (s.close maxBufferedFrames emitted exitCode killed) := by
  rw [TerminalRecord.close]
  split
  · exact kept
  · have written := kept.closed.emitAll emitted bound
    have marked {next : TerminalRecord} (kept : Kept maxBufferedFrames sinkId next) :
        Kept maxBufferedFrames sinkId
          (if killed then next.markExited maxBufferedFrames none else next) := by
      split
      · exact kept.markExited _
      · exact kept
    cases exitCode with
    | none => exact marked written
    | some exitCode => exact marked (written.emitExit exitCode)

end

/-! ## Attaching -/

/-- The frames that an attach replays. -/
def replay (s : TerminalRecord) (sinceSeq : ℕ) : List TerminalFrame :=
  s.buffer.filter fun frame => sinceSeq < frame.frameSeq

theorem mem_replay : frame ∈ s.replay sinceSeq ↔ frame ∈ s.buffer ∧ sinceSeq < frame.frameSeq := by
  rw [replay, List.mem_filter, decide_eq_true_eq]

theorem Produced.buffer_sublist (produced : Produced maxBufferedFrames s) :
    s.buffer.Sublist s.produced := by
  rw [produced.buffered]
  exact List.drop_sublist _ _

theorem Produced.replay_ordered (produced : Produced maxBufferedFrames s) :
    (seqs (s.replay sinceSeq)).Pairwise (· < ·) := by
  have all : (seqs s.produced).Pairwise (· < ·) := by
    rw [produced.numbered]
    exact List.pairwise_lt_range'
  exact all.sublist ((List.filter_sublist.trans produced.buffer_sublist).filterMap _)

theorem Kept.replay_missed (kept : Kept maxBufferedFrames sinkId s)
    (few : (s.missed sinkId).length ≤ maxBufferedFrames) :
    outputs (s.replay (lastSeq (s.sent sinkId))) = outputs (s.missed sinkId) := by
  obtain ⟨produced, follows⟩ := kept
  obtain ⟨before, split, covered⟩ := follows.missed
  have short : s.produced.length - maxBufferedFrames ≤ before.length := by
    rw [split, List.length_append]
    omega
  have buffer : s.buffer = before.drop (s.produced.length - maxBufferedFrames) ++
      s.missed sinkId := by
    rw [produced.buffered]
    conv_lhs => rw [split, List.drop_append_of_le_length (by rw [← split]; exact short)]
    rw [← split]
  have old : ∀ frame ∈ before.drop (s.produced.length - maxBufferedFrames),
      ¬(frame.seq?.isSome = true ∧ lastSeq (s.sent sinkId) < frame.frameSeq) := by
    rintro frame mem ⟨isOutput, new⟩
    cases frame with
    | exit => cases isOutput
    | output seq data =>
      refine Nat.not_lt.2 (covered seq data (List.mem_of_mem_drop mem) ?_) new
      rw [buffer]
      exact List.mem_append_left _ mem
  rw [outputs, replay, List.filter_filter, buffer, List.filter_append,
    List.filter_eq_nil_iff.2 fun frame mem => by simpa using old frame mem, List.nil_append,
    outputs]
  refine List.filter_congr fun frame mem => ?_
  cases frame with
  | exit => rfl
  | output seq data =>
    have later := follows.later seq (mem_seqs.2 ⟨data, mem⟩)
    have pass : decide (lastSeq (s.sent sinkId) < (TerminalFrame.output seq data).frameSeq) =
        true := decide_eq_true later
    rw [pass, Bool.and_true]

theorem Kept.replay_newest (kept : Kept maxBufferedFrames sinkId s)
    (many : maxBufferedFrames < (s.missed sinkId).length) :
    s.replay (lastSeq (s.sent sinkId)) = s.buffer := by
  obtain ⟨produced, follows⟩ := kept
  obtain ⟨before, split, -⟩ := follows.missed
  refine List.filter_eq_self.2 fun frame mem => decide_eq_true ?_
  rw [produced.buffered] at mem
  have long : before.length ≤ s.produced.length - maxBufferedFrames := by
    rw [split, List.length_append]
    omega
  obtain ⟨extra, length⟩ := Nat.exists_eq_add_of_le long
  rw [length] at mem
  conv at mem => rw [split]
  rw [List.drop_length_add_append] at mem
  have missed := List.mem_of_mem_drop mem
  cases frame with
  | output seq data => exact follows.later seq (mem_seqs.2 ⟨data, missed⟩)
  | exit => exact (lastSeq_le follows.bounded).trans_lt produced.bounded

theorem Kept.replay_exit (kept : Kept maxBufferedFrames sinkId s) (positive : 0 < maxBufferedFrames)
    (exited : s.exited = true) (small : sinceSeq < maxSafeInteger) :
    ∃ exitCode, (s.replay sinceSeq).getLast? = some (.exit exitCode) := by
  obtain ⟨before, exitCode, produced, -⟩ := kept.1.exited exited
  have short : (before ++ [TerminalFrame.exit exitCode]).length - maxBufferedFrames ≤
      before.length := by
    rw [List.length_append, List.length_singleton]
    omega
  have pass : decide (sinceSeq < (TerminalFrame.exit exitCode).frameSeq) = true :=
    decide_eq_true small
  refine ⟨exitCode, ?_⟩
  rw [replay, kept.1.buffered, produced, List.drop_append_of_le_length short, List.filter_append,
    List.filter_singleton, pass, cond_true, List.getLast?_concat]

theorem Follows.attach_other {k : String} (follows : Follows sinkId s) (other : sinkId ≠ k) :
    Follows sinkId { s.attach maxBufferedFrames k sinceSeq with
      pending := s.pending.erase (k, sinceSeq) } := by
  have sinks : sinkId ∈ (s.attach maxBufferedFrames k sinceSeq).sinks ↔ sinkId ∈ s.sinks := by
    rw [TerminalRecord.attach]
    split
    · rfl
    · rw [List.mem_append, List.mem_singleton]
      exact or_iff_left other
  have sent : (s.attach maxBufferedFrames k sinceSeq).sent sinkId = s.sent sinkId :=
    Function.update_of_ne other _ _
  have missed : (s.attach maxBufferedFrames k sinceSeq).missed sinkId = s.missed sinkId :=
    Function.update_of_ne other _ _
  have overrun : (s.attach maxBufferedFrames k sinceSeq).overrun sinkId = s.overrun sinkId :=
    Function.update_of_ne other _ _
  refine ⟨?_, ?_, ?_, ?_, ?_, ?_, ?_, fun sinceSeq waiting => ?_, ?_⟩
  · rw [missed, sent]
    exact follows.missed
  · rw [sinks, missed]
    exact follows.attached
  · rw [missed, sent]
    exact follows.later
  · rw [sent]
    exact follows.ordered
  · rw [sent]
    exact follows.bounded
  · rw [overrun, sent, missed]
    exact follows.complete
  · rw [sinks, sent]
    exact follows.exited
  · rw [sinks, sent]
    exact follows.since _ (List.mem_of_mem_erase waiting)
  · exact (List.erase_sublist.countP_le).trans follows.sole

theorem Kept.attach (kept : Kept maxBufferedFrames sinkId s) (positive : 0 < maxBufferedFrames)
    (waiting : (sinkId, sinceSeq) ∈ s.pending) :
    Follows sinkId { s.attach maxBufferedFrames sinkId sinceSeq with
      pending := s.pending.erase (sinkId, sinceSeq) } := by
  obtain ⟨since, away⟩ := kept.2.since _ waiting
  have small : sinceSeq < maxSafeInteger := by
    rw [since]
    exact (lastSeq_le kept.2.bounded).trans_lt kept.1.bounded
  have few := fun many : (s.missed sinkId).length ≤ maxBufferedFrames => kept.replay_missed many
  rw [← since] at few
  have exit := fun gone => kept.replay_exit positive gone small
  obtain ⟨produced, follows⟩ := kept
  have sent : (s.attach maxBufferedFrames sinkId sinceSeq).sent sinkId =
      s.sent sinkId ++ s.replay sinceSeq := Function.update_self _ _ _
  have missed : (s.attach maxBufferedFrames sinkId sinceSeq).missed sinkId = [] :=
    Function.update_self _ _ _
  have overrun : (s.attach maxBufferedFrames sinkId sinceSeq).overrun sinkId =
      (s.overrun sinkId || decide (maxBufferedFrames < (s.missed sinkId).length)) :=
    Function.update_self _ _ _
  have newer : ∀ x ∈ seqs (s.replay sinceSeq), sinceSeq < x := by
    intro x mem
    obtain ⟨data, mem⟩ := mem_seqs.1 mem
    exact (mem_replay.1 mem).2
  have ordered : (seqs (s.sent sinkId ++ s.replay sinceSeq)).Pairwise (· < ·) := by
    rw [seqs_append]
    refine List.pairwise_append.2 ⟨follows.ordered, produced.replay_ordered, fun x old y new => ?_⟩
    exact ((le_lastSeq follows.ordered old).trans since.ge).trans_lt (newer y new)
  refine ⟨⟨s.produced, ?_, fun seq data mem inside => ?_⟩, fun _ => missed, ?_, ?_,
    fun seq mem => ?_, fun kept => ?_, fun gone _ => ?_, fun sinceSeq' waiting' => ?_, ?_⟩
  · rw [missed, List.append_nil]
    rfl
  · rw [sent]
    by_cases new : sinceSeq < seq
    · refine le_lastSeq ordered (mem_seqs.2 ⟨data, List.mem_append_right _ ?_⟩)
      exact mem_replay.2 ⟨inside, new⟩
    · exact ((Nat.not_lt.1 new).trans since.le).trans (lastSeq_le_append ordered)
  · rw [missed]
    simp [seqs]
  · rw [sent]
    exact ordered
  · rw [sent, seqs_append] at mem
    rcases List.mem_append.1 mem with old | new
    · exact follows.bounded _ old
    · obtain ⟨data, new⟩ := mem_seqs.1 new
      have inside := produced.buffer_sublist.subset (mem_replay.1 new).1
      exact produced.mem_seqs (mem_seqs.2 ⟨data, inside⟩)
  · rw [overrun, Bool.or_eq_false_iff, decide_eq_false_iff_not] at kept
    rw [sent, missed, outputs_append, few (Nat.not_lt.1 kept.2), follows.complete kept.1]
    exact List.append_nil _
  · obtain ⟨exitCode, last⟩ := exit gone
    refine ⟨exitCode, ?_⟩
    rw [sent, List.getLast?_append, last]
    rfl
  · have gone : (s.pending.erase (sinkId, sinceSeq)).countP (·.1 = sinkId) = 0 := by
      rw [List.countP_erase, if_pos ⟨waiting, decide_eq_true rfl⟩]
      exact Nat.sub_eq_zero_of_le follows.sole
    exact absurd (decide_eq_true rfl) (List.countP_eq_zero.1 gone _ waiting')
  · exact (List.erase_sublist.countP_le).trans follows.sole

/-! ## Every run -/

theorem Kept.step {label : TerminalLabel} (kept : Kept maxBufferedFrames sinkId s)
    (positive : 0 < maxBufferedFrames) (orderly : s.Orderly sinkId label)
    (next : step maxBufferedFrames s label = some t) : Kept maxBufferedFrames sinkId t := by
  obtain ⟨produced, follows⟩ := kept
  cases label with
  | output data =>
    cases next
    exact (Kept.emitData ⟨produced, follows⟩ orderly data).1
  | exit exitCode =>
    cases next
    exact Kept.emitExit ⟨produced, follows⟩ exitCode
  | close emitted exitCode killed =>
    cases next
    exact Kept.close ⟨produced, follows⟩ orderly exitCode killed
  | attach k sinceSeq =>
    cases next
    refine ⟨⟨produced.numbered, produced.bounded, produced.buffered, produced.running,
      produced.exited, produced.listening⟩, ⟨follows.missed, follows.attached, follows.later,
      follows.ordered, follows.bounded, follows.complete, follows.exited, fun since mem => ?_, ?_⟩⟩
    · rcases List.mem_append.1 mem with old | new
      · exact follows.since _ old
      · cases List.mem_singleton.1 new
        obtain ⟨away, -, since⟩ := orderly rfl
        exact ⟨since, away⟩
    · rw [List.countP_append]
      by_cases same : k = sinkId
      · obtain ⟨-, free, -⟩ := orderly same
        have none' : s.pending.countP (·.1 = sinkId) = 0 :=
          List.countP_eq_zero.2 fun p mem => by simpa using free p mem
        rw [none', Nat.zero_add]
        exact List.countP_le_length
      · have other : [(k, sinceSeq.getD 0)].countP (·.1 = sinkId) = 0 :=
          List.countP_eq_zero.2 fun p mem => by
            rw [List.mem_singleton.1 mem]
            simpa using same
        rw [other]
        exact follows.sole
  | attached k =>
    rw [TerminalRecord.step] at next
    split at next
    case isFalse => cases next
    case isTrue waiting =>
      cases next
      refine ⟨⟨produced.numbered, produced.bounded, produced.buffered, produced.running,
        produced.exited, produced.listening⟩, ?_⟩
      by_cases same : sinkId = k
      · subst same
        exact Kept.attach ⟨produced, follows⟩ positive waiting
      · exact follows.attach_other same
  | refused =>
    rw [TerminalRecord.step] at next
    split at next
    case isFalse => cases next
    case isTrue waiting =>
      cases next
      exact ⟨⟨produced.numbered, produced.bounded, produced.buffered, produced.running,
        produced.exited, produced.listening⟩, ⟨follows.missed, follows.attached, follows.later,
        follows.ordered, follows.bounded, follows.complete, follows.exited,
        fun since mem => follows.since _ (List.mem_of_mem_erase mem),
        List.erase_sublist.countP_le.trans follows.sole⟩⟩
  | detach k =>
    cases next
    have sub : sinkId ∈ s.sinks.filter (· ≠ k) → sinkId ∈ s.sinks := List.mem_of_mem_filter
    exact ⟨⟨produced.numbered, produced.bounded, produced.buffered, produced.running,
      produced.exited, produced.listening⟩, ⟨follows.missed,
      fun here => follows.attached (sub here), follows.later, follows.ordered, follows.bounded,
      follows.complete, fun gone here => follows.exited gone (sub here), fun since mem =>
        ⟨(follows.since _ mem).1, fun here => (follows.since _ mem).2 (sub here)⟩,
      follows.sole⟩⟩

theorem Kept.delivered (kept : Kept maxBufferedFrames sinkId s) :
    Delivered maxBufferedFrames sinkId s where
  numbered := kept.1.numbered
  exit := by
    intro before exitCode rest split
    cases gone : s.exited with
    | false =>
      refine absurd ?_ (kept.1.running gone exitCode)
      rw [split]
      exact List.mem_append_right _ List.mem_cons_self
    | true =>
      obtain ⟨first, last, produced, none'⟩ := kept.1.exited gone
      obtain rfl | ⟨later, final, rfl⟩ := List.eq_nil_or_concat rest
      · rfl
      · rw [produced, List.concat_eq_append, ← List.cons_append, ← List.append_assoc] at split
        obtain ⟨same, -⟩ := List.append_inj' split rfl
        refine absurd ?_ (none' exitCode)
        rw [same]
        exact List.mem_append_right _ List.mem_cons_self
  ordered := kept.2.ordered
  complete := kept.2.complete
  attached := kept.2.attached
  newest := by
    intro sinceSeq waiting many
    refine ⟨kept.1.buffered, _, if_pos waiting, ?_⟩
    have replayed := kept.replay_newest many
    rw [← (kept.2.since _ waiting).1] at replayed
    exact (Function.update_self _ _ _).trans (congrArg (s.sent sinkId ++ ·) replayed)
  exited := kept.2.exited

theorem terminal_attach_exact (maxBufferedFrames : ℕ) (positive : 0 < maxBufferedFrames)
    (sinkId : String) {labels : List TerminalLabel} {s : TerminalRecord}
    (run : Run (step maxBufferedFrames) (Orderly sinkId) {} labels s) :
    Delivered maxBufferedFrames sinkId s := by
  refine (run.invariant (Kept maxBufferedFrames sinkId) ⟨produced_init, follows_init⟩ ?_).delivered
  exact fun s label t kept orderly next => kept.step positive orderly next

/-- A sink attaches, is away for one of two frames, and attaches again after the exit. -/
def awayForOne : List TerminalLabel :=
  [.attach "a" none, .attached "a" 0, .output "x", .detach "a", .output "y", .exit (some 0),
    .attach "a" (some 1), .attached "a" 1]

theorem terminal_attach_away : ∃ s, Delivered 2000 "a" s ∧
    s.sent "a" = [.output 1 "x", .output 2 "y", .exit (some 0)] := by
  obtain ⟨s, executed, sent⟩ : ∃ s,
      exec (guarded (step 2000) (Orderly "a")) {} awayForOne = some s ∧
      s.sent "a" = [.output 1 "x", .output 2 "y", .exit (some 0)] := ⟨_, rfl, rfl⟩
  exact ⟨s, terminal_attach_exact 2000 (by decide) "a" (Run.of_exec executed), sent⟩

/-- A sink detaches before its first attach has taken effect, and attaches again. -/
def detachOvertakes : List TerminalLabel :=
  [.attach "a" none, .detach "a", .output "x", .attach "a" (some 0), .attached "a" 0,
    .attached "a" 0]

/-- Both attaches replay the one frame. -/
theorem frame_sent_twice : ¬∀ s, Run (step 2000) Always {} detachOvertakes s →
    Delivered 2000 "a" s := by
  intro all
  obtain ⟨s, run, sent⟩ : ∃ s, Run (step 2000) Always {} detachOvertakes s ∧
      seqs (s.sent "a") = [1, 1] :=
    ⟨_, .cons trivial rfl <| .cons trivial rfl <| .cons trivial rfl <| .cons trivial rfl <|
      .cons trivial rfl <| .cons trivial rfl .nil, rfl⟩
  have ordered := (all s run).ordered
  rw [sent] at ordered
  exact absurd ordered (by decide)

end TerminalRecord

end KimiCli.Terminal
