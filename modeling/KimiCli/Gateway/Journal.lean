import Mathlib.Data.List.Induction

/-!
# The session event journal

`services/gateway/sessionEventJournal.ts` on the lines of its file: what `open` recovers from them,
what `readSince` selects, and the queue of lines that wait for a flush.  `V` is the type of the
envelopes.  Of a header line only the epoch is ever read.
-/

namespace KimiCli

/-- `ep_<ulid>`: one incarnation of a journal. -/
abbrev Epoch := String

/-- A line that `parseJournalLine` accepts. -/
inductive JournalLine (V : Type)
  | header (epoch : Epoch)
  | event (seq : ℕ) (envelope : V)

structure JournalEntry (V : Type) where
  seq : ℕ
  envelope : V
  deriving DecidableEq

namespace JournalLine

variable {V : Type}

/-- The scan of `open`: the epoch of the first header and the greatest `seq`. -/
def recover (lines : List (JournalLine V)) : Option Epoch × ℕ :=
  lines.foldl (fun found line =>
    match line with
    | .header epoch => (found.1 <|> some epoch, found.2)
    | .event seq _ => (found.1, if seq > found.2 then seq else found.2)) (none, 0)

/-- What `readSince` makes of a line. -/
def after (fromSeqExclusive : ℕ) : JournalLine V → Option (JournalEntry V)
  | .header _ => none
  | .event seq envelope => if seq ≤ fromSeqExclusive then none else some ⟨seq, envelope⟩

/-- The scan of `readSince`, which stops at `limit` entries. -/
def since (fromSeqExclusive limit : ℕ) (lines : List (JournalLine V)) : List (JournalEntry V) :=
  (lines.filterMap (after fromSeqExclusive)).take limit

end JournalLine

/-- An execution of `flushOnce` whose promise is kept in `flushPromise`. -/
inductive JournalFlush (V : Type)
  /-- It waits for `appendFile`. -/
  | writing (lines : List (JournalLine V))
  /-- It has settled, and the `finally` handler has not run. -/
  | settled

structure SessionEventJournal (V : Type) where
  epoch : Epoch
  seq : ℕ
  pendingLines : List (JournalLine V) := []
  headerPending : Bool
  flushPromise : Option (JournalFlush V) := none

namespace SessionEventJournal

variable {V : Type}

/-- What `open` makes of the lines of the file; `fresh` is the epoch of a new incarnation. -/
def «open» (lines : List (JournalLine V)) (fresh : Epoch) : SessionEventJournal V :=
  match JournalLine.recover lines with
  | (none, _) => { epoch := fresh, seq := 0, headerPending := true }
  | (some epoch, lastSeq) => { epoch, seq := lastSeq, headerPending := false }

def nextSeq (j : SessionEventJournal V) : SessionEventJournal V × ℕ :=
  ({ j with seq := j.seq + 1 }, j.seq + 1)

/-- `flushOnce` up to its first `await`. -/
def flushOnce (j : SessionEventJournal V) : SessionEventJournal V :=
  let lines := (if j.headerPending then [.header j.epoch] else []) ++ j.pendingLines
  { j with
    headerPending := false
    pendingLines := []
    flushPromise := if lines.length = 0 then some .settled else some (.writing lines) }

def scheduleFlush (j : SessionEventJournal V) : SessionEventJournal V :=
  if j.flushPromise.isSome then j else j.flushOnce

def append (j : SessionEventJournal V) (seq : ℕ) (envelope : V) : SessionEventJournal V :=
  scheduleFlush { j with pendingLines := j.pendingLines ++ [.event seq envelope] }

/-- The lines that `appendFile` is writing. -/
def writing (j : SessionEventJournal V) : List (JournalLine V) :=
  match j.flushPromise with
  | some (.writing lines) => lines
  | _ => []

/-- The loop condition of `flush` is false. -/
def flushed (j : SessionEventJournal V) : Bool :=
  j.flushPromise.isNone && j.pendingLines.isEmpty

/-! ## The lines of a journal -/

/-- The line of a durable event. -/
def line (entry : JournalEntry V) : JournalLine V := .event entry.seq entry.envelope

theorem since_lines (c limit : ℕ) (epoch : Epoch) (entries : List (JournalEntry V)) :
    JournalLine.since c limit (.header epoch :: entries.map line) =
      (entries.filter fun e => c < e.seq).take limit := by
  rw [JournalLine.since, List.filterMap_cons_none rfl]
  congr 1
  induction entries with
  | nil => rfl
  | cons entry rest ih =>
    rw [List.map_cons, line]
    by_cases old : entry.seq ≤ c
    · rw [List.filterMap_cons_none (by simp [JournalLine.after, old]), ih,
        List.filter_cons_of_neg (by simpa using old)]
    · rw [List.filterMap_cons_some (by simp [JournalLine.after, old]; rfl), ih,
        List.filter_cons_of_pos (by simpa using old)]

/-- Entries numbered by their positions. -/
def Numbered (entries : List (JournalEntry V)) : Prop :=
  ∀ i entry, entries[i]? = some entry → entry.seq = i + 1

theorem Numbered.nil : Numbered ([] : List (JournalEntry V)) := by
  intro i entry at_i
  simp at at_i

variable {entries : List (JournalEntry V)}

theorem Numbered.concat (numbered : Numbered entries) (envelope : V) :
    Numbered (entries ++ [⟨entries.length + 1, envelope⟩]) := by
  intro i entry at_i
  rcases Nat.lt_trichotomy i entries.length with before | rfl | behind
  · rw [List.getElem?_append_left before] at at_i
    exact numbered i entry at_i
  · simp at at_i
    exact at_i ▸ rfl
  · rw [List.getElem?_eq_none (by simp; omega)] at at_i
    cases at_i

theorem Numbered.take (numbered : Numbered entries) (m : ℕ) :
    Numbered (entries.take m) := by
  intro i entry at_i
  rw [List.getElem?_take] at at_i
  split at at_i
  · exact numbered i entry at_i
  · cases at_i

theorem Numbered.filter (numbered : Numbered entries) (c : ℕ) :
    (entries.filter fun e => c < e.seq) = entries.drop c := by
  induction entries using List.reverseRecOn with
  | nil => simp
  | append_singleton entries entry ih =>
    have before : Numbered entries := by simpa using numbered.take entries.length
    have last : entry.seq = entries.length + 1 := numbered _ entry (by simp)
    rw [List.filter_append, ih before]
    by_cases behind : c ≤ entries.length
    · rw [List.drop_append_of_le_length behind]
      simp [last, Nat.lt_succ_of_le behind]
    · rw [List.drop_eq_nil_of_le (by omega), List.drop_eq_nil_of_le (by simp; omega)]
      simp [last]
      omega

theorem Numbered.filter_le (numbered : Numbered entries) (m : ℕ) :
    (entries.filter fun e => e.seq ≤ m) = entries.take m := by
  induction entries using List.reverseRecOn with
  | nil => simp
  | append_singleton entries entry ih =>
    have before : Numbered entries := by simpa using numbered.take entries.length
    have last : entry.seq = entries.length + 1 := numbered _ entry (by simp)
    rw [List.filter_append, ih before]
    by_cases inside : entries.length + 1 ≤ m
    · rw [List.take_of_length_le (by omega), List.take_of_length_le (by simpa using inside)]
      simp [last, inside]
    · rw [List.take_append_of_le_length (by omega)]
      simp [last, inside]

theorem recover_lines (numbered : Numbered entries) (epoch : Epoch) :
    JournalLine.recover (.header epoch :: entries.map line) =
      (some epoch, entries.length) := by
  induction entries using List.reverseRecOn with
  | nil => rfl
  | append_singleton entries entry ih =>
    have before : Numbered entries := by simpa using numbered.take entries.length
    have last : entry.seq = entries.length + 1 := numbered _ entry (by simp)
    have rest := ih before
    unfold JournalLine.recover at rest ⊢
    rw [List.map_append, ← List.cons_append, List.foldl_append, rest]
    simp [line, last]

/-! ## An open journal -/

/-- The lines of a file with these entries. -/
def fileLines (epoch : Epoch) (entries : List (JournalEntry V)) : List (JournalLine V) :=
  .header epoch :: entries.map line

/-- What is in the file, being written and pending are the lines of all the entries; a fresh journal
has none yet. -/
structure Holds (file : List (JournalLine V)) (entries : List (JournalEntry V))
    (j : SessionEventJournal V) : Prop where
  seq : j.seq = entries.length
  fresh : j.headerPending = true →
    file = [] ∧ j.flushPromise = none ∧ j.pendingLines = [] ∧ entries = []
  lines : j.headerPending = false →
    file ++ j.writing ++ j.pendingLines = fileLines j.epoch entries

section

variable {file : List (JournalLine V)} {entries : List (JournalEntry V)}
  {j : SessionEventJournal V}

theorem writing_of_none (none : j.flushPromise = none) : j.writing = [] := by
  rw [writing, none]

theorem writing_flushOnce (j : SessionEventJournal V) : j.flushOnce.writing =
    (if j.headerPending then [.header j.epoch] else []) ++ j.pendingLines := by
  unfold flushOnce writing
  generalize (if j.headerPending = true then [.header j.epoch] else []) ++ j.pendingLines = lines
  cases lines <;> rfl

theorem Holds.flushOnce (holds : Holds file entries j) (idle : j.flushPromise = none) :
    Holds file entries j.flushOnce where
  seq := holds.seq
  fresh pending := nomatch pending
  lines _ := by
    rw [writing_flushOnce]
    cases header : j.headerPending with
    | true =>
      obtain ⟨rfl, -, pending, rfl⟩ := holds.fresh header
      rw [pending]
      rfl
    | false =>
      have lines := holds.lines header
      rw [writing_of_none idle] at lines
      simpa [SessionEventJournal.flushOnce] using lines

theorem Holds.append (holds : Holds file entries j) (envelope : V) :
    Holds file (entries ++ [⟨j.nextSeq.2, envelope⟩])
      (j.nextSeq.1.append j.nextSeq.2 envelope) := by
  have seq : j.nextSeq.2 = entries.length + 1 := congrArg Nat.succ holds.seq
  have grown : fileLines j.epoch (entries ++ [⟨j.nextSeq.2, envelope⟩]) =
      fileLines j.epoch entries ++ [.event j.nextSeq.2 envelope] := by
    simp [fileLines, line]
  rw [SessionEventJournal.append, scheduleFlush]
  by_cases flushing : j.flushPromise.isSome = true
  · have old : j.headerPending = false := by
      by_contra header
      rw [Bool.not_eq_false] at header
      simp [(holds.fresh header).2.1] at flushing
    have lines := holds.lines old
    rw [if_pos (show j.nextSeq.1.flushPromise.isSome = true from flushing)]
    refine ⟨seq.trans (by simp), fun header => ?_, fun _ => ?_⟩
    · exact absurd (header.symm.trans old) (by decide)
    · refine Eq.trans ?_ grown.symm
      rw [← lines]
      exact (List.append_assoc (file ++ j.writing) j.pendingLines _).symm
  · have none : j.flushPromise = none := by simpa using flushing
    rw [if_neg (show ¬ j.nextSeq.1.flushPromise.isSome = true from flushing)]
    refine ⟨seq.trans (by simp), (fun header => nomatch header), fun _ => ?_⟩
    refine Eq.trans ?_ grown.symm
    rw [writing_flushOnce]
    cases header : j.headerPending with
    | true =>
      obtain ⟨rfl, -, pending, rfl⟩ := holds.fresh header
      simp [SessionEventJournal.flushOnce, nextSeq, header, pending, fileLines]
    | false =>
      have lines := holds.lines header
      rw [writing_of_none none, List.append_nil] at lines
      rw [← lines]
      simp [SessionEventJournal.flushOnce, nextSeq, header]

theorem Holds.written (holds : Holds file entries j) {lines : List (JournalLine V)}
    (writing : j.flushPromise = some (.writing lines)) :
    Holds (file ++ lines) entries { j with flushPromise := some .settled } where
  seq := holds.seq
  fresh header := by
    have none := (holds.fresh header).2.1
    rw [writing] at none
    cases none
  lines header := by
    have eq := holds.lines header
    rw [SessionEventJournal.writing, writing] at eq
    simpa [SessionEventJournal.writing] using eq

theorem Holds.finallyFlush (holds : Holds file entries j)
    (settled : j.flushPromise = some .settled) :
    Holds file entries { j with flushPromise := none } where
  seq := holds.seq
  fresh header := by
    have none := (holds.fresh header).2.1
    rw [settled] at none
    cases none
  lines header := by
    have eq := holds.lines header
    rw [writing, settled] at eq
    exact eq

theorem Holds.file_eq (holds : Holds file entries j) (flushed : j.flushed = true) :
    file = [] ∧ entries = [] ∨ file = fileLines j.epoch entries := by
  obtain ⟨idle, pending⟩ : j.flushPromise = none ∧ j.pendingLines = [] := by
    simpa [SessionEventJournal.flushed] using flushed
  cases header : j.headerPending with
  | true => exact .inl ⟨(holds.fresh header).1, (holds.fresh header).2.2.2⟩
  | false =>
    have lines := holds.lines header
    rw [writing_of_none idle, pending, List.append_nil, List.append_nil] at lines
    exact .inr lines

theorem holds_open (numbered : Numbered entries)
    (disk : file = [] ∧ entries = [] ∨ ∃ epoch, file = fileLines epoch entries) (fresh : Epoch) :
    Holds file entries (.open file fresh) := by
  rcases disk with ⟨rfl, rfl⟩ | ⟨epoch, rfl⟩
  · exact ⟨rfl, fun _ => ⟨rfl, rfl, rfl, rfl⟩, fun header => nomatch header⟩
  · have recovered := recover_lines numbered epoch
    rw [← fileLines] at recovered
    rw [SessionEventJournal.open, recovered]
    refine ⟨rfl, (fun header => nomatch header), fun _ => ?_⟩
    simp [writing]

end

end SessionEventJournal

end KimiCli
