import KimiCli.Lib.Run
import Mathlib.Data.List.Perm.Basic
import Mathlib.Order.Nat

/-!
# Updates of a file through one temporary file

A call reads the file, writes what it makes of it to a temporary file and renames that file; all
calls use the same temporary file, and nothing keeps one from starting while another is between
its read and its rename.  A call that changes nothing ends at its read.

When no call reads for a change while another is under way (`Alone`), every rename finds the file
that its call wrote, and the renames make the changes one after the other (`Serial.step`).
-/

namespace TempFile

variable {F U : Type*}

inductive Stage (F : Type*)
  | called
  /-- The file has been read; `next` is what the call is going to write. -/
  | loaded (next : F)
  | written
  | settled (changed : Bool)
  /-- There was no temporary file to rename. -/
  | failed

namespace Stage

/-- Between the read and the rename. -/
def isPending : Stage F → Bool
  | loaded _ | written => true
  | _ => false

def isSettled : Stage F → Bool
  | settled _ | failed => true
  | _ => false

def isFailed : Stage F → Bool
  | failed => true
  | _ => false

def hasChanged : Stage F → Bool
  | settled changed => changed
  | _ => false

end Stage

structure Call (F U : Type*) where
  update : U
  stage : Stage F := .called

structure State (F U : Type*) where
  file : F
  temp : Option F := none
  calls : List (Call F U) := []

inductive Label (U : Type*)
  | call (update : U)
  | load (i : ℕ)
  | write (i : ℕ)
  | rename (i : ℕ)

namespace State

variable (s : State F U)

def setStage (i : ℕ) (stage : Stage F) : State F U :=
  { s with calls := s.calls.modify i fun call => { call with stage } }

def updates : List U := s.calls.map (·.update)

/-- The updates that have been made. -/
def committed : List U := (s.calls.filter (·.stage.hasChanged)).map (·.update)

def failed : Bool := s.calls.any (·.stage.isFailed)

def allSettled : Bool := s.calls.all (·.stage.isSettled)

end State

/-- `change` gives the content after an update, or `none` if the update changes nothing. -/
def step (change : U → F → Option F) (s : State F U) : Label U → Option (State F U)
  | .call update => some { s with calls := s.calls ++ [{ update }] }
  | .load i => match s.calls[i]? with
    | some ⟨update, .called⟩ => match change update s.file with
      | some next => some (s.setStage i (.loaded next))
      | none => some (s.setStage i (.settled false))
    | _ => none
  | .write i => match s.calls[i]? with
    | some ⟨_, .loaded next⟩ => some { s.setStage i .written with temp := some next }
    | _ => none
  | .rename i => match s.calls[i]? with
    | some ⟨_, .written⟩ => match s.temp with
      | some next => some { s.setStage i (.settled true) with file := next, temp := none }
      | none => some (s.setStage i .failed)
    | _ => none

/-- No call reads for a change while another is under way. -/
def Alone (change : U → F → Option F) (s : State F U) : Label U → Prop
  | .load i => ∀ call ∈ s.calls[i]?, (change call.update s.file).isSome →
      ∀ other ∈ s.calls, other.stage.isPending = false
  | _ => True

instance (change : U → F → Option F) (s : State F U) : ∀ label, Decidable (Alone change s label)
  | .load i => inferInstanceAs (Decidable (∀ call ∈ s.calls[i]?, _ → ∀ other ∈ s.calls, _))
  | .call _ | .write _ | .rename _ => inferInstanceAs (Decidable True)

/-- What a call under way has read and written agrees with the file as it is. -/
def Stage.Fits (change : U → F → Option F) (s : State F U) (update : U) : Stage F → Prop
  | called => True
  | loaded next => change update s.file = some next
  | written => ∃ next, s.temp = some next ∧ change update s.file = some next
  | settled changed => changed = false → ∃ file, change update file = none
  | failed => False

/-- At most one call is under way, and it has seen the file as it is. -/
structure Serial (change : U → F → Option F) (s : State F U) : Prop where
  lone : s.calls.countP (·.stage.isPending) ≤ 1
  fits : ∀ call ∈ s.calls, call.stage.Fits change s call.update

variable {change : U → F → Option F} {s t : State F U} {label : Label U} {i : ℕ} {call : Call F U}

theorem Stage.Fits.other {stage : Stage F} {update : U} (fits : stage.Fits change s update)
    (idle : stage.isPending = false) (t : State F U) : stage.Fits change t update := by
  cases stage with
  | called => trivial
  | settled => exact fits
  | loaded | written => cases idle
  | failed => exact fits.elim

theorem serial_init (file : F) (temp : Option F) :
    Serial change ({ file, temp } : State F U) where
  lone := Nat.zero_le 1
  fits := fun _ mem => nomatch mem

theorem Serial.failed_eq (serial : Serial change s) : s.failed = false := by
  rw [State.failed, List.any_eq_false]
  rintro ⟨update, stage⟩ mem isFailed
  have fits := serial.fits _ mem
  cases stage with
  | failed => exact fits
  | _ => exact absurd isFailed Bool.false_ne_true

theorem setStage_calls (here : s.calls[i]? = some call) :
    ∃ front back, s.calls = front ++ call :: back ∧
      ∀ stage, (s.setStage i stage).calls = front ++ { call with stage } :: back := by
  obtain ⟨inside, rfl⟩ := List.getElem?_eq_some_iff.1 here
  refine ⟨s.calls.take i, s.calls.drop (i + 1), ?_, fun stage => ?_⟩
  · rw [List.getElem_cons_drop, List.take_append_drop]
  · rw [State.setStage, List.modify_eq_take_cons_drop inside]

/-! ## One step -/

/-- What a step leads to: a call, a stage that changes the file nowhere, or a rename. -/
theorem step_cases (next : step change s label = some t) :
    (∃ update, label = .call update ∧ t = { s with calls := s.calls ++ [{ update }] }) ∨
    (∃ i update content, label = .load i ∧ s.calls[i]? = some ⟨update, .called⟩ ∧
      change update s.file = some content ∧ t = s.setStage i (.loaded content)) ∨
    (∃ i update, label = .load i ∧ s.calls[i]? = some ⟨update, .called⟩ ∧
      change update s.file = none ∧ t = s.setStage i (.settled false)) ∨
    (∃ i update content, label = .write i ∧ s.calls[i]? = some ⟨update, .loaded content⟩ ∧
      t = { s.setStage i .written with temp := some content }) ∨
    (∃ i update, label = .rename i ∧ s.calls[i]? = some ⟨update, .written⟩ ∧
      ((∃ content, s.temp = some content ∧
          t = { s.setStage i (.settled true) with file := content, temp := none }) ∨
        s.temp = none ∧ t = s.setStage i .failed)) := by
  cases label with
  | call update => exact .inl ⟨update, rfl, (Option.some.inj next).symm⟩
  | load i =>
    rw [step] at next
    split at next
    case h_2 => cases next
    case h_1 update here =>
      split at next
      case h_1 content changed =>
        exact .inr (.inl ⟨i, update, content, rfl, here, changed, (Option.some.inj next).symm⟩)
      case h_2 unchanged =>
        exact .inr (.inr (.inl ⟨i, update, rfl, here, unchanged, (Option.some.inj next).symm⟩))
  | write i =>
    rw [step] at next
    split at next
    case h_2 => cases next
    case h_1 update content here =>
      exact .inr (.inr (.inr (.inl ⟨i, update, content, rfl, here, (Option.some.inj next).symm⟩)))
  | rename i =>
    rw [step] at next
    split at next
    case h_2 => cases next
    case h_1 update here =>
      refine .inr (.inr (.inr (.inr ⟨i, update, rfl, here, ?_⟩)))
      split at next
      case h_1 content found => exact .inl ⟨content, found, (Option.some.inj next).symm⟩
      case h_2 missing => exact .inr ⟨missing, (Option.some.inj next).symm⟩

theorem step_updates (next : step change s label = some t) :
    (∃ update, label = .call update ∧ t.updates = s.updates ++ [update]) ∨
      (∀ update, label ≠ .call update) ∧ t.updates = s.updates := by
  have kept {i : ℕ} {call : Call F U} (here : s.calls[i]? = some call) (stage : Stage F) :
      (s.setStage i stage).updates = s.updates := by
    obtain ⟨front, back, before, after⟩ := setStage_calls here
    rw [State.updates, State.updates, after, before]
    simp only [List.map_append, List.map_cons]
  obtain ⟨update, rfl, rfl⟩ | ⟨i, _, _, rfl, here, -, rfl⟩ | ⟨i, _, rfl, here, -, rfl⟩ |
    ⟨i, _, _, rfl, here, rfl⟩ | ⟨i, _, rfl, here, ⟨_, -, rfl⟩ | ⟨-, rfl⟩⟩ := step_cases next
  · refine .inl ⟨update, rfl, ?_⟩
    simp only [State.updates, List.map_append, List.map_cons, List.map_nil]
  all_goals exact .inr ⟨fun _ => nofun, kept here _⟩

/-! ## One call moves on -/

section setStage

variable (here : s.calls[i]? = some call) (stage : Stage F)
include here

theorem mem_setStage {c : Call F U} (mem : c ∈ (s.setStage i stage).calls) :
    c = { call with stage } ∨ c ∈ s.calls := by
  obtain ⟨front, back, before, after⟩ := setStage_calls here
  rw [after] at mem
  rw [before]
  simp only [List.mem_append, List.mem_cons] at mem ⊢
  tauto

theorem pending_setStage :
    (s.setStage i stage).calls.countP (·.stage.isPending) +
        (if call.stage.isPending then 1 else 0) =
      s.calls.countP (·.stage.isPending) + if stage.isPending then 1 else 0 := by
  obtain ⟨front, back, before, after⟩ := setStage_calls here
  rw [after, before]
  simp only [List.countP_append, List.countP_cons]
  omega

theorem committed_setStage (same : stage.hasChanged = call.stage.hasChanged) :
    (s.setStage i stage).committed = s.committed := by
  obtain ⟨front, back, before, after⟩ := setStage_calls here
  rw [State.committed, State.committed, after, before]
  simp only [List.filter_append, List.filter_cons, List.map_append, same]
  split <;> rfl

theorem committed_settled (waiting : call.stage.hasChanged = false) :
    (s.setStage i (.settled true)).committed.Perm (call.update :: s.committed) := by
  obtain ⟨front, back, before, after⟩ := setStage_calls here
  rw [State.committed, State.committed, after, before]
  have done : (Stage.settled true : Stage F).hasChanged = true := rfl
  simp only [List.filter_append, List.filter_cons, List.map_append, waiting, done, if_true,
    List.map_cons, Bool.false_eq_true, if_false]
  exact List.perm_middle

theorem Serial.mem_moved (serial : Serial change s) (pending : call.stage.isPending = true)
    {c : Call F U} (mem : c ∈ (s.setStage i stage).calls) :
    c = { call with stage } ∨ c ∈ s.calls ∧ c.stage.isPending = false := by
  obtain ⟨front, back, before, after⟩ := setStage_calls here
  have lone := serial.lone
  rw [before, List.countP_append, List.countP_cons, if_pos pending] at lone
  rw [after] at mem
  rw [before]
  have idle {part : List (Call F U)} (none : part.countP (·.stage.isPending) = 0)
      (inside : c ∈ part) : c.stage.isPending = false := by
    simpa using List.countP_eq_zero.1 none c inside
  obtain inFront | rest := List.mem_append.1 mem
  · exact .inr ⟨List.mem_append_left _ inFront, idle (by omega) inFront⟩
  · obtain rfl | inBack := List.mem_cons.1 rest
    · exact .inl rfl
    · exact .inr ⟨List.mem_append_right _ (.tail _ inBack), idle (by omega) inBack⟩

end setStage

/-- The step makes an update: it is the rename of a call. -/
def Commits (change : U → F → Option F) (s t : State F U) (label : Label U) : Prop :=
  ∃ i call, label = .rename i ∧ s.calls[i]? = some call ∧
    change call.update s.file = some t.file ∧ t.committed.Perm (call.update :: s.committed)

/-- When calls read for a change one at a time, a step makes one update or none. -/
theorem Serial.step (serial : Serial change s) (alone : Alone change s label)
    (next : TempFile.step change s label = some t) :
    Serial change t ∧
      (t.file = s.file ∧ t.committed = s.committed ∨ Commits change s t label) := by
  obtain ⟨update, rfl, rfl⟩ | ⟨i, update, content, rfl, here, changed, rfl⟩ |
    ⟨i, update, rfl, here, unchanged, rfl⟩ | ⟨i, update, content, rfl, here, rfl⟩ |
    ⟨i, update, rfl, here, renamed⟩ := step_cases next
  · refine ⟨⟨?_, fun call mem => ?_⟩, .inl ⟨rfl, ?_⟩⟩
    · simpa [Stage.isPending] using serial.lone
    · obtain old | new := List.mem_append.1 mem
      · exact serial.fits call old
      · obtain rfl := List.mem_singleton.1 new
        trivial
    · simp [State.committed, Stage.hasChanged]
  · have idle := alone _ here (Option.isSome_iff_exists.2 ⟨content, changed⟩)
    have count : s.calls.countP (·.stage.isPending) = 0 :=
      List.countP_eq_zero.2 fun c mem => by simpa using idle c mem
    refine ⟨⟨?_, fun c mem => ?_⟩, .inl ⟨rfl, committed_setStage here _ rfl⟩⟩
    · have := pending_setStage here (.loaded content)
      rw [count] at this
      exact (Nat.le_add_right _ _).trans this.le
    · obtain rfl | old := mem_setStage here _ mem
      · exact changed
      · exact serial.fits c old
  · refine ⟨⟨?_, fun c mem => ?_⟩, .inl ⟨rfl, committed_setStage here _ rfl⟩⟩
    · exact (pending_setStage here (.settled false)).le.trans serial.lone
    · obtain rfl | old := mem_setStage here _ mem
      · exact fun _ => ⟨s.file, unchanged⟩
      · exact serial.fits c old
  · have changed : change update s.file = some content := serial.fits _ (List.mem_of_getElem? here)
    refine ⟨⟨?_, fun c mem => ?_⟩, .inl ⟨rfl, committed_setStage here _ rfl⟩⟩
    · exact (Nat.add_right_cancel (pending_setStage here .written)).le.trans serial.lone
    · obtain rfl | ⟨old, idle⟩ := serial.mem_moved here _ rfl mem
      · exact ⟨content, rfl, changed⟩
      · exact (serial.fits c old).other idle _
  · obtain ⟨content, found, changed⟩ := serial.fits _ (List.mem_of_getElem? here)
    obtain ⟨content', found', rfl⟩ | ⟨missing, -⟩ := renamed
    · obtain rfl : content = content' := Option.some.inj (found.symm.trans found')
      refine ⟨⟨?_, fun c mem => ?_⟩,
        .inr ⟨i, _, rfl, here, changed, committed_settled here rfl⟩⟩
      · have := pending_setStage here (.settled true)
        exact (Nat.le_add_right _ _).trans (this.le.trans serial.lone)
      · obtain rfl | ⟨old, idle⟩ := serial.mem_moved here _ rfl mem
        · exact fun unchanged => nomatch unchanged
        · exact (serial.fits c old).other idle _
    · rw [missing] at found
      cases found

end TempFile
