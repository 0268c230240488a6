import KimiCli.Lib.Exchange
import KimiCli.Migration.Translate

/-!
# Closing dangling tool calls

`migration-legacy/src/sessions/close-tool-calls.ts`: placeholder results for the calls of a
translated session that have none.  A call counts as answered if any tool message of the list has
its id; the context that resumes the session goes by position.  The two agree exactly on the rows
described by `Answerable`.
-/

namespace KimiCli

open Exchange

def placeholderText : String := "[tool result unavailable — session imported from kimi-cli]"

/-- The synthesized tool result for a call id. -/
def placeholder (id : String) : NormalizedMessage where
  role := .tool
  content := [.text placeholderText]
  toolCalls := []
  toolCallId := some id

/-- The ids that `satisfied` starts with. -/
def satisfiedIds (messages : List NormalizedMessage) : List String :=
  messages.filterMap fun msg =>
    match msg.role, msg.toolCallId with
    | .tool, some id => if id = "" then none else some id
    | _, _ => none

/-- The inner loop: the placeholders for the calls of one message, and `satisfied` after it. -/
def closeCalls (satisfied : List String) :
    List NormalizedToolCall → List NormalizedMessage × List String
  | [] => ([], satisfied)
  | call :: calls =>
    if call.id = "" ∨ call.id ∈ satisfied then closeCalls satisfied calls
    else
      let rest := closeCalls (call.id :: satisfied) calls
      (placeholder call.id :: rest.1, rest.2)

/-- The outer loop. -/
def closeMessages (satisfied : List String) : List NormalizedMessage → List NormalizedMessage
  | [] => []
  | msg :: messages =>
    if msg.role ≠ .assistant then msg :: closeMessages satisfied messages
    else
      let closed := closeCalls satisfied msg.toolCalls
      msg :: (closed.1 ++ closeMessages closed.2 messages)

def closeDanglingToolCalls (messages : List NormalizedMessage) : List NormalizedMessage :=
  closeMessages (satisfiedIds messages) messages

/-! ## Exchanges -/

namespace NormalizedMessage

/-- The ids an assistant message waits for. -/
def callIds (msg : NormalizedMessage) : List String :=
  if msg.role = .assistant then msg.toolCalls.map (·.id) else []

/-- The id a tool message answers. -/
def resultIds (msg : NormalizedMessage) : List String :=
  if msg.role = .tool then msg.toolCallId.toList else []

end NormalizedMessage

def calledIds (messages : List NormalizedMessage) : List String :=
  messages.flatMap NormalizedMessage.callIds

def resultIdsOf (messages : List NormalizedMessage) : List String :=
  messages.flatMap NormalizedMessage.resultIds

/-- Every exchange is closed by later tool messages. -/
abbrev ExchangesClosed (messages : List NormalizedMessage) : Prop :=
  Closed NormalizedMessage.callIds NormalizedMessage.resultIds messages

/-- The context that resumes the session, after it has read the messages. -/
def resumeContext (messages : List NormalizedMessage) : Holding NormalizedMessage String :=
  Holding.receiveAll NormalizedMessage.callIds NormalizedMessage.resultIds {} messages

/-- `out` is `messages` in order, with placeholders added after the messages whose calls they close
and only for ids that no later message answers. -/
inductive Completed : List NormalizedMessage → List NormalizedMessage → Prop
  | nil : Completed [] []
  | cons {msg : NormalizedMessage} {messages added out : List NormalizedMessage} :
      (∀ new ∈ added, ∃ id ∈ msg.callIds, new = placeholder id ∧ id ∉ resultIdsOf messages) →
      Completed messages out → Completed (msg :: messages) (msg :: (added ++ out))

/-- What the migration promises of a file's rows and the messages it makes of them. -/
structure ResumesWhole (host : MigrationHost) (rows : List (NormalizedRole × Json))
    (out : List NormalizedMessage) : Prop where
  kept : Completed (rows.map (rowMessage host)) out
  closed : ExchangesClosed out
  nothingHeld : (resumeContext out).held = []

/-! ## The inner loop -/

theorem mem_satisfiedIds {messages : List NormalizedMessage} {id : String} :
    id ∈ satisfiedIds messages ↔ id ≠ "" ∧ id ∈ resultIdsOf messages := by
  simp only [satisfiedIds, resultIdsOf, List.mem_filterMap, List.mem_flatMap]
  constructor
  · rintro ⟨msg, mem, found⟩
    split at found
    · rename_i id' role toolCallId
      split at found
      · cases found
      · rename_i nonempty
        cases found
        exact ⟨nonempty, msg, mem, by simp [NormalizedMessage.resultIds, role, toolCallId]⟩
    · cases found
  · rintro ⟨nonempty, msg, mem, found⟩
    refine ⟨msg, mem, ?_⟩
    unfold NormalizedMessage.resultIds at found
    split at found
    · rename_i role
      rw [role, Option.mem_toList.1 found]
      exact if_neg nonempty
    · cases found

theorem mem_closeCalls_satisfied (calls : List NormalizedToolCall) (satisfied : List String)
    {id : String} : id ∈ (closeCalls satisfied calls).2 ↔
      id ∈ satisfied ∨ id ≠ "" ∧ id ∈ calls.map (·.id) := by
  induction calls generalizing satisfied with
  | nil => simp [closeCalls]
  | cons call calls ih =>
    rw [closeCalls]
    split
    · rename_i skip
      rw [ih, List.map_cons, List.mem_cons]
      constructor
      · rintro (old | ⟨nonempty, mem⟩)
        · exact .inl old
        · exact .inr ⟨nonempty, .inr mem⟩
      · rintro (old | ⟨nonempty, rfl | mem⟩)
        · exact .inl old
        · exact .inl (skip.resolve_left nonempty)
        · exact .inr ⟨nonempty, mem⟩
    · rename_i fresh
      rw [not_or] at fresh
      show id ∈ (closeCalls (call.id :: satisfied) calls).2 ↔ _
      rw [ih, List.map_cons, List.mem_cons, List.mem_cons]
      constructor
      · rintro ((rfl | old) | ⟨nonempty, mem⟩)
        · exact .inr ⟨fresh.1, .inl rfl⟩
        · exact .inl old
        · exact .inr ⟨nonempty, .inr mem⟩
      · rintro (old | ⟨nonempty, rfl | mem⟩)
        · exact .inl (.inr old)
        · exact .inl (.inl rfl)
        · exact .inr ⟨nonempty, mem⟩

theorem mem_closeCalls (calls : List NormalizedToolCall) (satisfied : List String)
    {new : NormalizedMessage} : new ∈ (closeCalls satisfied calls).1 ↔
      ∃ id ∈ calls.map (·.id), id ≠ "" ∧ id ∉ satisfied ∧ new = placeholder id := by
  induction calls generalizing satisfied with
  | nil => simp [closeCalls]
  | cons call calls ih =>
    rw [closeCalls]
    split
    · rename_i skip
      rw [ih, List.map_cons]
      constructor
      · rintro ⟨id, mem, rest⟩
        exact ⟨id, List.mem_cons_of_mem _ mem, rest⟩
      · rintro ⟨id, mem, nonempty, fresh, rfl⟩
        rcases List.mem_cons.1 mem with rfl | mem
        · exact absurd skip (not_or.2 ⟨nonempty, fresh⟩)
        · exact ⟨id, mem, nonempty, fresh, rfl⟩
    · rename_i fresh
      rw [not_or] at fresh
      show new ∈ placeholder call.id :: (closeCalls (call.id :: satisfied) calls).1 ↔ _
      rw [List.mem_cons, ih, List.map_cons]
      constructor
      · rintro (rfl | ⟨id, mem, nonempty, unsatisfied, rfl⟩)
        · exact ⟨call.id, List.mem_cons_self, fresh.1, fresh.2, rfl⟩
        · refine ⟨id, List.mem_cons_of_mem _ mem, nonempty, ?_, rfl⟩
          exact fun old => unsatisfied (List.mem_cons_of_mem _ old)
      · rintro ⟨id, mem, nonempty, unsatisfied, rfl⟩
        by_cases same : id = call.id
        · exact .inl (same ▸ rfl)
        · have later := (List.mem_cons.1 mem).resolve_left same
          exact .inr ⟨id, later, nonempty, not_or.2 ⟨same, unsatisfied⟩ ∘ List.mem_cons.1, rfl⟩

theorem mem_resultIdsOf_placeholders {added : List NormalizedMessage} {ids : List String}
    (synthesized : ∀ new, new ∈ added ↔ ∃ id ∈ ids, new = placeholder id) {id : String} :
    id ∈ resultIdsOf added ↔ id ∈ ids := by
  simp only [resultIdsOf, List.mem_flatMap, synthesized]
  constructor
  · rintro ⟨_, ⟨id', mem, rfl⟩, found⟩
    obtain rfl : id = id' := List.mem_singleton.1 found
    exact mem
  · intro mem
    exact ⟨placeholder id, ⟨id, mem, rfl⟩, List.mem_singleton.2 rfl⟩

/-! ## The outer loop -/

theorem closeMessages_cons (satisfied : List String) (msg : NormalizedMessage)
    (messages : List NormalizedMessage) : ∃ added next,
    closeMessages satisfied (msg :: messages) = msg :: (added ++ closeMessages next messages) ∧
    (∀ new, new ∈ added ↔
      ∃ id ∈ msg.callIds.filter fun id => id ≠ "" ∧ id ∉ satisfied, new = placeholder id) ∧
    ∀ id, id ∈ next ↔ id ∈ satisfied ∨ id ≠ "" ∧ id ∈ msg.callIds := by
  rw [closeMessages]
  unfold NormalizedMessage.callIds
  split
  · refine ⟨[], satisfied, rfl, ?_, ?_⟩ <;> simp
  · rename_i assistant
    rw [if_pos (not_not.1 assistant)]
    refine ⟨_, _, rfl, fun new => ?_, fun id => mem_closeCalls_satisfied _ _⟩
    rw [mem_closeCalls]
    simp only [List.mem_filter, decide_eq_true_eq, and_assoc]

theorem closed_append_placeholders {added out : List NormalizedMessage} {ids : List String}
    (synthesized : ∀ new, new ∈ added ↔ ∃ id ∈ ids, new = placeholder id) :
    ExchangesClosed (added ++ out) ↔ ExchangesClosed out := by
  apply closed_append_silent
  intro new mem
  obtain ⟨id, -, rfl⟩ := (synthesized new).1 mem
  rfl

theorem mem_resultIdsOf_closeMessages (messages : List NormalizedMessage)
    (satisfied : List String) {id : String} :
    id ∈ resultIdsOf (closeMessages satisfied messages) ↔
      id ∈ resultIdsOf messages ∨ id ≠ "" ∧ id ∉ satisfied ∧ id ∈ calledIds messages := by
  induction messages generalizing satisfied with
  | nil => simp [closeMessages, resultIdsOf, calledIds]
  | cons msg messages ih =>
    obtain ⟨added, next, eq, synthesized, next_iff⟩ := closeMessages_cons satisfied msg messages
    have now : id ∈ resultIdsOf added ↔ _ := mem_resultIdsOf_placeholders synthesized
    have later := ih next
    rw [next_iff] at later
    simp only [resultIdsOf, calledIds] at now later ⊢
    rw [eq, List.flatMap_cons, List.flatMap_append, List.flatMap_cons, List.flatMap_cons]
    simp only [List.mem_append, now, later, List.mem_filter, decide_eq_true_eq]
    grind

/-- Every call of `messages` gets a result after it, given the ids that count as satisfied. -/
def AnsweredGiven (satisfied : List String) (messages : List NormalizedMessage) : Prop :=
  ∀ before msg after, messages = before ++ msg :: after → ∀ id ∈ msg.callIds,
    id ∈ resultIdsOf after ∨ id ≠ "" ∧ id ∉ satisfied ∧ id ∉ calledIds before

theorem answeredGiven_cons {satisfied next : List String} {msg : NormalizedMessage}
    {messages : List NormalizedMessage}
    (next_iff : ∀ id, id ∈ next ↔ id ∈ satisfied ∨ id ≠ "" ∧ id ∈ msg.callIds) :
    AnsweredGiven satisfied (msg :: messages) ↔
      (∀ id ∈ msg.callIds, id ∈ resultIdsOf messages ∨ id ≠ "" ∧ id ∉ satisfied) ∧
      AnsweredGiven next messages := by
  constructor
  · intro answered
    refine ⟨fun id mem => ?_, fun before msg' after split id mem => ?_⟩
    · refine (answered [] msg messages rfl id mem).imp_right ?_
      exact fun ⟨nonempty, fresh, _⟩ => ⟨nonempty, fresh⟩
    · have old := answered (msg :: before) msg' after (by rw [split, List.cons_append]) id mem
      refine old.imp_right fun ⟨nonempty, fresh, uncalled⟩ => ?_
      rw [calledIds, List.flatMap_cons, List.mem_append, not_or] at uncalled
      refine ⟨nonempty, ?_, uncalled.2⟩
      rw [next_iff]
      exact fun either => either.elim fresh fun called => uncalled.1 called.2
  · rintro ⟨head, tail⟩ before msg' after split id mem
    rcases List.cons_eq_append_iff.1 split with ⟨rfl, same⟩ | ⟨before, rfl, same⟩
    · obtain ⟨rfl, rfl⟩ := List.cons.inj same
      refine (head id mem).imp_right fun ⟨nonempty, fresh⟩ => ⟨nonempty, fresh, ?_⟩
      exact List.not_mem_nil
    · refine (tail before msg' after same id mem).imp_right ?_
      rintro ⟨nonempty, fresh, uncalled⟩
      rw [next_iff, not_or] at fresh
      refine ⟨nonempty, fresh.1, ?_⟩
      rw [calledIds, List.flatMap_cons, List.mem_append, not_or]
      exact ⟨fun called => fresh.2 ⟨nonempty, called⟩, uncalled⟩

theorem exchangesClosed_closeMessages (messages : List NormalizedMessage)
    (satisfied : List String) :
    ExchangesClosed (closeMessages satisfied messages) ↔ AnsweredGiven satisfied messages := by
  induction messages generalizing satisfied with
  | nil => simp [closeMessages, Closed, AnsweredGiven]
  | cons msg messages ih =>
    obtain ⟨added, next, eq, synthesized, next_iff⟩ := closeMessages_cons satisfied msg messages
    rw [answeredGiven_cons next_iff, eq]
    apply Iff.and ?_ ((closed_append_placeholders synthesized).trans (ih next))
    refine forall₂_congr fun id mem => ?_
    have now : id ∈ resultIdsOf added ↔ _ := mem_resultIdsOf_placeholders synthesized
    have later : id ∈ resultIdsOf (closeMessages next messages) ↔ _ :=
      mem_resultIdsOf_closeMessages messages next
    rw [next_iff] at later
    simp only [resultIdsOf] at now later ⊢
    simp only [List.flatMap_append, List.mem_append, now, later, List.mem_filter,
      decide_eq_true_eq]
    grind

theorem completed_closeMessages (messages : List NormalizedMessage) (satisfied : List String)
    (enough : ∀ id ∈ resultIdsOf messages, id ≠ "" → id ∈ satisfied) :
    Completed messages (closeMessages satisfied messages) := by
  induction messages generalizing satisfied with
  | nil => exact .nil
  | cons msg messages ih =>
    obtain ⟨added, next, eq, synthesized, next_iff⟩ := closeMessages_cons satisfied msg messages
    have known : ∀ id ∈ resultIdsOf messages, id ≠ "" → id ∈ satisfied := by
      intro id mem
      exact enough id (List.mem_append_right _ mem)
    rw [eq]
    refine .cons (fun new mem => ?_) (ih next fun id mem nonempty => ?_)
    · obtain ⟨id, called, rfl⟩ := (synthesized new).1 mem
      simp only [List.mem_filter, decide_eq_true_eq] at called
      exact ⟨id, called.1, rfl, fun result => called.2.2 (known id result called.2.1)⟩
    · exact (next_iff id).2 (.inl (known id mem nonempty))

/-! ## The migration -/

/-- The call ids a row opens an exchange with. -/
def rowCallIds : NormalizedRole × Json → List String
  | (.assistant, obj) => (rowToolCalls obj).map (·.id)
  | _ => []

/-- The id a tool row answers; a row without one counts as the empty id. -/
def rowResultIds : NormalizedRole × Json → List String
  | (.tool, obj) => [rowToolCallId obj]
  | _ => []

/-- Each call has a result in a later row, or a non-empty id that no result and no assistant row
before it has. -/
def Answerable (rows : List (NormalizedRole × Json)) : Prop :=
  ∀ before row after, rows = before ++ row :: after → ∀ id ∈ rowCallIds row,
    id ∈ after.flatMap rowResultIds ∨
      id ≠ "" ∧ id ∉ before.flatMap rowResultIds ∧ id ∉ before.flatMap rowCallIds

theorem calledIds_rows (host : MigrationHost) (rows : List (NormalizedRole × Json)) :
    calledIds (rows.map (rowMessage host)) = rows.flatMap rowCallIds := by
  rw [calledIds, List.flatMap_map]
  apply List.flatMap_congr
  rintro ⟨- | - | -, obj⟩ - <;> rfl

theorem resultIdsOf_rows (host : MigrationHost) (rows : List (NormalizedRole × Json)) :
    resultIdsOf (rows.map (rowMessage host)) = rows.flatMap rowResultIds := by
  rw [resultIdsOf, List.flatMap_map]
  apply List.flatMap_congr
  rintro ⟨- | - | -, obj⟩ - <;> rfl

theorem rowResultIds_of_calls {row : NormalizedRole × Json} {id : String}
    (mem : id ∈ rowCallIds row) : rowResultIds row = [] := by
  obtain ⟨- | - | -, obj⟩ := row
  · rfl
  · rfl
  · cases mem

theorem answeredGiven_rows (host : MigrationHost) (rows : List (NormalizedRole × Json)) :
    AnsweredGiven (satisfiedIds (rows.map (rowMessage host))) (rows.map (rowMessage host)) ↔
      Answerable rows := by
  have satisfied_iff : ∀ {before row after id}, rows = before ++ row :: after →
      id ∈ rowCallIds row → (id ∈ satisfiedIds (rows.map (rowMessage host)) ↔
        id ≠ "" ∧ (id ∈ before.flatMap rowResultIds ∨ id ∈ after.flatMap rowResultIds)) := by
    intro before row after id split mem
    rw [mem_satisfiedIds, resultIdsOf_rows, split, List.flatMap_append, List.flatMap_cons,
      rowResultIds_of_calls mem, List.nil_append, List.mem_append]
  constructor
  · intro answered before row after split id mem
    have called : id ∈ (rowMessage host row).callIds := by
      have one := calledIds_rows host [row]
      simp only [calledIds, List.map_cons, List.map_nil, List.flatMap_singleton] at one
      rw [one]
      exact mem
    have either := answered (before.map (rowMessage host)) (rowMessage host row)
      (after.map (rowMessage host)) (by rw [split, List.map_append, List.map_cons]) id called
    rw [resultIdsOf_rows, calledIds_rows, satisfied_iff split mem] at either
    tauto
  · intro answerable before msg after split id mem
    obtain ⟨before, rest, rfl, rfl, same⟩ := List.map_eq_append_iff.1 split
    obtain ⟨row, after, rfl, rfl, rfl⟩ := List.map_eq_cons_iff.1 same
    have called : id ∈ rowCallIds row := by
      have one := calledIds_rows host [row]
      simp only [calledIds, List.map_cons, List.map_nil, List.flatMap_singleton] at one
      rw [← one]
      exact mem
    have either := answerable before row after rfl id called
    rw [resultIdsOf_rows, calledIds_rows, satisfied_iff rfl called]
    tauto

/-- The migrated session resumes whole exactly if every call is answerable. -/
theorem migrate_resumesWhole (host : MigrationHost) (lines : List String) :
    ResumesWhole host (usableRows host lines)
        (closeDanglingToolCalls (translateContextLines host lines)) ↔
      Answerable (usableRows host lines) := by
  rw [translateContextLines_eq, closeDanglingToolCalls]
  generalize usableRows host lines = rows
  have closed_iff := (exchangesClosed_closeMessages (rows.map (rowMessage host))
    (satisfiedIds (rows.map (rowMessage host)))).trans (answeredGiven_rows host rows)
  refine ⟨fun whole => closed_iff.1 whole.closed, fun answerable => ?_⟩
  have closed := closed_iff.2 answerable
  refine ⟨?_, closed, (Holding.receiveAll_closed _ _ closed).1⟩
  apply completed_closeMessages
  intro id mem nonempty
  exact mem_satisfiedIds.2 ⟨nonempty, mem⟩

/-- A session in which the id of an answered call is used again by a call that was interrupted. -/
def reusedIdRows : List Json :=
  let call : Json := .object [("type", .string "function"), ("id", .string "t1"),
    ("function", .object [("name", .string "Shell"), ("arguments", .string "")])]
  let assistant : Json := .object [("role", .string "assistant"), ("tool_calls", .array [call])]
  [assistant,
    .object [("role", .string "tool"), ("tool_call_id", .string "t1"), ("content", .string "ok")],
    assistant,
    .object [("role", .string "user"), ("content", .string "still there?")]]

/-- A host that reads these rows back. -/
def reusedIdHost : MigrationHost where
  parse text := reusedIdRows.find? fun row => row.stringify = text
  existsSync _ := false

/-- The second exchange stays open, and the message after it is held back for good. -/
theorem reusedId_held_back :
    ¬ ResumesWhole reusedIdHost (usableRows reusedIdHost (reusedIdRows.map Json.stringify))
      (closeDanglingToolCalls
        (translateContextLines reusedIdHost (reusedIdRows.map Json.stringify))) := by
  intro whole
  have read (text : List Char) : reusedIdHost.parse (String.ofList text) =
      reusedIdRows.find? fun row => row.render = text := by
    simp only [reusedIdHost, Json.stringify, String.ofList_inj]
  have held := whole.nothingHeld
  revert held
  -- characters instead of strings, which are compared faster
  simp only [translateContextLines, List.filterMap_map, Function.comp_def, translateLine, parseRow,
    trim, Json.stringify, String.toList_ofList, read, String.ofList_eq_empty_iff]
  decide +kernel

end KimiCli
