import KimiCli.Js.Json
import KimiCli.Lib.Newest
import KimiCli.Lib.TempFile
import Mathlib.Algebra.Order.Ring.Unbundled.Rat
import Mathlib.Data.List.Nodup

/-!
# The memory store

`entries.json` holds the memories of a work directory.  `write`, `addMemory` and `delete` load all
of them, write the changed list to `entries.json.tmp` and rename that file.  Nothing orders the
calls, so a call that loads while another has not renamed yet undoes its update, and of two calls
that have both written the second to rename finds no file.

When calls load for a change one at a time, and entries are deleted only while nothing has been
cut, the file holds what was there and what was added, without what was deleted
(`law_of_serialized`).
-/

namespace KimiCli

/-- The number that decimal digits stand for. -/
def digitsValue (digits : List Char) : ℕ :=
  digits.foldl (fun n c => 10 * n + (c.toNat - '0'.toNat)) 0

/-- The number a token stands for; an exponent is printed with its sign. -/
def NumberToken.value (token : NumberToken) : ℚ :=
  let negative := token.chars.head? = some '-'
  let unsigned := if negative then token.chars.tail else token.chars
  let mantissa := unsigned.takeWhile (· ≠ 'e')
  let exponent := (unsigned.dropWhile (· ≠ 'e')).tail
  let whole := mantissa.takeWhile (· ≠ '.')
  let fraction := (mantissa.dropWhile (· ≠ '.')).tail
  let digits : ℚ := digitsValue (whole ++ fraction) / 10 ^ fraction.length
  let power := digitsValue exponent.tail
  let size := if exponent.head? = some '-' then digits / 10 ^ power else digits * 10 ^ power
  if negative then -size else size

namespace Json

def isNumber : Json → Bool
  | number _ => true
  | _ => false

def isString : Json → Bool
  | string _ => true
  | _ => false

/-- `texts.has(value)`. -/
def isOneOf (texts : List String) : Json → Bool
  | string value => texts.contains value
  | _ => false

def isStringArray : Json → Bool
  | array items => items.all isString
  | _ => false

end Json

/-! ## Entries -/

inductive MemoryType
  | fact
  | insight
  | decision
  | preference
  | snippet
  | reflection
  | skill
  | outcome

def MemoryType.name : MemoryType → String
  | fact => "fact"
  | insight => "insight"
  | decision => "decision"
  | preference => "preference"
  | snippet => "snippet"
  | reflection => "reflection"
  | skill => "skill"
  | outcome => "outcome"

def VALID_TYPES : List String :=
  ["fact", "insight", "decision", "preference", "snippet", "reflection", "skill", "outcome"]

theorem MemoryType.name_mem (type : MemoryType) : type.name ∈ VALID_TYPES := by
  cases type <;> decide

inductive MemorySource
  | reflection
  | skill
  | outcome

def MemorySource.name : MemorySource → String
  | reflection => "reflection"
  | skill => "skill"
  | outcome => "outcome"

theorem MemorySource.name_cases (source : MemorySource) :
    source.name = "reflection" ∨ source.name = "skill" ∨ source.name = "outcome" := by
  cases source <;> decide

def isValidMemoryEntry (entry : Json) : Bool :=
  let typeOk := (entry.property "type").all (·.isOneOf VALID_TYPES)
  entry.isObject &&
    (entry.property "id").any (·.isString) &&
    (entry.property "timestamp").any (·.isNumber) &&
    (entry.property "tags").any (·.isStringArray) &&
    (entry.property "content").any (·.isString) &&
    (entry.property "source").any (·.isOneOf ["reflection", "skill", "outcome"]) &&
    typeOk

/-- An entry as the file has it, properties that the store does not know included. -/
def MemoryEntry := { entry : Json // isValidMemoryEntry entry = true }

structure WriteMemoryInput where
  content : String
  tags : Option (List String) := none
  type : Option MemoryType := none

/-- `Omit<MemoryEntry, 'id' | 'timestamp'>`. -/
structure NewMemory where
  tags : List String
  content : String
  source : MemorySource
  type : Option MemoryType := none
  relevanceScore : Option NumberToken := none

namespace MemoryEntry

def id (memory : MemoryEntry) : String :=
  match memory.1.property "id" with
  | some (.string id) => id
  | _ => ""

def timestamp (memory : MemoryEntry) : ℚ :=
  match memory.1.property "timestamp" with
  | some (.number token) => token.value
  | _ => 0

variable (id : String) (now : NumberToken)

/-- The entry that `write` makes. -/
def ofWrite (input : WriteMemoryInput) : MemoryEntry where
  val := .object [
    ("id", .string id),
    ("timestamp", .number now),
    ("tags", .array ((input.tags.getD []).map .string)),
    ("content", .string input.content),
    ("source", .string "reflection"),
    ("type", .string (input.type.getD .fact).name)]
  property := by
    simp [isValidMemoryEntry, Json.property, Json.isObject, Json.isString, Json.isNumber,
      Json.isStringArray, Json.isOneOf, MemoryType.name_mem]

/-- The entry that `addMemory` makes. -/
def ofNew (entry : NewMemory) : MemoryEntry where
  val := .object (
    [("tags", .array (entry.tags.map .string)),
      ("content", .string entry.content),
      ("source", .string entry.source.name)] ++
    (entry.type.map fun type => ("type", .string type.name)).toList ++
    (entry.relevanceScore.map fun score => ("relevanceScore", .number score)).toList ++
    [("id", .string id), ("timestamp", .number now)])
  property := by
    rcases entry.type with _ | type <;> rcases entry.relevanceScore with _ | score <;>
      simp [isValidMemoryEntry, Json.property, Json.isObject, Json.isString, Json.isNumber,
        Json.isStringArray, Json.isOneOf, MemoryType.name_mem, MemorySource.name_cases]

theorem id_ofWrite (input : WriteMemoryInput) : (ofWrite id now input).id = id := by
  simp [MemoryEntry.id, ofWrite, Json.property]

theorem id_ofNew (entry : NewMemory) : (ofNew id now entry).id = id := by
  simp [MemoryEntry.id, ofNew, Json.property]

end MemoryEntry

namespace MemoryStore

def MAX_ENTRIES : ℕ := 1000

/-- The entries of the file; `none` is a file that is missing or is no JSON. -/
def loadAll : Option Json → List MemoryEntry
  | some (.array items) => items.filterMap fun entry =>
    if valid : isValidMemoryEntry entry = true then some ⟨entry, valid⟩ else none
  | _ => []

def stored (entries : List MemoryEntry) : Option Json := some (.array (entries.map (·.1)))

theorem loadAll_stored (entries : List MemoryEntry) : loadAll (stored entries) = entries := by
  rw [stored, loadAll, List.filterMap_map]
  refine (List.filterMap_congr fun memory _ => ?_).trans List.filterMap_some
  exact dif_pos memory.2

/-! ## Calls -/

inductive Update
  | add (memory : MemoryEntry)
  | delete (id : String)

namespace Update

def memory? : Update → Option MemoryEntry
  | add memory => some memory
  | delete _ => none

def deleted? : Update → Option String
  | add _ => none
  | delete id => some id

end Update

/-- What a call writes; `none` when a delete does not find its entry. -/
def edit (entries : List MemoryEntry) : Update → Option (List MemoryEntry)
  | .add memory => some (Newest.cut MemoryEntry.timestamp MAX_ENTRIES (entries ++ [memory]))
  | .delete id =>
    let next := entries.filter (·.id ≠ id)
    if next.length = entries.length then none else some next

def change (update : Update) (file : Option Json) : Option (Option Json) :=
  (edit (loadAll file) update).map stored

abbrev State := TempFile.State (Option Json) Update

inductive Label
  | write (id : String) (now : NumberToken) (input : WriteMemoryInput)
  | addMemory (id : String) (now : NumberToken) (entry : NewMemory)
  | delete (id : String)
  | load (i : ℕ)
  | writeFile (i : ℕ)
  | rename (i : ℕ)

def Label.io : Label → TempFile.Label Update
  | write id now input => .call (.add (.ofWrite id now input))
  | addMemory id now entry => .call (.add (.ofNew id now entry))
  | delete id => .call (.delete id)
  | load i => .load i
  | writeFile i => .write i
  | rename i => .rename i

/-- The identifier that `randomUUID` makes. -/
def Label.newId : Label → Option String
  | write id _ _ | addMemory id _ _ => some id
  | _ => none

/-- The entries that have been handed to the store. -/
def written (s : State) : List MemoryEntry := s.updates.filterMap Update.memory?

/-- No entry and no call has the identifier yet. -/
def isFresh (initial : Option Json) (s : State) (id : String) : Bool :=
  id ∉ (loadAll initial ++ written s).map MemoryEntry.id

/-- A store that found the content `initial`; identifiers are never made twice. -/
def step (initial : Option Json) (s : State) (label : Label) : Option State :=
  if label.newId.all (isFresh initial s) then TempFile.step change s label.io else none

/-! ## The law -/

/-- The entries that were there and that were written, without those that were deleted. -/
def expected (initial : Option Json) (written : List MemoryEntry) (deleted : List String) :
    List MemoryEntry :=
  (loadAll initial ++ written).filter (·.id ∉ deleted)

/-- The identifiers for which a delete has returned `true`. -/
def deleted (s : State) : List String := s.committed.filterMap Update.deleted?

/-- No call has failed, and after the last call the file holds the newest expected entries. -/
def Law (initial : Option Json) (s : State) : Prop :=
  s.failed = false ∧
    (s.allSettled = true →
      Newest.IsNewest MemoryEntry.timestamp MAX_ENTRIES (loadAll s.file)
        (expected initial (written s) (deleted s)))

/-- What is expected from the updates that have been made. -/
def outcome (initial : Option Json) (updates : List Update) : List MemoryEntry :=
  expected initial (updates.filterMap Update.memory?) (updates.filterMap Update.deleted?)

/-- Calls load for a change one at a time; a delete renames only while nothing has been cut. -/
def Serialized (initial : Option Json) (s : State) (label : Label) : Prop :=
  TempFile.Alone change s label.io ∧
    match label with
    | .rename i => ∀ call ∈ s.calls[i]?, call.update.deleted?.isSome →
        (outcome initial s.committed).length ≤ MAX_ENTRIES
    | _ => True

instance (initial : Option Json) (s : State) : ∀ label, Decidable (Serialized initial s label)
  | .rename i => inferInstanceAs (Decidable (_ ∧ ∀ call ∈ s.calls[i]?, _ → _ ≤ MAX_ENTRIES))
  | .write .. | .addMemory .. | .delete _ | .load _ | .writeFile _ =>
    inferInstanceAs (Decidable (TempFile.Alone change s _ ∧ True))

variable {initial : Option Json} {s t : State} {label : Label} {id : String} {us vs : List Update}

/-! ## One update -/

theorem outcome_perm (same : us.Perm vs) : (outcome initial us).Perm (outcome initial vs) := by
  rw [outcome, outcome, expected, expected]
  have ids (m : MemoryEntry) : m.id ∈ us.filterMap Update.deleted? ↔
      m.id ∈ vs.filterMap Update.deleted? := (same.filterMap _).mem_iff
  simp only [ids]
  exact ((same.filterMap _).append_left _).filter _

theorem outcome_add {memory : MemoryEntry} (kept : memory.id ∉ us.filterMap Update.deleted?) :
    (outcome initial (.add memory :: us)).Perm (outcome initial us ++ [memory]) := by
  have added : (Update.add memory :: us).filterMap Update.memory? =
    memory :: us.filterMap Update.memory? := rfl
  have deleted : (Update.add memory :: us).filterMap Update.deleted? =
    us.filterMap Update.deleted? := rfl
  rw [outcome, outcome, expected, expected, added, deleted]
  refine (List.perm_middle.filter _).trans ?_
  rw [List.filter_cons, if_pos (decide_eq_true kept)]
  exact (List.perm_append_singleton _ _).symm

theorem outcome_delete :
    outcome initial (.delete id :: us) = (outcome initial us).filter (·.id ≠ id) := by
  have added : (Update.delete id :: us).filterMap Update.memory? =
    us.filterMap Update.memory? := rfl
  have deleted : (Update.delete id :: us).filterMap Update.deleted? =
    id :: us.filterMap Update.deleted? := rfl
  rw [outcome, outcome, expected, expected, added, deleted, List.filter_filter]
  refine List.filter_congr fun m _ => ?_
  simp only [List.mem_cons, not_or, Bool.decide_and]

theorem change_eq_some {update : Update} {file file' : Option Json}
    (changed : change update file = some file') :
    edit (loadAll file) update = some (loadAll file') := by
  obtain ⟨entries, edited, rfl⟩ := Option.map_eq_some_iff.1 changed
  rw [loadAll_stored, edited]

theorem edit_delete {entries next : List MemoryEntry}
    (edited : edit entries (.delete id) = some next) :
    next = entries.filter (·.id ≠ id) ∧ ∃ memory ∈ entries, memory.id = id := by
  rw [edit] at edited
  split at edited
  case isTrue => cases edited
  case isFalse fewer =>
    refine ⟨(Option.some.inj edited).symm, ?_⟩
    by_contra none
    refine fewer (congrArg List.length (List.filter_eq_self.2 fun memory mem => ?_))
    exact decide_eq_true fun same => none ⟨memory, mem, same⟩

/-! ## Runs -/

/-- What holds as long as calls load for a change one at a time. -/
structure Kept (initial : Option Json) (s : State) : Prop where
  serial : TempFile.Serial change s
  nodup : ((written s).map MemoryEntry.id).Nodup
  fresh : ∀ memory ∈ written s, memory.id ∉ (loadAll initial).map MemoryEntry.id
  /-- What has been deleted was there. -/
  known : ∀ id ∈ deleted s,
    id ∈ (loadAll initial ++ s.committed.filterMap Update.memory?).map MemoryEntry.id
  newest : Newest.IsNewest MemoryEntry.timestamp MAX_ENTRIES (loadAll s.file)
    (outcome initial s.committed)

theorem kept_init (small : (loadAll initial).length ≤ MAX_ENTRIES) (temp : Option (Option Json)) :
    Kept initial { file := initial, temp } where
  serial := TempFile.serial_init initial temp
  nodup := List.nodup_nil
  fresh := fun _ mem => nomatch mem
  known := fun _ mem => nomatch mem
  newest := by
    have all : outcome initial [] = loadAll initial := by
      rw [outcome, expected, List.filterMap_nil, List.filterMap_nil, List.append_nil]
      exact List.filter_eq_self.2 fun _ _ => decide_eq_true List.not_mem_nil
    exact Newest.isNewest_of_perm (all ▸ .refl _) (all ▸ small)

theorem committed_sublist (s : State) : s.committed.Sublist s.updates :=
  List.filter_sublist.map _

/-- The entries after a step: one more, with an identifier that is new, or the same. -/
theorem written_step (next : step initial s label = some t) :
    TempFile.step change s label.io = some t ∧
      ((∃ memory, written t = written s ++ [memory] ∧
          memory.id ∉ (loadAll initial ++ written s).map MemoryEntry.id) ∨
        written t = written s) := by
  rw [step] at next
  split at next
  case isFalse => cases next
  case isTrue isNew =>
    refine ⟨next, ?_⟩
    obtain ⟨update, made, updates⟩ | ⟨-, updates⟩ := TempFile.step_updates next
    · have appended : written t = written s ++ [update].filterMap Update.memory? := by
        rw [written, updates, List.filterMap_append, written]
      cases label with
      | write =>
        obtain rfl := TempFile.Label.call.inj made
        refine .inl ⟨_, appended, ?_⟩
        rw [MemoryEntry.id_ofWrite]
        exact of_decide_eq_true isNew
      | addMemory =>
        obtain rfl := TempFile.Label.call.inj made
        refine .inl ⟨_, appended, ?_⟩
        rw [MemoryEntry.id_ofNew]
        exact of_decide_eq_true isNew
      | delete =>
        obtain rfl := TempFile.Label.call.inj made
        exact .inr (appended.trans (List.append_nil _))
      | load | writeFile | rename => cases made
    · exact .inr (congrArg (List.filterMap Update.memory?) updates)

theorem Kept.ids (kept : Kept initial s)
    (entries : (∃ memory, written t = written s ++ [memory] ∧
      memory.id ∉ (loadAll initial ++ written s).map MemoryEntry.id) ∨ written t = written s) :
    ((written t).map MemoryEntry.id).Nodup ∧
      ∀ memory ∈ written t, memory.id ∉ (loadAll initial).map MemoryEntry.id := by
  obtain ⟨memory, more, isNew⟩ | same := entries
  · rw [List.map_append, List.mem_append, not_or] at isNew
    rw [more]
    refine ⟨?_, fun other mem => ?_⟩
    · rw [List.map_append, List.map_singleton]
      refine List.nodup_append.2 ⟨kept.nodup, List.nodup_singleton _, ?_⟩
      rintro id mem id' mem' rfl
      exact isNew.2 (List.mem_singleton.1 mem' ▸ mem)
    · obtain old | new := List.mem_append.1 mem
      · exact kept.fresh other old
      · exact List.mem_singleton.1 new ▸ isNew.1
  · rw [same]
    exact ⟨kept.nodup, kept.fresh⟩

theorem Kept.not_deleted (kept : Kept initial s) {memory : MemoryEntry}
    (nodup : ((written t).map MemoryEntry.id).Nodup)
    (fresh : ∀ memory ∈ written t, memory.id ∉ (loadAll initial).map MemoryEntry.id)
    (made : t.committed.Perm (.add memory :: s.committed)) : memory.id ∉ deleted s := by
  have part : (t.committed.filterMap Update.memory?).Sublist (written t) :=
    (committed_sublist t).filterMap _
  have made' : (t.committed.filterMap Update.memory?).Perm
    (memory :: s.committed.filterMap Update.memory?) := made.filterMap _
  have distinct := (made'.map MemoryEntry.id).nodup_iff.1 (nodup.sublist (part.map _))
  intro gone
  have there := kept.known _ gone
  rw [List.map_append, List.mem_append] at there
  obtain old | new := there
  · exact fresh memory (part.subset (made'.mem_iff.2 List.mem_cons_self)) old
  · exact (List.nodup_cons.1 distinct).1 new

theorem Kept.step (kept : Kept initial s) (serialized : Serialized initial s label)
    (next : step initial s label = some t) : Kept initial t := by
  obtain ⟨io, entries⟩ := written_step next
  obtain ⟨nodup, fresh⟩ := kept.ids entries
  obtain ⟨serial, ⟨file, committed⟩ | ⟨i, ⟨update, stage⟩, label_eq, here, changed, made⟩⟩ :=
    kept.serial.step serialized.1 io
  · refine ⟨serial, nodup, fresh, ?_, ?_⟩
    · rw [deleted, committed]
      exact kept.known
    · rw [file, committed]
      exact kept.newest
  have edited := change_eq_some changed
  cases update with
  | add memory =>
    have notDeleted := kept.not_deleted nodup fresh made
    refine ⟨serial, nodup, fresh, fun id gone => ?_, ?_⟩
    · have gone' : id ∈ deleted s := (made.filterMap Update.deleted?).mem_iff.1 gone
      obtain ⟨other, mem, rfl⟩ := List.mem_map.1 (kept.known id gone')
      refine List.mem_map_of_mem ?_
      obtain old | new := List.mem_append.1 mem
      · exact List.mem_append_left _ old
      · refine List.mem_append_right _ ((made.filterMap Update.memory?).mem_iff.2 (.tail _ new))
    · rw [← Option.some.inj edited]
      exact (kept.newest.cut_concat memory).perm
        ((outcome_add notDeleted).symm.trans (outcome_perm made).symm)
  | delete id =>
    have few : (outcome initial s.committed).length ≤ MAX_ENTRIES := by
      cases label <;> cases label_eq
      exact serialized.2 _ here rfl
    obtain ⟨rest, memory, mem, found⟩ := edit_delete edited
    have outcome_t : (outcome initial t.committed).Perm
        ((outcome initial s.committed).filter (·.id ≠ id)) := outcome_delete ▸ outcome_perm made
    refine ⟨serial, nodup, fresh, fun id' gone => ?_, ?_⟩
    · have same : (t.committed.filterMap Update.memory?).Perm
        (s.committed.filterMap Update.memory?) := made.filterMap _
      refine ((same.append_left _).map _).mem_iff.2 ?_
      obtain rfl | old := List.mem_cons.1 ((made.filterMap Update.deleted?).mem_iff.1 gone)
      · rw [← found]
        exact List.mem_map_of_mem (List.mem_of_mem_filter (kept.newest.mem mem))
      · exact kept.known id' old
    · rw [rest]
      refine Newest.isNewest_of_perm
        (((kept.newest.perm_of_le few).filter _).trans outcome_t.symm) ?_
      exact outcome_t.length_eq ▸ (List.length_filter_le _ _).trans few

/-- A call that has settled has added its entry. -/
theorem Kept.committed_eq (kept : Kept initial s) (settled : s.allSettled = true) :
    s.committed.filterMap Update.memory? = written s := by
  rw [TempFile.State.committed, written, TempFile.State.updates, List.filterMap_map,
    List.filterMap_map, List.filterMap_filter]
  refine List.filterMap_congr fun call mem => ?_
  obtain ⟨update, stage⟩ := call
  have fits := kept.serial.fits _ mem
  have ended := List.all_eq_true.1 settled _ mem
  cases update with
  | delete => simp only [Function.comp_apply, Update.memory?, ite_self]
  | add =>
    cases stage with
    | called | loaded | written => cases ended
    | failed => exact fits.elim
    | settled changed =>
      cases changed with
      | true => rfl
      | false =>
        obtain ⟨file, unchanged⟩ := fits rfl
        cases unchanged

theorem Kept.law (kept : Kept initial s) : Law initial s := by
  refine ⟨kept.serial.failed_eq, fun settled => ?_⟩
  rw [← kept.committed_eq settled]
  exact kept.newest

/-- Calls that load for a change one at a time lose no update. -/
theorem law_of_serialized {initial : Option Json} {temp : Option (Option Json)}
    {labels : List Label} {s : State} (small : (loadAll initial).length ≤ MAX_ENTRIES)
    (run : Transition.Run (step initial) (Serialized initial) { file := initial, temp } labels s) :
    Law initial s :=
  (run.invariant (Kept initial) (kept_init small temp) fun _ _ _ kept serialized next =>
    kept.step serialized next).law

def instant : NumberToken := ⟨['1'], List.forall_mem_singleton.2 rfl⟩

/-- A write, and then a delete of what was written. -/
def writeThenDelete : List Label :=
  [.write "a" instant { content := "first" }, .load 0, .writeFile 0, .rename 0,
    .delete "a", .load 1, .writeFile 1, .rename 1]

theorem law_writeThenDelete : ∃ s, Transition.Run (step none) (Serialized none)
    { file := none } writeThenDelete s ∧ s.allSettled = true ∧ Law none s := by
  obtain ⟨s, ran⟩ : ∃ s, Transition.exec (Transition.guarded (step none) (Serialized none))
      { file := none } writeThenDelete = some s := Option.isSome_iff_exists.1 (by decide +kernel)
  have settled : (Transition.exec (Transition.guarded (step none) (Serialized none))
      { file := none } writeThenDelete).all (·.allSettled) = true := by decide +kernel
  rw [ran] at settled
  have run := Transition.Run.of_exec ran
  exact ⟨s, run, settled, law_of_serialized (Nat.zero_le _) run⟩

/-- The second of two writes loads before the first has renamed. -/
def interleavedWrites : List Label :=
  [.write "a" instant { content := "first" },
    .write "b" instant { content := "second" },
    .load 0, .load 1, .writeFile 0, .rename 0, .writeFile 1, .rename 1]

/-- Both writes settle, but only the second is in the file. -/
theorem interleavedWrite_lost : ¬ ∀ (initial : Option Json) (labels : List Label) (s : State),
    (loadAll initial).length ≤ MAX_ENTRIES →
      Transition.Run (step initial) Transition.Always { file := initial } labels s →
        Law initial s := by
  intro law
  have ends : (Transition.exec (Transition.guarded (step none) Transition.Always)
      { file := none } interleavedWrites).map (fun s =>
        (s.allSettled, (loadAll s.file).length, (expected none (written s) (deleted s)).length)) =
      some (true, 1, 2) := by decide +kernel
  obtain ⟨s, ran, result⟩ := Option.map_eq_some_iff.1 ends
  obtain ⟨settled, stored, all⟩ : s.allSettled = true ∧ (loadAll s.file).length = 1 ∧
      (expected none (written s) (deleted s)).length = 2 := by
    simpa only [Prod.mk.injEq] using result
  have newest := (law none _ s (Nat.zero_le _) (Transition.Run.of_exec ran)).2 settled
  rw [Newest.IsNewest, stored, all] at newest
  exact absurd newest.1 (by decide)

/-- When both have written the temporary file before the first rename, the second fails. -/
example : (Transition.exec (step none) { file := none } [
    .write "a" instant { content := "first" },
    .write "b" instant { content := "second" },
    .load 0, .load 1, .writeFile 0, .writeFile 1, .rename 0, .rename 1]).map (·.failed) =
    some true := by decide +kernel

end MemoryStore

end KimiCli
