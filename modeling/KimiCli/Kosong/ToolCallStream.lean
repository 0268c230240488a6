import KimiCli.Kosong.Message
import KimiCli.Lib.OrderedMap
import Mathlib.Data.List.Induction

/-!
# Tool-call deltas of a chat-completions stream

`providers/chat-completions-stream.ts`: the deltas of a stream index are buffered until the first
one that carries a name, which becomes the header of the call; the later ones become argument parts.
The state at an index is a function of the deltas of that index so far (`BuffersAt`), and every
delta keeps that of all indexes.
-/

namespace KimiCli

/-- `ChatCompletionStreamToolFunctionDelta`; a missing field and `null` are treated alike. -/
structure StreamToolFunctionDelta where
  name : Option String
  arguments : Option String

/-- `ChatCompletionStreamToolCallDelta`; the id `some none` is `null`. -/
structure StreamToolCallDelta where
  index : Option StreamIndex
  id : Option (Option String)
  function : Option StreamToolFunctionDelta

structure BufferedToolCall where
  id : Option (Option String) := none
  arguments : String := ""
  emitted : Bool := false

namespace StreamToolFunctionDelta

/-- The name, where `hasConcreteName` is true. -/
def concreteName (f : StreamToolFunctionDelta) : Option String :=
  f.name.filter (· ≠ "")

/-- The arguments, where `hasArguments` is true. -/
def concreteArguments (f : StreamToolFunctionDelta) : Option String :=
  f.arguments.filter (· ≠ "")

end StreamToolFunctionDelta

/-- The branches for a delta with a stream index. -/
def BufferedToolCall.receive (randomUUID : String) (buffered : BufferedToolCall)
    (streamIndex : StreamIndex) (id : Option (Option String)) (f : StreamToolFunctionDelta) :
    BufferedToolCall × List StreamedMessagePart :=
  let buffered := { buffered with id := id.or buffered.id }
  if buffered.emitted then
    match f.concreteArguments with
    | none => (buffered, [])
    | some text => (buffered, [.toolCallPart (some text) (some streamIndex)])
  else
    match f.concreteName with
    | none => ({ buffered with arguments := buffered.arguments ++ f.concreteArguments.getD "" }, [])
    | some name =>
      ({ buffered with arguments := "", emitted := true },
        [.toolCall
          { id := (buffered.id.join.or id.join).getD randomUUID
            name := name
            arguments :=
              if buffered.arguments = "" then f.arguments
              else some (buffered.arguments ++ f.arguments.getD "")
            streamIndex := some streamIndex }])

/-- The parts of one delta, and the buffers after it.  `randomUUID` is what `crypto.randomUUID()`
would give. -/
def convertChatCompletionStreamToolCall (randomUUID : String) (toolCall : StreamToolCallDelta)
    (bufferedByIndex : OrderedMap StreamIndex BufferedToolCall) :
    OrderedMap StreamIndex BufferedToolCall × List StreamedMessagePart :=
  match toolCall.function with
  | none => (bufferedByIndex, [])
  | some f =>
    match toolCall.index with
    | none =>
      match f.concreteName, f.concreteArguments with
      | some name, _ =>
        (bufferedByIndex,
          [.toolCall
            { id := toolCall.id.join.getD randomUUID, name := name, arguments := f.arguments }])
      | none, some text => (bufferedByIndex, [.toolCallPart (some text) none])
      | none, none => (bufferedByIndex, [])
    | some streamIndex =>
      let buffered := (bufferedByIndex.get streamIndex).getD {}
      let received := buffered.receive randomUUID streamIndex toolCall.id f
      (bufferedByIndex.set streamIndex received.1, received.2)

/-- The loop over the deltas of a response, each with the id that would be drawn for it. -/
def convertToolCallDeltas (deltas : List (StreamToolCallDelta × String)) :
    OrderedMap StreamIndex BufferedToolCall × List StreamedMessagePart :=
  deltas.foldl (fun (buffers, parts) (delta, randomUUID) =>
    let converted := convertChatCompletionStreamToolCall randomUUID delta buffers
    (converted.1, parts ++ converted.2)) (∅, [])

/-! ## What a stream of deltas says about an index -/

def StreamedMessagePart.index : StreamedMessagePart → Option StreamIndex
  | .content _ => none
  | .toolCall call => call.streamIndex
  | .toolCallPart _ index => index

/-- The argument text that a part carries. -/
def StreamedMessagePart.argumentText : StreamedMessagePart → String
  | .content _ => ""
  | .toolCall call => call.arguments.getD ""
  | .toolCallPart argumentsPart _ => argumentsPart.getD ""

/-- The parts tagged with an index, in emission order. -/
def partsAt (i : StreamIndex) (parts : List StreamedMessagePart) : List StreamedMessagePart :=
  parts.filter (·.index = some i)

def textOfParts (parts : List StreamedMessagePart) : String :=
  String.join (parts.map (·.argumentText))

namespace StreamToolCallDelta

/-- The delta gives its call a name. -/
def named (delta : StreamToolCallDelta) : Bool :=
  (delta.function.bind (·.concreteName)).isSome

def chunk (delta : StreamToolCallDelta) : String :=
  (delta.function.bind (·.arguments)).getD ""

end StreamToolCallDelta

/-- The deltas of an index in arrival order. -/
def deltasAt (i : StreamIndex) (deltas : List StreamToolCallDelta) : List StreamToolCallDelta :=
  deltas.filter (·.index = some i)

/-- All argument chunks received for an index. -/
def chunksAt (i : StreamIndex) (deltas : List StreamToolCallDelta) : String :=
  String.join ((deltasAt i deltas).map (·.chunk))

/-- The deltas up to and including the first that carries a name. -/
def throughName : List StreamToolCallDelta → List StreamToolCallDelta
  | [] => []
  | delta :: deltas => if delta.named then [delta] else delta :: throughName deltas

/-- The most recent id that the deltas carry. -/
def lastId (deltas : List StreamToolCallDelta) : Option String :=
  (deltas.filterMap (·.id.join)).getLast?

/-- The most recent defined id, `null` included, among the deltas with a function. -/
def lastDefinedId (deltas : List StreamToolCallDelta) : Option (Option String) :=
  ((deltas.filter (·.function.isSome)).filterMap (·.id)).getLast?

/-- No part at an index without a name; else one header, followed by argument parts, which carry
together just the chunks of the index, and the id that came last before the name is the header's. -/
structure ReassembledAt (i : StreamIndex) (deltas : List StreamToolCallDelta)
    (parts : List StreamedMessagePart) : Prop where
  silent : (deltasAt i deltas).any (·.named) = false → partsAt i parts = []
  header : (deltasAt i deltas).any (·.named) = true → ∃ call rest,
    partsAt i parts = .toolCall call :: rest ∧
    (∀ part ∈ rest, ∃ text, part = .toolCallPart (some text) (some i)) ∧
    textOfParts (partsAt i parts) = chunksAt i deltas ∧
    ∀ id, lastId (throughName (deltasAt i deltas)) = some id → call.id = id

/-- The deltas are reassembled at every index, whatever ids are drawn. -/
def Reassembled (deltas : List StreamToolCallDelta) : Prop :=
  ∀ drawn : List (StreamToolCallDelta × String), drawn.map Prod.fst = deltas →
    ∀ i, ReassembledAt i deltas (convertToolCallDeltas drawn).2

/-- At every index with a name, the most recent id up to the name is also the most recent defined
one that came with a function. -/
def IdsRecorded (deltas : List StreamToolCallDelta) : Prop :=
  ∀ i, (deltasAt i deltas).any (·.named) = true →
    ∀ id, lastId (throughName (deltasAt i deltas)) = some id →
      lastDefinedId (throughName (deltasAt i deltas)) = some (some id)

/-! ## One more delta -/

section

variable {i : StreamIndex} {deltas : List StreamToolCallDelta} {delta : StreamToolCallDelta}
  {parts parts' : List StreamedMessagePart}

theorem deltasAt_concat_self (same : delta.index = some i) :
    deltasAt i (deltas ++ [delta]) = deltasAt i deltas ++ [delta] := by
  rw [deltasAt, List.filter_append, List.filter_singleton, same, decide_eq_true rfl]
  rfl

theorem deltasAt_concat_ne (other : delta.index ≠ some i) :
    deltasAt i (deltas ++ [delta]) = deltasAt i deltas := by
  rw [deltasAt, List.filter_append, List.filter_singleton, decide_eq_false other]
  exact List.append_nil _

theorem chunksAt_concat_self (same : delta.index = some i) :
    chunksAt i (deltas ++ [delta]) = chunksAt i deltas ++ delta.chunk := by
  rw [chunksAt, deltasAt_concat_self same, List.map_append, String.join_append]
  rfl

theorem partsAt_append (i : StreamIndex) (parts parts' : List StreamedMessagePart) :
    partsAt i (parts ++ parts') = partsAt i parts ++ partsAt i parts' :=
  List.filter_append _ _

theorem partsAt_singleton_ne {part : StreamedMessagePart} (other : part.index ≠ some i) :
    partsAt i [part] = [] := by
  rw [partsAt, List.filter_singleton, decide_eq_false other]
  rfl

theorem partsAt_singleton_self {part : StreamedMessagePart} (same : part.index = some i) :
    partsAt i [part] = [part] := by
  rw [partsAt, List.filter_singleton, same, decide_eq_true rfl]
  rfl

theorem textOfParts_append (parts parts' : List StreamedMessagePart) :
    textOfParts (parts ++ parts') = textOfParts parts ++ textOfParts parts' := by
  rw [textOfParts, List.map_append, String.join_append]
  rfl

theorem textOfParts_singleton (part : StreamedMessagePart) :
    textOfParts [part] = part.argumentText :=
  String.empty_append

theorem throughName_append_of_named (named : deltas.any (·.named) = true)
    (deltas' : List StreamToolCallDelta) :
    throughName (deltas ++ deltas') = throughName deltas := by
  induction deltas with
  | nil => exact absurd named Bool.false_ne_true
  | cons d ds ih =>
    rw [List.cons_append, throughName, throughName]
    split
    case isTrue => rfl
    case isFalse unnamed =>
      rw [List.any_cons, Bool.eq_false_iff.2 unnamed, Bool.false_or] at named
      rw [ih named]

theorem throughName_concat_of_unnamed (unnamed : deltas.any (·.named) = false) :
    throughName (deltas ++ [delta]) = deltas ++ [delta] := by
  induction deltas with
  | nil => exact ite_self _
  | cons d ds ih =>
    rw [List.any_cons, Bool.or_eq_false_iff] at unnamed
    rw [List.cons_append, throughName, unnamed.1, if_neg Bool.false_ne_true, ih unnamed.2]

theorem lastDefinedId_concat_silent (silent : delta.function = none) :
    lastDefinedId (deltas ++ [delta]) = lastDefinedId deltas := by
  rw [lastDefinedId, List.filter_append, List.filter_singleton, silent]
  exact congrArg (fun l => (List.filterMap StreamToolCallDelta.id l).getLast?) (List.append_nil _)

theorem lastDefinedId_concat (deltas : List StreamToolCallDelta) (f : StreamToolFunctionDelta)
    (function : delta.function = some f) :
    lastDefinedId (deltas ++ [delta]) = delta.id.or (lastDefinedId deltas) := by
  rw [lastDefinedId, List.filter_append, List.filter_singleton, function, List.filterMap_append]
  cases given : delta.id with
  | none =>
    simp only [Option.isSome_some, cond_true, List.filterMap_cons, given, List.filterMap_nil,
      List.append_nil, Option.none_or]
    rfl
  | some =>
    simp only [Option.isSome_some, cond_true, List.filterMap_cons, given, List.filterMap_nil,
      List.getLast?_append, List.getLast?_singleton, Option.some_or]

end

/-! ## The state at an index -/

/-- What the deltas so far leave at an index: before its name, the buffered text and id; after it,
the parts emitted. -/
structure BuffersAt (i : StreamIndex) (drawn : List (StreamToolCallDelta × String))
    (buffers : OrderedMap StreamIndex BufferedToolCall) (parts : List StreamedMessagePart) :
    Prop where
  emitted : ((buffers.get i).getD {}).emitted = (deltasAt i (drawn.map Prod.fst)).any (·.named)
  unnamed : (deltasAt i (drawn.map Prod.fst)).any (·.named) = false →
    partsAt i parts = [] ∧
    ((buffers.get i).getD {}).arguments = chunksAt i (drawn.map Prod.fst) ∧
    ((buffers.get i).getD {}).id = lastDefinedId (deltasAt i (drawn.map Prod.fst))
  named : (deltasAt i (drawn.map Prod.fst)).any (·.named) = true → ∃ call rest,
    partsAt i parts = .toolCall call :: rest ∧
    (∀ part ∈ rest, ∃ text, part = .toolCallPart (some text) (some i)) ∧
    textOfParts (partsAt i parts) = chunksAt i (drawn.map Prod.fst) ∧
    ∃ entry ∈ drawn, call.id =
      (lastDefinedId (throughName (deltasAt i (drawn.map Prod.fst)))).join.getD entry.2

section

variable {i : StreamIndex} {drawn : List (StreamToolCallDelta × String)}
  {delta : StreamToolCallDelta} {r : String} {buffers : OrderedMap StreamIndex BufferedToolCall}
  {parts : List StreamedMessagePart} {f : StreamToolFunctionDelta}

theorem convert_elsewhere (r : String)
    (buffers : OrderedMap StreamIndex BufferedToolCall) (other : delta.index ≠ some i) :
    (convertChatCompletionStreamToolCall r delta buffers).1.get i = buffers.get i ∧
      partsAt i (convertChatCompletionStreamToolCall r delta buffers).2 = [] := by
  unfold convertChatCompletionStreamToolCall
  cases delta.function with
  | none => exact ⟨rfl, rfl⟩
  | some =>
    cases tagged : delta.index with
    | none =>
      have unindexed {part : StreamedMessagePart} (index : part.index = none) :
          partsAt i [part] = [] :=
        partsAt_singleton_ne (index ▸ (Option.some_ne_none i).symm)
      dsimp only
      split
      · exact ⟨rfl, unindexed rfl⟩
      · exact ⟨rfl, unindexed rfl⟩
      · exact ⟨rfl, rfl⟩
    | some j =>
      have ne : i ≠ j := fun same => other (tagged.trans (congrArg some same.symm))
      refine ⟨OrderedMap.get_set_ne _ _ ne, ?_⟩
      refine List.filter_eq_nil_iff.2 fun part mem tagged => ne ?_
      have index : part.index = some j := by
        unfold BufferedToolCall.receive at mem
        dsimp only at mem
        split at mem
        · split at mem
          · exact absurd mem List.not_mem_nil
          · rw [List.mem_singleton.1 mem]
            rfl
        · split at mem
          · exact absurd mem List.not_mem_nil
          · rw [List.mem_singleton.1 mem]
            rfl
      rw [index, decide_eq_true_eq] at tagged
      exact (Option.some.inj tagged).symm

theorem convert_of_silent (silent : delta.function = none) :
    convertChatCompletionStreamToolCall r delta buffers = (buffers, []) := by
  rw [convertChatCompletionStreamToolCall, silent]

theorem convert_at (same : delta.index = some i) (function : delta.function = some f) :
    convertChatCompletionStreamToolCall r delta buffers =
      (buffers.set i (((buffers.get i).getD {}).receive r i delta.id f).1,
        (((buffers.get i).getD {}).receive r i delta.id f).2) := by
  simp only [convertChatCompletionStreamToolCall, function, same]

theorem named_of_function (function : delta.function = some f) :
    delta.named = f.concreteName.isSome := by
  rw [StreamToolCallDelta.named, function]
  rfl

theorem chunk_of_function (function : delta.function = some f) :
    delta.chunk = f.arguments.getD "" := by
  rw [StreamToolCallDelta.chunk, function]
  rfl

theorem concreteArguments_getD (f : StreamToolFunctionDelta) :
    f.concreteArguments.getD "" = f.arguments.getD "" := by
  unfold StreamToolFunctionDelta.concreteArguments
  cases f.arguments with
  | none => rfl
  | some text =>
    by_cases empty : text = ""
    · rw [empty]
      rfl
    · simp only [Option.filter_some, decide_eq_true empty, if_true]

theorem join_or_join (id recorded : Option (Option String)) :
    (id.or recorded).join.or id.join = (id.or recorded).join := by
  rcases id with - | - | id
  · exact Option.or_none
  · rfl
  · rfl

theorem arguments_of_concrete {text : String} (concrete : f.concreteArguments = some text) :
    f.arguments = some text :=
  (Option.filter_eq_some_iff.1 concrete).1

theorem BuffersAt.elsewhere (held : BuffersAt i drawn buffers parts)
    (other : delta.index ≠ some i) :
    BuffersAt i (drawn ++ [(delta, r)]) (convertChatCompletionStreamToolCall r delta buffers).1
      (parts ++ (convertChatCompletionStreamToolCall r delta buffers).2) := by
  obtain ⟨kept, silent⟩ := convert_elsewhere r buffers other
  have deltas : deltasAt i ((drawn ++ [(delta, r)]).map Prod.fst) =
      deltasAt i (drawn.map Prod.fst) := by
    rw [List.map_append]
    exact deltasAt_concat_ne other
  have emitted : partsAt i (parts ++ (convertChatCompletionStreamToolCall r delta buffers).2) =
      partsAt i parts := by
    rw [partsAt_append, silent, List.append_nil]
  have chunks : chunksAt i ((drawn ++ [(delta, r)]).map Prod.fst) =
      chunksAt i (drawn.map Prod.fst) := by
    rw [chunksAt, deltas, chunksAt]
  constructor
  · rw [kept, deltas]
    exact held.emitted
  · rw [kept, deltas, emitted, chunks]
    exact held.unnamed
  · rw [deltas, emitted, chunks]
    intro named
    obtain ⟨call, rest, shape, tail, text, entry, mem, id⟩ := held.named named
    exact ⟨call, rest, shape, tail, text, entry, List.mem_append_left _ mem, id⟩

theorem BuffersAt.silent (held : BuffersAt i drawn buffers parts) (same : delta.index = some i)
    (silent : delta.function = none) : BuffersAt i (drawn ++ [(delta, r)]) buffers parts := by
  have deltas : deltasAt i ((drawn ++ [(delta, r)]).map Prod.fst) =
      deltasAt i (drawn.map Prod.fst) ++ [delta] := by
    rw [List.map_append]
    exact deltasAt_concat_self same
  have chunks : chunksAt i ((drawn ++ [(delta, r)]).map Prod.fst) =
      chunksAt i (drawn.map Prod.fst) := by
    rw [List.map_append]
    refine (chunksAt_concat_self same).trans ?_
    rw [StreamToolCallDelta.chunk, silent]
    exact String.append_empty
  have named : ((deltasAt i (drawn.map Prod.fst) ++ [delta]).any (·.named)) =
      (deltasAt i (drawn.map Prod.fst)).any (·.named) := by
    rw [List.any_append, List.any_cons, StreamToolCallDelta.named, silent]
    exact Bool.or_false _
  constructor
  · rw [deltas, named]
    exact held.emitted
  · rw [deltas, named, chunks, lastDefinedId_concat_silent silent]
    exact held.unnamed
  · rw [deltas, named, chunks]
    intro named
    obtain ⟨call, rest, shape, tail, text, entry, mem, id⟩ := held.named named
    rw [throughName_append_of_named named]
    exact ⟨call, rest, shape, tail, text, entry, List.mem_append_left _ mem, id⟩

theorem BuffersAt.received (held : BuffersAt i drawn buffers parts) (same : delta.index = some i)
    (function : delta.function = some f) :
    BuffersAt i (drawn ++ [(delta, r)])
      (buffers.set i (((buffers.get i).getD {}).receive r i delta.id f).1)
      (parts ++ (((buffers.get i).getD {}).receive r i delta.id f).2) := by
  obtain ⟨emitted, unnamed, named⟩ := held
  generalize (buffers.get i).getD {} = b at emitted unnamed ⊢
  have deltas : deltasAt i ((drawn ++ [(delta, r)]).map Prod.fst) =
      deltasAt i (drawn.map Prod.fst) ++ [delta] := by
    rw [List.map_append]
    exact deltasAt_concat_self same
  have chunks : chunksAt i ((drawn ++ [(delta, r)]).map Prod.fst) =
      chunksAt i (drawn.map Prod.fst) ++ f.arguments.getD "" := by
    rw [List.map_append, ← chunk_of_function function]
    exact chunksAt_concat_self same
  have named' : ((deltasAt i (drawn.map Prod.fst) ++ [delta]).any (·.named)) =
      ((deltasAt i (drawn.map Prod.fst)).any (·.named) || f.concreteName.isSome) := by
    rw [List.any_append, List.any_cons, List.any_nil, Bool.or_false, named_of_function function]
  cases phase : b.emitted with
  | true =>
    rw [phase] at emitted
    obtain ⟨call, rest, shape, tail, text, entry, mem, id⟩ := named emitted.symm
    have through := throughName_append_of_named emitted.symm [delta]
    rw [BufferedToolCall.receive]
    rw [phase, if_pos rfl]
    cases concrete : f.concreteArguments with
    | none =>
      have empty : f.arguments.getD "" = "" := by
        rw [← concreteArguments_getD, concrete, Option.getD_none]
      constructor
      · rw [deltas, named', OrderedMap.get_set_self, ← emitted, Bool.true_or]
        rfl
      · intro unnamed'
        rw [deltas, named', ← emitted, Bool.true_or] at unnamed'
        exact absurd unnamed'.symm Bool.false_ne_true
      · intro _
        rw [deltas, through, chunks, empty, List.append_nil, String.append_empty]
        exact ⟨call, rest, shape, tail, text, entry, List.mem_append_left _ mem, id⟩
    | some chunk =>
      have received : partsAt i [.toolCallPart (some chunk) (some i)] =
          [.toolCallPart (some chunk) (some i)] := partsAt_singleton_self rfl
      constructor
      · rw [deltas, named', OrderedMap.get_set_self, ← emitted, Bool.true_or]
        rfl
      · intro unnamed'
        rw [deltas, named', ← emitted, Bool.true_or] at unnamed'
        exact absurd unnamed'.symm Bool.false_ne_true
      · intro _
        rw [deltas, through, chunks, partsAt_append, textOfParts_append, text, received]
        refine ⟨call, rest ++ [.toolCallPart (some chunk) (some i)], ?_, ?_, ?_,
          entry, List.mem_append_left _ mem, id⟩
        · rw [shape, List.cons_append]
        · intro part inside
          rcases List.mem_append.1 inside with old | new
          · exact tail part old
          · exact ⟨chunk, List.mem_singleton.1 new⟩
        · rw [arguments_of_concrete concrete]
          exact congrArg _ String.empty_append
  | false =>
    rw [phase] at emitted
    obtain ⟨silent, arguments, id⟩ := unnamed emitted.symm
    have recorded := lastDefinedId_concat (deltasAt i (drawn.map Prod.fst)) f function
    rw [← id] at recorded
    rw [BufferedToolCall.receive]
    rw [phase, if_neg Bool.false_ne_true]
    cases concrete : f.concreteName with
    | none =>
      rw [concrete, Option.isSome_none, Bool.or_false] at named'
      constructor
      · rw [deltas, named', OrderedMap.get_set_self, ← emitted]
        rfl
      · intro _
        rw [List.append_nil, OrderedMap.get_set_self, chunks, ← arguments,
          concreteArguments_getD, deltas, recorded]
        exact ⟨silent, rfl, rfl⟩
      · intro named
        rw [deltas, named', ← emitted] at named
        exact absurd named Bool.false_ne_true
    | some =>
      rw [concrete, Option.isSome_some, Bool.or_true] at named'
      constructor
      · rw [deltas, named', OrderedMap.get_set_self]
        rfl
      · intro unnamed'
        rw [deltas, named'] at unnamed'
        exact absurd unnamed'.symm Bool.false_ne_true
      · intro _
        rw [deltas, throughName_concat_of_unnamed emitted.symm, recorded, chunks, ← arguments,
          partsAt_append, silent, List.nil_append, partsAt_singleton_self rfl]
        refine ⟨_, [], rfl, fun part inside => absurd inside List.not_mem_nil, ?_,
          (delta, r), List.mem_append_right _ (List.mem_singleton.2 rfl), ?_⟩
        · rw [textOfParts_singleton, StreamedMessagePart.argumentText]
          by_cases empty : b.arguments = ""
          · rw [if_pos empty, empty, String.empty_append]
          · rw [if_neg empty, Option.getD_some]
        · dsimp only
          rw [join_or_join]

theorem BuffersAt.convert (held : BuffersAt i drawn buffers parts) (delta : StreamToolCallDelta)
    (r : String) :
    BuffersAt i (drawn ++ [(delta, r)]) (convertChatCompletionStreamToolCall r delta buffers).1
      (parts ++ (convertChatCompletionStreamToolCall r delta buffers).2) := by
  by_cases same : delta.index = some i
  · cases function : delta.function with
    | none =>
      rw [convert_of_silent function, List.append_nil]
      exact held.silent same function
    | some =>
      rw [convert_at same function]
      exact held.received same function
  · exact held.elsewhere same

theorem buffersAt_nil (i : StreamIndex) : BuffersAt i [] ∅ [] where
  emitted := rfl
  unnamed _ := ⟨rfl, rfl, rfl⟩
  named named := absurd named Bool.false_ne_true

theorem buffersAt_convertToolCallDeltas (i : StreamIndex)
    (drawn : List (StreamToolCallDelta × String)) :
    BuffersAt i drawn (convertToolCallDeltas drawn).1 (convertToolCallDeltas drawn).2 := by
  induction drawn using List.reverseRecOn with
  | nil => exact buffersAt_nil i
  | append_singleton drawn entry ih =>
    rw [convertToolCallDeltas, List.foldl_append, List.foldl_cons, List.foldl_nil]
    exact ih.convert entry.1 entry.2

end

/-! ## Reassembly -/

/-- The deltas are reassembled if and only if no id that came up to a name was passed over, because
its delta had no function or a later one said `null`. -/
theorem reassembled_iff_idsRecorded (deltas : List StreamToolCallDelta) :
    Reassembled deltas ↔ IdsRecorded deltas := by
  constructor
  · intro reassembled i named id given
    have settled (r : String) :
        (lastDefinedId (throughName (deltasAt i deltas))).join.getD r = id := by
      have projects : (deltas.map fun delta => (delta, r)).map Prod.fst = deltas := by
        rw [List.map_map]
        exact List.map_id deltas
      have held := buffersAt_convertToolCallDeltas i (deltas.map fun delta => (delta, r))
      have named' := held.named
      rw [projects] at named'
      obtain ⟨call, rest, shape, -, -, entry, mem, drawn⟩ := named' named
      obtain ⟨delta, inside, rfl⟩ := List.mem_map.1 mem
      obtain ⟨call', rest', shape', -, -, latest⟩ := (reassembled _ projects i).header named
      rw [shape] at shape'
      cases shape'
      exact drawn.symm.trans (latest id given)
    cases recorded : (lastDefinedId (throughName (deltasAt i deltas))).join with
    | some =>
      have same := settled ""
      rw [recorded, Option.getD_some] at same
      rw [← same]
      exact Option.join_eq_some_iff.1 recorded
    | none =>
      have longer := congrArg String.length (settled (id ++ "'"))
      rw [recorded, Option.getD_none, String.length_append] at longer
      exact absurd longer (Nat.succ_ne_self _)
  · rintro recorded drawn rfl i
    have held := buffersAt_convertToolCallDeltas i drawn
    refine ⟨fun unnamed => (held.unnamed unnamed).1, fun named => ?_⟩
    obtain ⟨call, rest, shape, tail, text, entry, -, id⟩ := held.named named
    refine ⟨call, rest, shape, tail, text, fun id' given => ?_⟩
    rw [id, recorded i named id' given]
    rfl

/-- The id of a first delta without a function is lost, and the call gets a drawn one. -/
theorem early_id_lost : ¬∀ deltas, Reassembled deltas := by
  intro all
  have law := all
    [⟨some (.number 0), some (some "call_1"), none⟩,
      ⟨some (.number 0), none, some ⟨some "Read", some "\x7b\x7d"⟩⟩]
    [(⟨some (.number 0), some (some "call_1"), none⟩, "drawn_1"),
      (⟨some (.number 0), none, some ⟨some "Read", some "\x7b\x7d"⟩⟩, "drawn_2")]
    rfl (.number 0)
  obtain ⟨call, rest, shape, -, -, latest⟩ := law.header (by decide)
  have same := latest "call_1" (by decide)
  injection shape with header
  injection header with header
  rw [← header] at same
  exact absurd same (by decide)

end KimiCli
