import KimiCli.Kosong.Assembly

/-!
# Live deltas of a streamed response

`agent/turn/kosong-llm.ts`: while `generate` assembles the message, `buildKosongCallbacks` forwards
each part to the loop's live callbacks, with its own routing of argument deltas.  The callbacks are
taken to be present; an absent one only drops its deltas.
-/

namespace KimiCli

structure ToolCallIdentity where
  toolCallId : String
  name : String

/-- The argument of `onToolCallDelta`; `argumentsPart` is absent for a `null` delta. -/
structure ToolCallDelta where
  toolCallId : String
  name : String
  argumentsPart : Option String

inductive LiveDelta
  | text (delta : String)
  | think (delta : String)
  | toolCall (delta : ToolCallDelta)

/-- The variables captured by the callbacks, and what they have emitted. -/
structure KosongCallbacks where
  toolCallIdentities : StreamIndex → Option ToolCallIdentity := fun _ => none
  pendingIndexedToolCallDeltas : StreamIndex → Option (List (Option String)) := fun _ => none
  lastToolCallIdentity : Option ToolCallIdentity := none
  emitted : List LiveDelta := []

namespace KosongCallbacks

def emitToolCallDelta (k : KosongCallbacks) (identity : ToolCallIdentity)
    (argumentsPart : Option String) : KosongCallbacks :=
  { k with emitted := k.emitted ++
      [.toolCall { toolCallId := identity.toolCallId, name := identity.name, argumentsPart }] }

/-- The branch for a tool-call header. -/
def onHeader (k : KosongCallbacks) (part : ToolCall) : KosongCallbacks :=
  let identity : ToolCallIdentity := { toolCallId := part.id, name := part.name }
  match part.streamIndex with
  | none =>
    let k := { k with lastToolCallIdentity := some identity }
    k.emitToolCallDelta identity part.arguments
  | some index =>
    let k := { k with
      lastToolCallIdentity := some identity
      toolCallIdentities := Function.update k.toolCallIdentities index (some identity) }
    let k := k.emitToolCallDelta identity part.arguments
    match k.pendingIndexedToolCallDeltas index with
    | none => k
    | some pendingDeltas =>
      pendingDeltas.foldl (fun k delta => k.emitToolCallDelta identity delta)
        { k with
          pendingIndexedToolCallDeltas :=
            Function.update k.pendingIndexedToolCallDeltas index none }

/-- The branch for an argument delta. -/
def onDelta (k : KosongCallbacks) (argumentsPart : Option String) :
    Option StreamIndex → KosongCallbacks
  | some index =>
    match k.toolCallIdentities index with
    | none =>
      let pendingDeltas := (k.pendingIndexedToolCallDeltas index).getD []
      { k with
        pendingIndexedToolCallDeltas := Function.update k.pendingIndexedToolCallDeltas index
          (some (pendingDeltas ++ [argumentsPart])) }
    | some identity => k.emitToolCallDelta identity argumentsPart
  | none =>
    match k.lastToolCallIdentity with
    | none => k
    | some identity => k.emitToolCallDelta identity argumentsPart

def onMessagePart (k : KosongCallbacks) : StreamedMessagePart → KosongCallbacks
  | .content (.text value) => { k with emitted := k.emitted ++ [.text value] }
  | .content (.think value _) => { k with emitted := k.emitted ++ [.think value] }
  | .content _ => k
  | .toolCall part => k.onHeader part
  | .toolCallPart argumentsPart index => k.onDelta argumentsPart index

end KosongCallbacks

/-- Everything the live callbacks emit for a stream. -/
def liveDeltas (parts : List StreamedMessagePart) : List LiveDelta :=
  (parts.foldl KosongCallbacks.onMessagePart {}).emitted

/-- The live argument parts emitted for one tool-call id, in order. -/
def liveArguments (toolCallId : String) (deltas : List LiveDelta) : List (Option String) :=
  deltas.filterMap fun
    | .toolCall delta => if delta.toolCallId = toolCallId then some delta.argumentsPart else none
    | _ => none

/-! ### What is emitted for one call -/

variable {pre : List StreamedMessagePart} {k : KosongCallbacks} {call : ToolCall}
  {index : StreamIndex} {argumentsPart : Option String}

/-- Some unindexed delta comes after the header of `call`, before any other header, but not before
the next content part. -/
def Strays (call : ToolCall) (parts : List StreamedMessagePart) : Prop :=
  ∃ before argumentsPart after, parts = before ++ .toolCallPart argumentsPart none :: after ∧
    (headers before).getLast? = some call ∧ openCall before = none

theorem Strays.concat (h : Strays call pre) (part : StreamedMessagePart) :
    Strays call (pre ++ [part]) := by
  obtain ⟨before, argumentsPart, after, rfl, last, closed⟩ := h
  exact ⟨before, argumentsPart, after ++ [part], by simp, last, closed⟩

/-- `callArguments` before the deltas are joined. -/
def argumentsParts (parts : List StreamedMessagePart) (call : ToolCall) : List (Option String) :=
  call.arguments :: call.streamIndex.elim [] (deltasOf · parts)

/-- `k` is a state of the callbacks after the parts `pre`. -/
structure Emits (pre : List StreamedMessagePart) (k : KosongCallbacks) : Prop where
  identities : ∀ c ∈ headers pre, ∀ index, c.streamIndex = some index →
    k.toolCallIdentities index = some { toolCallId := c.id, name := c.name }
  buffered : ∀ index, k.pendingIndexedToolCallDeltas index = none
  last : k.lastToolCallIdentity =
    (headers pre).getLast?.map fun c => { toolCallId := c.id, name := c.name }
  unknown : ∀ id, (∀ c ∈ headers pre, c.id ≠ id) → liveArguments id k.emitted = []
  known : ∀ call ∈ headers pre, (∀ c ∈ headers pre, c.id = call.id → c = call) →
    ¬ Strays call pre → liveArguments call.id k.emitted = argumentsParts pre call

theorem liveArguments_append (id : String) (xs ys : List LiveDelta) :
    liveArguments id (xs ++ ys) = liveArguments id xs ++ liveArguments id ys := by
  simp [liveArguments]

theorem liveArguments_emit (k : KosongCallbacks) (identity : ToolCallIdentity) (id : String) :
    liveArguments id (k.emitToolCallDelta identity argumentsPart).emitted =
      liveArguments id k.emitted ++ if identity.toolCallId = id then [argumentsPart] else [] := by
  rw [KosongCallbacks.emitToolCallDelta, liveArguments_append]
  split_ifs with same <;> simp [liveArguments, same]

theorem emits_init : Emits [] {} := by
  constructor <;> simp [headers, liveArguments]

theorem Emits.content_part (h : Emits pre k) (part : ContentPart) :
    Emits (pre ++ [.content part]) (k.onMessagePart (.content part)) := by
  have emitted : ∀ id, liveArguments id (k.onMessagePart (.content part)).emitted =
      liveArguments id k.emitted := by
    intro id
    cases part <;> simp [KosongCallbacks.onMessagePart, liveArguments]
  have same : argumentsParts (pre ++ [.content part]) = argumentsParts pre := by
    funext c
    simp [argumentsParts]
  exact
    { identities := by
        rw [headers_content]
        cases part <;> exact h.identities
      buffered := by cases part <;> exact h.buffered
      last := by
        rw [headers_content]
        cases part <;> exact h.last
      unknown := fun id fresh => (emitted id).trans (h.unknown id (by simpa using fresh))
      known := fun call mem unique strays => by
        rw [emitted, same]
        exact h.known call (by simpa using mem) (by simpa using unique)
          fun h => strays (h.concat _) }

theorem Emits.tool_call (h : Emits pre k) (routed : WellRouted pre)
    (hindex : call.streamIndex = some index)
    (fresh : ∀ c ∈ headers pre, c.streamIndex ≠ some index) :
    Emits (pre ++ [.toolCall call]) (k.onMessagePart (.toolCall call)) := by
  have next : k.onMessagePart (.toolCall call) = KosongCallbacks.emitToolCallDelta
      { k with
        lastToolCallIdentity := some { toolCallId := call.id, name := call.name }
        toolCallIdentities := Function.update k.toolCallIdentities index
          (some { toolCallId := call.id, name := call.name }) }
      { toolCallId := call.id, name := call.name } call.arguments := by
    simp [KosongCallbacks.onMessagePart, KosongCallbacks.onHeader, hindex,
      KosongCallbacks.emitToolCallDelta, h.buffered]
  have same : argumentsParts (pre ++ [.toolCall call]) = argumentsParts pre := by
    funext c
    simp [argumentsParts]
  rw [next]
  exact
    { identities := by
        intro c mem j hj
        change Function.update k.toolCallIdentities index _ j = _
        rcases List.mem_append.1 (headers_toolCall ▸ mem) with mem | mem
        · have ne : j ≠ index := by
            rintro rfl
            exact fresh c mem hj
          rw [Function.update_of_ne ne]
          exact h.identities c mem j hj
        · obtain rfl := List.mem_singleton.1 mem
          obtain rfl : index = j := Option.some.inj (hindex.symm.trans hj)
          simp
      buffered := h.buffered
      last := by simp [KosongCallbacks.emitToolCallDelta]
      unknown := by
        intro id new
        rw [liveArguments_emit, if_neg (new call (by simp))]
        simpa using h.unknown id fun c mem => new c (by simp [mem])
      known := by
        intro c mem unique strays
        rw [liveArguments_emit, same]
        rcases List.mem_append.1 (headers_toolCall ▸ mem) with mem | mem
        · have ne : call.id ≠ c.id := by
            intro heq
            obtain rfl := unique call (by simp) heq
            exact fresh call mem hindex
          rw [if_neg ne, List.append_nil]
          exact h.known c mem (fun d hd => unique d (by simp [hd])) fun h => strays (h.concat _)
        · obtain rfl := List.mem_singleton.1 mem
          have new : ∀ d ∈ headers pre, d.id ≠ c.id := by
            intro d hd heq
            obtain rfl := unique d (by simp [hd]) heq
            exact fresh d hd hindex
          rw [if_pos rfl, h.unknown c.id new]
          simp [argumentsParts, hindex, routed.deltasOf_eq_nil fresh] }

theorem Emits.emit (h : Emits pre k) (routed : WellRouted pre) {i : Option StreamIndex}
    (mem : call ∈ headers pre)
    (target : ¬ Strays call (pre ++ [.toolCallPart argumentsPart i]) →
      call.streamIndex = i.or (openCall pre))
    (other : ∀ c ∈ headers pre, c ≠ call → c.streamIndex ≠ i.or (openCall pre)) :
    Emits (pre ++ [.toolCallPart argumentsPart i])
      (k.emitToolCallDelta { toolCallId := call.id, name := call.name } argumentsPart) where
  identities := by
    rw [headers_toolCallPart]
    exact h.identities
  buffered := h.buffered
  last := by
    rw [headers_toolCallPart]
    exact h.last
  unknown := by
    intro id new
    rw [headers_toolCallPart] at new
    rw [liveArguments_emit, if_neg (new call mem), List.append_nil]
    exact h.unknown id new
  known := by
    intro c hc unique strays
    rw [headers_toolCallPart] at hc unique
    obtain ⟨j, hj⟩ := routed.indexed c hc
    rw [liveArguments_emit, h.known c hc unique fun h => strays (h.concat _)]
    simp only [argumentsParts, hj, Option.elim_some, deltasOf_toolCallPart]
    by_cases heq : call.id = c.id
    · obtain rfl := unique call mem heq
      rw [if_pos heq, if_pos ((target strays).symm.trans hj)]
      rfl
    · rw [if_neg heq,
        if_neg fun same => other c hc (by rintro rfl; exact heq rfl) (hj.trans same.symm)]
      simp

theorem Emits.indexed_delta (h : Emits pre k) (routed : WellRouted pre)
    (mem : call ∈ headers pre) (hindex : call.streamIndex = some index) :
    Emits (pre ++ [.toolCallPart argumentsPart (some index)])
      (k.onMessagePart (.toolCallPart argumentsPart (some index))) := by
  have next : k.onMessagePart (.toolCallPart argumentsPart (some index)) =
      k.emitToolCallDelta { toolCallId := call.id, name := call.name } argumentsPart := by
    simp [KosongCallbacks.onMessagePart, KosongCallbacks.onDelta,
      h.identities call mem index hindex]
  rw [next]
  refine h.emit routed mem (fun _ => hindex) fun c hc ne same => ne ?_
  exact routed.eq_of_streamIndex hc mem (same.trans hindex.symm)

theorem Emits.unindexed_delta (h : Emits pre k) (routed : WellRouted pre) :
    Emits (pre ++ [.toolCallPart argumentsPart none])
      (k.onMessagePart (.toolCallPart argumentsPart none)) := by
  rcases hlast : (headers pre).getLast? with _ | last
  · have next : k.onMessagePart (.toolCallPart argumentsPart none) = k := by
      simp [KosongCallbacks.onMessagePart, KosongCallbacks.onDelta, h.last, hlast]
    have empty : headers pre = [] := List.getLast?_eq_none_iff.1 hlast
    rw [next]
    exact
      { identities := by simp [empty]
        buffered := h.buffered
        last := by simp [h.last, empty]
        unknown := fun id _ => h.unknown id (by simp [empty])
        known := by simp [empty] }
  · have next : k.onMessagePart (.toolCallPart argumentsPart none) =
        k.emitToolCallDelta { toolCallId := last.id, name := last.name } argumentsPart := by
      simp [KosongCallbacks.onMessagePart, KosongCallbacks.onDelta, h.last, hlast]
    have mem := List.mem_of_getLast? hlast
    rw [next]
    refine h.emit routed mem ?_ ?_
    · intro strays
      cases hopen : openCall pre with
      | none => exact absurd ⟨pre, argumentsPart, [], rfl, hlast, hopen⟩ strays
      | some =>
        obtain ⟨c, hc, hindex⟩ := routed.openCall_getLast? hopen
        cases hlast.symm.trans hc
        exact hindex
    · intro c hc ne same
      obtain ⟨j, hj⟩ := routed.indexed c hc
      obtain ⟨d, hd, hindex⟩ := routed.openCall_getLast? (same.symm.trans hj)
      cases hlast.symm.trans hd
      exact ne (routed.eq_of_streamIndex hc mem (hj.trans hindex.symm))

variable {parts : List StreamedMessagePart}

theorem WellRouted.emits (routed : WellRouted parts) :
    Emits parts (parts.foldl KosongCallbacks.onMessagePart {}) := by
  induction routed with
  | nil => exact emits_init
  | content part _ ih => simpa using ih.content_part part
  | toolCall _ _ routed hindex fresh ih => simpa using ih.tool_call routed hindex fresh
  | delta argumentsPart routed mem hindex ih => simpa using ih.indexed_delta routed mem hindex
  | unindexed argumentsPart routed ih => simpa using ih.unindexed_delta routed

/-! ### The message and the live deltas -/

/-- A stream for which `generate` throws: no tool call, and no content or only thinking. -/
def Rejected (parts : List StreamedMessagePart) : Prop :=
  headers parts = [] ∧ (contents parts = [] ∨ (contents parts).any (·.isThink) = true ∧
    ∀ c ∈ (textOf (contents parts)).toList, isJsSpace c = true)

/-- What a caller of `generate` is promised about the message and the live deltas. -/
structure AssembledFrom (parts : List StreamedMessagePart) (message : Message) : Prop where
  /-- The calls are the headers in order of arrival, each with all of its deltas. -/
  toolCalls : message.toolCalls = (headers parts).map (assembledCall parts)
  text : textOf message.content = textOf (contents parts)
  think : thinkOf message.content = thinkOf (contents parts)
  media : mediaOf message.content = mediaOf (contents parts)
  /-- The live deltas of a call add up to its arguments when no other call has its id. -/
  live : ∀ call ∈ headers parts, (∀ c ∈ headers parts, c.id = call.id → c = call) →
    ¬ Strays call parts →
    joinArguments (liveArguments call.id (liveDeltas parts)) = callArguments parts call

theorem WellRouted.assembledFrom (routed : WellRouted parts) :
    AssembledFrom parts (parts.foldl Assembly.feed .init).close.message where
  toolCalls := routed.assembles.calls
  text := routed.assembles.content.text_eq
  think := routed.assembles.content.think_eq
  media := routed.assembles.content.media_eq
  live := fun call mem unique strays => by
    rw [liveDeltas, routed.emits.known call mem unique strays]
    rfl

theorem WellRouted.isEmptyResponse_iff (routed : WellRouted parts) :
    (parts.foldl Assembly.feed .init).close.message.isEmptyResponse ↔ Rejected parts := by
  have content := routed.assembles.content
  have invisible : (parts.foldl Assembly.feed .init).close.message.content.any
        (·.isVisibleText) = false ↔
      ∀ c ∈ (textOf (contents parts)).toList, isJsSpace c = true := by
    rw [← Bool.not_eq_true, any_isVisibleText, content.text_eq]
    simp
  rw [Message.isEmptyResponse, Rejected, routed.assembles.calls, List.map_eq_nil_iff,
    content.eq_nil, content.any_isThink, invisible]

/-- `generate` throws for the streams that are rejected, and for no other well routed stream. -/
theorem generate_of_wellRouted (providerName modelName : String) (stream : StreamedMessage)
    (routed : WellRouted stream.parts) :
    (Rejected stream.parts ∧ ∃ error, generate providerName modelName stream = .error error) ∨
      (¬ Rejected stream.parts ∧ ∃ result, generate providerName modelName stream = .ok result ∧
        AssembledFrom stream.parts result.message) := by
  by_cases rejected : Rejected stream.parts
  · exact .inl ⟨rejected,
      generate_of_isEmptyResponse _ _ rfl (routed.isEmptyResponse_iff.2 rejected)⟩
  · obtain ⟨result, ok, message⟩ := generate_of_not_isEmptyResponse providerName modelName rfl
      fun empty => rejected (routed.isEmptyResponse_iff.1 empty)
    exact .inr ⟨rejected, result, ok, message ▸ routed.assembledFrom⟩

def streamOf (parts : List StreamedMessagePart) : StreamedMessage :=
  { parts, id := none, usage := none, finishReason := none, rawFinishReason := none }

/-- Two parallel calls whose deltas are interleaved with text. -/
def parallelParts : List StreamedMessagePart :=
  [.toolCall { id := "a", name := "Read", arguments := none, streamIndex := some (.number 0) },
    .toolCall { id := "b", name := "Bash", arguments := some "3", streamIndex := some (.number 1) },
    .toolCallPart (some "12") (some (.number 0)),
    .content (.text "hm"),
    .toolCallPart (some "4") (some (.number 1))]

theorem parallelParts_wellRouted : WellRouted parallelParts := by
  have first := WellRouted.toolCall
    { id := "a", name := "Read", arguments := none, streamIndex := some (.number 0) } (.number 0)
    .nil rfl (by simp [headers])
  have second := WellRouted.toolCall
    { id := "b", name := "Bash", arguments := some "3", streamIndex := some (.number 1) }
    (.number 1)
    first rfl (by simp [headers])
  exact (((second.delta (some "12") (List.mem_cons_self ..) rfl).content (.text "hm")).delta
    (some "4") (List.mem_cons_of_mem _ (List.mem_cons_self ..)) rfl)

theorem generate_parallelParts :
    ∃ result, generate "kimi" "k2" (streamOf parallelParts) = .ok result ∧
      AssembledFrom parallelParts result.message := by
  rcases generate_of_wellRouted "kimi" "k2" (streamOf parallelParts) parallelParts_wellRouted with
    ⟨⟨noCalls, _⟩, _⟩ | ⟨_, result⟩
  · simp [headers, streamOf, parallelParts] at noCalls
  · exact result

/-- An empty stream is rejected, calls that share an id are emitted as one, and an unindexed delta
after a text is emitted for a call that does not receive it. -/
theorem assembly_limits :
    (WellRouted [] ∧ ∃ error, generate "kimi" "k2" (streamOf []) = .error error) ∧
    (∃ first second : ToolCall,
      let parts := [.toolCall first, .toolCall second]
      WellRouted parts ∧ callArguments parts first = some "1" ∧
        joinArguments (liveArguments first.id (liveDeltas parts)) = some "12") ∧
    (∃ call : ToolCall,
      let parts := [.toolCall call, .content (.text "hm"), .toolCallPart (some "2") none]
      WellRouted parts ∧ callArguments parts call = some "1" ∧
        joinArguments (liveArguments call.id (liveDeltas parts)) = some "12") := by
  refine ⟨⟨.nil, _, rfl⟩,
    ⟨{ id := "a", name := "Read", arguments := some "1", streamIndex := some (.number 0) },
      { id := "a", name := "Read", arguments := some "2", streamIndex := some (.number 1) },
      ?_, by decide, by decide⟩,
    ⟨{ id := "a", name := "Read", arguments := some "1", streamIndex := some (.number 0) },
      ?_, by decide, by decide⟩⟩
  · have first := WellRouted.toolCall
      { id := "a", name := "Read", arguments := some "1", streamIndex := some (.number 0) }
      (.number 0) .nil rfl (by simp [headers])
    exact first.toolCall _ (.number 1) rfl (by simp [headers])
  · have first := WellRouted.toolCall
      { id := "a", name := "Read", arguments := some "1", streamIndex := some (.number 0) }
      (.number 0) .nil rfl (by simp [headers])
    exact (first.content (.text "hm")).unindexed (some "2")

end KimiCli
