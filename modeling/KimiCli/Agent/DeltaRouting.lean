import KimiCli.Agent.KosongLlm

/-!
# Where the argument texts of a stream go

Both paths route an indexed delta to the last header with its index, when there is one.  Before
that, `generate` merges it into the pending call, and the live callbacks hold it back for the next
header with its index.  `pieces` lists the texts of a stream with the call and the way that each of
them takes; the arguments of the message and the live deltas are read off it (`stores`,
`emitsLive`).
-/

namespace KimiCli

def ToolCall.argumentsText (call : ToolCall) : String := call.arguments.getD ""

/-- The concatenation of the live argument deltas for an id. -/
def liveText (toolCallId : String) (deltas : List LiveDelta) : String :=
  String.join ((liveArguments toolCallId deltas).map (·.getD ""))

/-- The message that is assembled from the parts. -/
def assembled (parts : List StreamedMessagePart) : Message :=
  (parts.foldl Assembly.feed .init).close.message

/-- Every argument delta carries an index. -/
def Indexed (parts : List StreamedMessagePart) : Prop :=
  ∀ argumentsPart, .toolCallPart argumentsPart none ∉ parts

/-! ## Routes -/

/-- What a stream has opened so far; a call is its position and its id. -/
structure Router where
  count : ℕ := 0
  /-- The last header with an index. -/
  known : StreamIndex → Option (ℕ × String) := fun _ => none
  /-- The call of the last header, unless a content part has arrived since. -/
  opened : Option (ℕ × String) := none
  /-- The texts that came before the first header with their index. -/
  held : StreamIndex → List String := fun _ => []

/-- The way of a text: into the message and to the callbacks, only into the message, or only to the
callbacks. -/
inductive Route
  | own | foreign | held
  deriving DecidableEq

structure Piece where
  position : ℕ
  id : String
  route : Route
  text : String

namespace Router

def next (r : Router) : StreamedMessagePart → Router
  | .content _ => { r with opened := none }
  | .toolCall call =>
    { count := r.count + 1
      known := match call.streamIndex with
        | some index => Function.update r.known index (some (r.count, call.id))
        | none => r.known
      opened := some (r.count, call.id)
      held := match call.streamIndex with
        | some index => Function.update r.held index []
        | none => r.held }
  | .toolCallPart argumentsPart (some index) =>
    match r.known index with
    | some _ => r
    | none =>
      { r with held :=
          Function.update r.held index (r.held index ++ [argumentsPart.getD ""]) }
  | .toolCallPart _ none => r

/-- The texts that a part adds, after what was opened before it. -/
def pieces (r : Router) : StreamedMessagePart → List Piece
  | .content _ => []
  | .toolCall call =>
    ⟨r.count, call.id, .own, call.argumentsText⟩ ::
      (call.streamIndex.elim [] r.held).map fun text => ⟨r.count, call.id, .held, text⟩
  | .toolCallPart argumentsPart (some index) =>
    match r.known index, r.opened with
    | some (position, id), _ => [⟨position, id, .own, argumentsPart.getD ""⟩]
    | none, some (position, id) => [⟨position, id, .foreign, argumentsPart.getD ""⟩]
    | none, none => []
  | .toolCallPart _ none => []

end Router

def router (parts : List StreamedMessagePart) : Router := parts.foldl Router.next {}

def piecesFrom (r : Router) : List StreamedMessagePart → List Piece
  | [] => []
  | part :: parts => r.pieces part ++ piecesFrom (r.next part) parts

def pieces (parts : List StreamedMessagePart) : List Piece := piecesFrom {} parts

/-- The texts of the pieces that go a way, joined. -/
def joinPieces (goes : Piece → Bool) (pieces : List Piece) : String :=
  String.join ((pieces.filter goes).map (·.text))

/-- A piece is stored in the arguments of the call at a position. -/
def Piece.isStored (position : ℕ) (piece : Piece) : Bool :=
  piece.route ≠ .held && piece.position = position

/-- A piece is emitted for an id. -/
def Piece.isLive (id : String) (piece : Piece) : Bool := piece.route ≠ .foreign && piece.id = id

variable {pre parts : List StreamedMessagePart} {part : StreamedMessagePart} {call : ToolCall}
  {index : StreamIndex} {argumentsPart : Option String} {piece : Piece}

theorem router_concat (part : StreamedMessagePart) :
    router (pre ++ [part]) = (router pre).next part := by
  rw [router, List.foldl_append]
  rfl

theorem piecesFrom_append (r : Router) (parts : List StreamedMessagePart) :
    piecesFrom r (pre ++ parts) =
      piecesFrom r pre ++ piecesFrom (pre.foldl Router.next r) parts := by
  induction pre generalizing r with
  | nil => rfl
  | cons part pre ih =>
    rw [List.cons_append, piecesFrom, ih, piecesFrom, List.append_assoc]
    rfl

theorem pieces_concat (part : StreamedMessagePart) :
    pieces (pre ++ [part]) = pieces pre ++ (router pre).pieces part := by
  rw [pieces, piecesFrom_append, piecesFrom, piecesFrom, List.append_nil]
  rfl

theorem mem_pieces : piece ∈ pieces parts ↔
    ∃ pre part post, parts = pre ++ part :: post ∧ piece ∈ (router pre).pieces part := by
  constructor
  · intro mem
    induction parts using List.reverseRecOn with
    | nil => cases mem
    | append_singleton parts last ih =>
      rw [pieces_concat] at mem
      rcases List.mem_append.1 mem with earlier | new
      · obtain ⟨pre, part, post, rfl, inside⟩ := ih earlier
        exact ⟨pre, part, post ++ [last], by simp, inside⟩
      · exact ⟨parts, last, [], rfl, new⟩
  · rintro ⟨pre, part, post, rfl, mem⟩
    rw [pieces, piecesFrom_append, piecesFrom]
    exact List.mem_append_right _ (List.mem_append_left _ mem)

theorem joinPieces_append (goes : Piece → Bool) (xs ys : List Piece) :
    joinPieces goes (xs ++ ys) = joinPieces goes xs ++ joinPieces goes ys := by
  rw [joinPieces, List.filter_append, List.map_append, String.join_append, joinPieces, joinPieces]

/-! ## What the router knows -/

theorem count_router : (router pre).count = (headers pre).length := by
  induction pre using List.reverseRecOn with
  | nil => rfl
  | append_singleton pre part ih =>
    rw [router_concat]
    cases part with
    | content => simpa [Router.next] using ih
    | toolCall => simpa [Router.next] using ih
    | toolCallPart argumentsPart index =>
      cases index with
      | none => simpa [Router.next] using ih
      | some =>
        rw [headers_toolCallPart, Router.next]
        split <;> exact ih

/-- The known calls, and the open one, are those of headers. -/
structure Router.Knows (r : Router) (pre : List StreamedMessagePart) : Prop where
  known : ∀ index position id, r.known index = some (position, id) →
    ∃ h, (headers pre)[position]? = some h ∧ h.id = id ∧ h.streamIndex = some index
  unknown : ∀ index, r.known index = none → ∀ h ∈ headers pre, h.streamIndex ≠ some index
  opened : ∀ position id, r.opened = some (position, id) → position + 1 = r.count ∧
    ∃ h, (headers pre)[position]? = some h ∧ h.id = id

theorem knows_router (pre : List StreamedMessagePart) : (router pre).Knows pre := by
  induction pre using List.reverseRecOn with
  | nil =>
    refine ⟨fun _ _ _ h => ?_, fun _ _ _ h => ?_, fun _ _ h => ?_⟩ <;> cases h
  | append_singleton pre part ih =>
    rw [router_concat]
    cases part with
    | content =>
      refine ⟨?_, ?_, fun _ _ h => ?_⟩
      · rw [headers_content]
        exact ih.known
      · rw [headers_content]
        exact ih.unknown
      · cases h
    | toolCall call =>
      have here : (headers pre ++ [call])[(router pre).count]? = some call := by
        rw [count_router, List.getElem?_concat_length]
      have earlier : ∀ {position : ℕ} {h : ToolCall}, (headers pre)[position]? = some h →
          (headers pre ++ [call])[position]? = some h := fun found => by
        rw [List.getElem?_append_left (List.getElem?_eq_some_iff.1 found).1, found]
      rw [Router.next]
      refine ⟨fun index position id h => ?_, fun index h => ?_, fun position id h => ?_⟩
      · rw [headers_toolCall]
        cases own : call.streamIndex with
        | none =>
          simp only [own] at h
          obtain ⟨header, found, rest⟩ := ih.known _ _ _ h
          exact ⟨header, earlier found, rest⟩
        | some index' =>
          simp only [own] at h
          by_cases same : index = index'
          · subst same
            rw [Function.update_self] at h
            cases h
            exact ⟨call, here, rfl, own⟩
          · rw [Function.update_of_ne same] at h
            obtain ⟨header, found, rest⟩ := ih.known _ _ _ h
            exact ⟨header, earlier found, rest⟩
      · rw [headers_toolCall]
        have other : (router pre).known index = none ∧ call.streamIndex ≠ some index := by
          cases own : call.streamIndex with
          | none =>
            simp only [own] at h
            exact ⟨h, by simp⟩
          | some index' =>
            simp only [own] at h
            by_cases same : index = index'
            · subst same
              rw [Function.update_self] at h
              cases h
            · rw [Function.update_of_ne same] at h
              exact ⟨h, fun eq => same (Option.some.inj eq).symm⟩
        intro header mem
        rcases List.mem_append.1 mem with old | new
        · exact ih.unknown _ other.1 header old
        · rw [List.mem_singleton.1 new]
          exact other.2
      · cases h
        rw [headers_toolCall]
        exact ⟨rfl, call, here, rfl⟩
    | toolCallPart argumentsPart index =>
      have kept : ((router pre).next (.toolCallPart argumentsPart index)).known =
          (router pre).known ∧
          ((router pre).next (.toolCallPart argumentsPart index)).opened = (router pre).opened ∧
          ((router pre).next (.toolCallPart argumentsPart index)).count = (router pre).count := by
        cases index with
        | none => exact ⟨rfl, rfl, rfl⟩
        | some =>
          rw [Router.next]
          split <;> exact ⟨rfl, rfl, rfl⟩
      obtain ⟨known, opened, count⟩ := kept
      have same : headers (pre ++ [.toolCallPart argumentsPart index]) = headers pre :=
        headers_toolCallPart
      refine ⟨?_, ?_, ?_⟩
      · rw [known, same]
        exact ih.known
      · rw [known, same]
        exact ih.unknown
      · rw [opened, count, same]
        exact ih.opened

theorem headers_append (pre post : List StreamedMessagePart) :
    headers (pre ++ post) = headers pre ++ headers post := List.filterMap_append

variable {position : ℕ}

theorem header_kept {h : ToolCall} (found : (headers pre)[position]? = some h)
    (post : List StreamedMessagePart) : (headers (pre ++ post))[position]? = some h := by
  rw [headers_append, List.getElem?_append_left (List.getElem?_eq_some_iff.1 found).1, found]

theorem header_of_piece (mem : piece ∈ pieces parts) :
    ∃ h, (headers parts)[piece.position]? = some h ∧ h.id = piece.id := by
  obtain ⟨pre, part, post, rfl, inside⟩ := mem_pieces.1 mem
  have knows := knows_router pre
  cases part with
  | content => cases inside
  | toolCall call =>
    have here : (headers (pre ++ .toolCall call :: post))[(router pre).count]? = some call := by
      rw [headers_append, count_router, List.getElem?_append_right le_rfl, Nat.sub_self]
      rfl
    rcases List.mem_cons.1 inside with rfl | held
    · exact ⟨call, here, rfl⟩
    · obtain ⟨text, -, rfl⟩ := List.mem_map.1 held
      exact ⟨call, here, rfl⟩
  | toolCallPart argumentsPart index =>
    cases index with
    | none => cases inside
    | some =>
      rw [Router.pieces] at inside
      split at inside
      case h_1 position id known =>
        rw [List.mem_singleton.1 inside]
        obtain ⟨h, found, same, -⟩ := knows.known _ _ _ known
        exact ⟨h, header_kept found _, same⟩
      case h_2 position id _ opened =>
        rw [List.mem_singleton.1 inside]
        obtain ⟨-, h, found, same⟩ := knows.opened _ _ opened
        exact ⟨h, header_kept found _, same⟩
      case h_3 => cases inside

/-! ## The arguments of the message -/

/-- The text that is stored for the call at a position. -/
def storedText (parts : List StreamedMessagePart) (position : ℕ) : String :=
  joinPieces (·.isStored position) (pieces parts)

/-- `a` is an assembly state after the parts `pre`. -/
structure Stores (pre : List StreamedMessagePart) (a : Assembly) : Prop where
  calls : ∀ position : ℕ, (a.close.message.toolCalls[position]?.map fun c =>
    (c.id, c.argumentsText)) =
      (headers pre)[position]?.map fun h => (h.id, storedText pre position)
  positions : ∀ index, a.close.toolCallIndexMap index =
    ((router pre).known index).map Prod.fst
  flushed : ∀ index position, a.toolCallIndexMap index = some position →
    position < a.message.toolCalls.length
  opened : ∀ c, a.pendingPart = some (.toolCall c) → (router pre).opened =
    some (a.message.toolCalls.length, c.id)
  closed : (∀ c, a.pendingPart ≠ some (.toolCall c)) → (router pre).opened = none

variable {a : Assembly}

theorem stores_init : Stores [] .init := by
  refine ⟨fun position => rfl, fun index => rfl, fun _ _ h => ?_, fun _ h => ?_, fun _ => rfl⟩ <;>
    cases h

theorem Stores.length (stores : Stores pre a) :
    a.close.message.toolCalls.length = (headers pre).length := by
  refine Nat.le_antisymm (Nat.le_of_not_lt fun longer => ?_) (Nat.le_of_not_lt fun longer => ?_)
  · have found := stores.calls (headers pre).length
    rw [List.getElem?_eq_getElem longer, List.getElem?_eq_none le_rfl] at found
    cases found
  · have found := stores.calls a.close.message.toolCalls.length
    rw [List.getElem?_eq_getElem longer, List.getElem?_eq_none le_rfl] at found
    cases found

theorem Stores.close_flushed (stores : Stores pre a)
    (found : a.close.toolCallIndexMap index = some position) :
    position < a.close.message.toolCalls.length := by
  rw [stores.positions, Option.map_eq_some_iff] at found
  obtain ⟨⟨position, id⟩, known, rfl⟩ := found
  obtain ⟨h, inside, -⟩ := (knows_router pre).known _ _ _ known
  rw [stores.length]
  exact (List.getElem?_eq_some_iff.1 inside).1

theorem storedText_concat_of_nil (none' : (router pre).pieces part = []) (position : ℕ) :
    storedText (pre ++ [part]) position = storedText pre position := by
  rw [storedText, pieces_concat, none', List.append_nil, storedText]

theorem storedText_concat_singleton (one : (router pre).pieces part = [piece])
    (stored : piece.route ≠ .held) (position : ℕ) :
    storedText (pre ++ [part]) position =
      if piece.position = position then storedText pre position ++ piece.text
      else storedText pre position := by
  rw [storedText, pieces_concat, one, joinPieces_append, ← storedText]
  split
  case isTrue same => simp [joinPieces, Piece.isStored, stored, same]
  case isFalse other => simp [joinPieces, Piece.isStored, stored, other]

theorem Stores.content_part (stores : Stores pre a) (part : ContentPart) :
    Stores (pre ++ [.content part]) (a.feed (.content part)) := by
  have opened : (router (pre ++ [.content part])).opened = none := by
    rw [router_concat]
    rfl
  have known : (router (pre ++ [.content part])).known = (router pre).known := by
    rw [router_concat]
    rfl
  have calls : ∀ position, storedText (pre ++ [.content part]) position = storedText pre position :=
    storedText_concat_of_nil rfl
  have same : headers (pre ++ [.content part]) = headers pre := headers_content
  have old := stores.calls
  simp only [← calls, ← same] at old
  have positions := stores.positions
  rw [← known] at positions
  change Stores _ (a.mergeOrFlush (.content part))
  by_cases apart : ∀ pending, a.pendingPart = some pending →
      mergeInPlace pending (.content part) = none
  · rw [Assembly.mergeOrFlush_of_apart apart]
    refine ⟨old, positions, fun index position h => ?_, fun c h => ?_, fun _ => opened⟩
    · exact stores.close_flushed h
    · cases h
  · push Not at apart
    obtain ⟨pending, hp, hm⟩ := apart
    obtain ⟨merged, hm⟩ := Option.ne_none_iff_exists'.1 hm
    obtain ⟨target, result, rfl, rfl⟩ := content_of_mergeInPlace hm
    rw [Assembly.mergeOrFlush_of_merge hp hm]
    simp only [Assembly.close, hp, Assembly.flushPart] at old positions
    refine ⟨old, positions, stores.flushed, fun c h => ?_, fun _ => opened⟩
    cases h

theorem Stores.tool_call (stores : Stores pre a) (call : ToolCall) :
    Stores (pre ++ [.toolCall call]) (a.feed (.toolCall call)) := by
  have length := stores.length
  have stored : ∀ position, storedText (pre ++ [.toolCall call]) position =
      if (router pre).count = position then storedText pre position ++ call.argumentsText
      else storedText pre position := by
    intro position
    have held : joinPieces (·.isStored position) ((call.streamIndex.elim [] (router pre).held).map
        fun text => ⟨(router pre).count, call.id, .held, text⟩) = "" := by
      rw [joinPieces, List.filter_eq_nil_iff.2, List.map_nil, String.join_nil]
      intro piece mem
      obtain ⟨text, -, rfl⟩ := List.mem_map.1 mem
      simp [Piece.isStored]
    rw [storedText, pieces_concat, Router.pieces, ← List.singleton_append, joinPieces_append,
      joinPieces_append, held, String.append_empty, ← storedText]
    split
    case isTrue same => simp [joinPieces, Piece.isStored, same]
    case isFalse other => simp [joinPieces, Piece.isStored, other]
  have fresh : storedText pre (router pre).count = "" := by
    rw [storedText, joinPieces, List.filter_eq_nil_iff.2, List.map_nil, String.join_nil]
    intro piece mem
    obtain ⟨h, found, -⟩ := header_of_piece mem
    have earlier := (List.getElem?_eq_some_iff.1 found).1
    rw [← count_router] at earlier
    simp [Piece.isStored, earlier.ne]
  change Stores _ (a.mergeOrFlush (.toolCall call))
  rw [Assembly.mergeOrFlush_of_apart fun pending _ => mergeInPlace_toolCall pending]
  refine ⟨fun position => ?_, fun index => ?_, fun index position h => stores.close_flushed h,
    fun c h => ?_, fun none' => absurd rfl (none' call)⟩
  · rw [Assembly.close_pending, headers_toolCall, stored]
    change ((a.close.message.toolCalls ++ [_])[position]?).map _ = _
    rcases lt_trichotomy position (headers pre).length with earlier | here | later
    · rw [List.getElem?_append_left (length ▸ earlier), stores.calls,
        List.getElem?_append_left earlier, if_neg (count_router ▸ earlier.ne')]
    · subst here
      rw [← length, List.getElem?_concat_length, length, List.getElem?_concat_length,
        if_pos count_router, ← count_router, fresh, String.empty_append]
      rfl
    · rw [List.getElem?_eq_none, List.getElem?_eq_none]
      · rfl
      · rw [List.length_append, List.length_singleton]
        exact later
      · rw [List.length_append, List.length_singleton, length]
        exact later
  · rw [Assembly.close_pending, router_concat, Router.next]
    have old := stores.positions index
    cases own : call.streamIndex with
    | none => simpa [Assembly.flushPart, own] using old
    | some index' =>
      simp only [Assembly.flushPart, own]
      by_cases same : index = index'
      · subst same
        rw [Function.update_self, Function.update_self, length, count_router]
        rfl
      · rw [Function.update_of_ne same, Function.update_of_ne same]
        exact old
  · cases h
    rw [router_concat]
    change some ((router pre).count, call.id) = some (a.close.message.toolCalls.length, call.id)
    rw [length, count_router]

theorem argumentsText_extendCall (c : ToolCall) :
    (extendCall argumentsPart c).argumentsText = c.argumentsText ++ argumentsPart.getD "" := by
  rw [ToolCall.argumentsText, ToolCall.argumentsText, extendCall]
  cases c.arguments <;> cases argumentsPart <;> simp [appendArguments]

theorem opened_delta (pre : List StreamedMessagePart) (argumentsPart : Option String)
    (index : Option StreamIndex) :
    ((router pre).next (.toolCallPart argumentsPart index)).opened = (router pre).opened ∧
      ((router pre).next (.toolCallPart argumentsPart index)).known = (router pre).known := by
  cases index with
  | none => exact ⟨rfl, rfl⟩
  | some =>
    rw [Router.next]
    split <;> exact ⟨rfl, rfl⟩

theorem calls_extend {calls : List ToolCall}
    (old : ∀ k : ℕ, (calls[k]?.map fun c => (c.id, c.argumentsText)) =
      (headers pre)[k]?.map fun h => (h.id, storedText pre k))
    (one : (router pre).pieces (.toolCallPart argumentsPart (some index)) = [piece])
    (stored : piece.route ≠ .held) (same : piece.position = position)
    (text : piece.text = argumentsPart.getD "") (k : ℕ) :
    ((calls.modify position (extendCall argumentsPart))[k]?.map fun c => (c.id, c.argumentsText)) =
      (headers (pre ++ [.toolCallPart argumentsPart (some index)]))[k]?.map fun h =>
        (h.id, storedText (pre ++ [.toolCallPart argumentsPart (some index)]) k) := by
  rw [headers_toolCallPart, storedText_concat_singleton one stored, same, text,
    List.getElem?_modify]
  have before := old k
  by_cases here : position = k
  · simp only [if_pos here]
    cases found : calls[k]? with
    | none =>
      rw [found] at before
      cases header : (headers pre)[k]? with
      | none => rfl
      | some =>
        rw [header] at before
        cases before
    | some c =>
      rw [found] at before
      cases header : (headers pre)[k]? with
      | none =>
        rw [header] at before
        cases before
      | some =>
        rw [header] at before
        obtain ⟨id, args⟩ := Prod.mk.inj (Option.some.inj before)
        refine congrArg some (Prod.ext id ?_)
        exact (argumentsText_extendCall c).trans (congrArg (· ++ argumentsPart.getD "") args)
  · simp only [if_neg here]
    rw [← before]
    cases calls[k]? <;> rfl

theorem Stores.extend_pending (stores : Stores pre a) {c : ToolCall}
    (hp : a.pendingPart = some (.toolCall c)) (id : String) {route : Route}
    (one : (router pre).pieces (.toolCallPart argumentsPart (some index)) =
      [⟨a.message.toolCalls.length, id, route, argumentsPart.getD ""⟩]) (stored : route ≠ .held) :
    Stores (pre ++ [.toolCallPart argumentsPart (some index)])
      (a.mergeOrFlush (.toolCallPart argumentsPart (some index))) := by
  have merges : mergeInPlace (.toolCall c) (.toolCallPart argumentsPart (some index)) =
      some (.toolCall (extendCall argumentsPart c)) := rfl
  rw [Assembly.mergeOrFlush_of_merge hp merges]
  have calls := stores.calls
  have positions := stores.positions
  simp only [Assembly.close, hp, Assembly.flushPart] at calls positions
  obtain ⟨opened, known⟩ := opened_delta pre argumentsPart (some index)
  refine ⟨fun k => ?_, fun i => ?_, stores.flushed, fun c' h => ?_,
    fun none' => absurd rfl (none' _)⟩
  · rw [← calls_extend calls one stored rfl rfl k, modify_concat]
    rfl
  · rw [router_concat, known]
    exact positions i
  · cases h
    rw [router_concat, opened]
    exact stores.opened c hp

theorem Stores.extend_flushed (stores : Stores pre a) {id : String}
    (found : a.toolCallIndexMap index = some position)
    (known : (router pre).known index = some (position, id)) :
    Stores (pre ++ [.toolCallPart argumentsPart (some index)])
      (a.appendAt position argumentsPart) := by
  have lt := stores.flushed _ _ found
  have one : (router pre).pieces (.toolCallPart argumentsPart (some index)) =
      [⟨position, id, .own, argumentsPart.getD ""⟩] := by
    rw [Router.pieces, known]
  have closed : (a.appendAt position argumentsPart).close =
      a.close.appendAt position argumentsPart := by
    cases hp : a.pendingPart with
    | none => simp [Assembly.close, Assembly.appendAt, hp]
    | some pending =>
      cases pending with
      | content | toolCallPart => simp [Assembly.close, Assembly.appendAt, Assembly.flushPart, hp]
      | toolCall =>
        simp [Assembly.close, Assembly.appendAt, Assembly.flushPart, hp, modify_append_of_lt _ _ lt]
  obtain ⟨opened, known'⟩ := opened_delta pre argumentsPart (some index)
  refine ⟨fun k => ?_, fun i => ?_, fun i p h => ?_, fun c h => ?_, fun none' => ?_⟩
  · rw [closed, ← calls_extend stores.calls one (fun h => Route.noConfusion h) rfl rfl k]
    rfl
  · rw [closed, router_concat, known']
    exact stores.positions i
  · exact (stores.flushed i p h).trans_eq (List.length_modify _ _ _).symm
  · rw [router_concat, opened]
    refine (stores.opened c h).trans ?_
    rw [Assembly.appendAt, List.length_modify]
  · rw [router_concat, opened]
    exact stores.closed none'

theorem Stores.orphan (stores : Stores pre a)
    (noCall : ∀ c, a.pendingPart ≠ some (.toolCall c))
    (unknown : (router pre).known index = none) :
    Stores (pre ++ [.toolCallPart argumentsPart (some index)])
      (a.mergeOrFlush (.toolCallPart argumentsPart (some index))) := by
  have apart : ∀ pending, a.pendingPart = some pending →
      mergeInPlace pending (.toolCallPart argumentsPart (some index)) = none := by
    intro pending hp
    cases pending with
    | toolCall c => exact absurd hp (noCall c)
    | content part =>
      cases part with
      | think _ encrypted => cases encrypted <;> rfl
      | _ => rfl
    | toolCallPart => rfl
  obtain ⟨opened, known⟩ := opened_delta pre argumentsPart (some index)
  have closed := stores.closed noCall
  have nothing : (router pre).pieces (.toolCallPart argumentsPart (some index)) = [] := by
    rw [Router.pieces, unknown, closed]
  rw [Assembly.mergeOrFlush_of_apart apart]
  refine ⟨fun k => ?_, fun i => ?_, fun i p h => stores.close_flushed h, fun c h => ?_, fun _ => ?_⟩
  · rw [headers_toolCallPart, storedText_concat_of_nil nothing]
    exact stores.calls k
  · rw [router_concat, known]
    exact stores.positions i
  · cases h
  · rw [router_concat, opened]
    exact closed

theorem Stores.delta (stores : Stores pre a) (argumentsPart : Option String) (index : StreamIndex) :
    Stores (pre ++ [.toolCallPart argumentsPart (some index)])
      (a.feed (.toolCallPart argumentsPart (some index))) := by
  have positions := stores.positions index
  rw [Assembly.feed]
  by_cases pending : Assembly.isPendingToolCallAtIndex a.pendingPart index = true
  · rw [if_pos pending]
    obtain ⟨c, hp, own⟩ : ∃ c, a.pendingPart = some (.toolCall c) ∧ c.streamIndex = some index := by
      cases hp : a.pendingPart with
      | none =>
        rw [hp] at pending
        cases pending
      | some part =>
        rw [hp] at pending
        cases part with
        | toolCall c => exact ⟨c, rfl, of_decide_eq_true pending⟩
        | content => cases pending
        | toolCallPart => cases pending
    simp only [Assembly.close, hp, Assembly.flushPart, own, Function.update_self] at positions
    obtain ⟨⟨position, id⟩, known, same⟩ := Option.map_eq_some_iff.1 positions.symm
    refine stores.extend_pending hp id ?_ (by decide : Route.own ≠ .held)
    rw [Router.pieces, known]
    cases same
    rfl
  · rw [if_neg pending]
    have map : a.close.toolCallIndexMap index = a.toolCallIndexMap index := by
      cases hp : a.pendingPart with
      | none => simp [Assembly.close, hp]
      | some part =>
        cases part with
        | content | toolCallPart => simp [Assembly.close, Assembly.flushPart, hp]
        | toolCall c =>
          cases own : c.streamIndex with
          | none => simp [Assembly.close, Assembly.flushPart, hp, own]
          | some other =>
            have different : index ≠ other := by
              rintro rfl
              simp [Assembly.isPendingToolCallAtIndex, hp, own] at pending
            simp [Assembly.close, Assembly.flushPart, hp, own, Function.update_of_ne different]
    rw [map] at positions
    cases found : a.toolCallIndexMap index with
    | some =>
      rw [found] at positions
      obtain ⟨⟨position', id⟩, known, same⟩ := Option.map_eq_some_iff.1 positions.symm
      cases same
      exact stores.extend_flushed found known
    | none =>
      rw [found] at positions
      have unknown := Option.map_eq_none_iff.1 positions.symm
      by_cases noCall : ∀ c, a.pendingPart ≠ some (.toolCall c)
      · exact stores.orphan noCall unknown
      · push Not at noCall
        obtain ⟨c, hp⟩ := noCall
        refine stores.extend_pending hp c.id ?_ (by decide : Route.foreign ≠ .held)
        rw [Router.pieces, unknown, stores.opened c hp]

theorem stores (indexed : Indexed parts) : Stores parts (parts.foldl Assembly.feed .init) := by
  induction parts using List.reverseRecOn with
  | nil => exact stores_init
  | append_singleton parts part ih =>
    have before := ih fun d mem => indexed d (List.mem_append_left _ mem)
    rw [List.foldl_append, List.foldl_cons, List.foldl_nil]
    cases part with
    | content part => exact before.content_part part
    | toolCall call => exact before.tool_call call
    | toolCallPart argumentsPart index =>
      cases index with
      | some index => exact before.delta argumentsPart index
      | none => exact absurd (List.mem_append_right _ (List.mem_singleton_self _)) (indexed _)

/-! ## The live deltas -/

/-- `k` is a state of the callbacks after the parts `pre`. -/
structure EmitsLive (pre : List StreamedMessagePart) (k : KosongCallbacks) : Prop where
  identities : ∀ index, (k.toolCallIdentities index).map (·.toolCallId) =
    ((router pre).known index).map Prod.snd
  held : ∀ index, ((k.pendingIndexedToolCallDeltas index).getD []).map (·.getD "") =
    (router pre).held index
  live : ∀ id, liveText id k.emitted = joinPieces (·.isLive id) (pieces pre)

variable {k : KosongCallbacks} {identity : ToolCallIdentity}

theorem liveText_emit (k : KosongCallbacks) (identity : ToolCallIdentity)
    (argumentsPart : Option String) (id : String) :
    liveText id (k.emitToolCallDelta identity argumentsPart).emitted =
      liveText id k.emitted ++
        if identity.toolCallId = id then argumentsPart.getD "" else "" := by
  rw [liveText, liveArguments_emit, List.map_append, String.join_append, ← liveText]
  split <;> simp

theorem emit_all (deltas : List (Option String)) (k : KosongCallbacks)
    (identity : ToolCallIdentity) :
    let k' := deltas.foldl (fun k delta => k.emitToolCallDelta identity delta) k
    k'.toolCallIdentities = k.toolCallIdentities ∧
      k'.pendingIndexedToolCallDeltas = k.pendingIndexedToolCallDeltas ∧
      ∀ id, liveText id k'.emitted = liveText id k.emitted ++
        if identity.toolCallId = id then String.join (deltas.map (·.getD "")) else "" := by
  induction deltas generalizing k with
  | nil =>
    refine ⟨rfl, rfl, fun id => ?_⟩
    split <;> simp
  | cons delta deltas ih =>
    obtain ⟨identities, pending, live⟩ := ih (k.emitToolCallDelta identity delta)
    refine ⟨identities, pending, fun id => ?_⟩
    rw [List.foldl_cons, live, liveText_emit, String.append_assoc]
    split <;> simp

theorem emitsLive_init : EmitsLive [] {} :=
  ⟨fun _ => rfl, fun _ => rfl, fun _ => rfl⟩

theorem EmitsLive.content_part (emits : EmitsLive pre k) (part : ContentPart) :
    EmitsLive (pre ++ [.content part]) (k.onMessagePart (.content part)) := by
  have emitted : ∀ id, liveText id (k.onMessagePart (.content part)).emitted =
      liveText id k.emitted := by
    intro id
    cases part <;> simp [KosongCallbacks.onMessagePart, liveText, liveArguments]
  refine ⟨fun index => ?_, fun index => ?_, fun id => ?_⟩
  · rw [router_concat]
    cases part <;> exact emits.identities index
  · rw [router_concat]
    cases part <;> exact emits.held index
  · rw [emitted, emits.live, pieces_concat, Router.pieces, List.append_nil]

theorem joinPieces_header (id : String) :
    joinPieces (·.isLive id) ((router pre).pieces (.toolCall call)) =
      if call.id = id then
        call.argumentsText ++ String.join (call.streamIndex.elim [] (router pre).held)
      else "" := by
  rw [Router.pieces, joinPieces, List.filter_cons]
  split
  case isTrue same =>
    have own : call.id = id := by simpa [Piece.isLive] using same
    have all : (((call.streamIndex.elim [] (router pre).held).map fun text =>
        (⟨(router pre).count, call.id, .held, text⟩ : Piece)).filter (·.isLive id)) =
        (call.streamIndex.elim [] (router pre).held).map fun text =>
          ⟨(router pre).count, call.id, .held, text⟩ := by
      refine List.filter_eq_self.2 fun piece mem => ?_
      obtain ⟨text, -, rfl⟩ := List.mem_map.1 mem
      simpa [Piece.isLive] using own
    rw [all, if_pos own, List.map_cons, List.map_map, String.join_cons]
    congr 2
    exact List.map_id _
  case isFalse other =>
    have foreign : ¬call.id = id := by simpa [Piece.isLive] using other
    rw [if_neg foreign, List.filter_eq_nil_iff.2, List.map_nil, String.join_nil]
    intro piece mem
    obtain ⟨text, -, rfl⟩ := List.mem_map.1 mem
    simpa [Piece.isLive] using foreign

theorem EmitsLive.tool_call (emits : EmitsLive pre k) (call : ToolCall) :
    EmitsLive (pre ++ [.toolCall call]) (k.onMessagePart (.toolCall call)) := by
  have live : ∀ id, joinPieces (·.isLive id) (pieces (pre ++ [.toolCall call])) =
      liveText id k.emitted ++ if call.id = id then
        call.argumentsText ++ String.join (call.streamIndex.elim [] (router pre).held) else "" := by
    intro id
    rw [pieces_concat, joinPieces_append, joinPieces_header, emits.live]
  rw [KosongCallbacks.onMessagePart, KosongCallbacks.onHeader]
  cases own : call.streamIndex with
  | none =>
    simp only [own, Option.elim_none, String.join_nil, String.append_empty] at live
    refine ⟨fun index => ?_, fun index => ?_, fun id => ?_⟩
    · rw [router_concat, Router.next]
      simp only [own]
      exact emits.identities index
    · rw [router_concat, Router.next]
      simp only [own]
      exact emits.held index
    · rw [live]
      exact liveText_emit _ _ _ id
  | some index' =>
    simp only [own, Option.elim_some, ← emits.held] at live
    have identities : ∀ index, ((Function.update k.toolCallIdentities index'
        (some ({ toolCallId := call.id, name := call.name } : ToolCallIdentity)) index).map
          (·.toolCallId)) = (((router pre).next (.toolCall call)).known index).map Prod.snd := by
      intro index
      rw [Router.next]
      simp only [own]
      by_cases same : index = index'
      · subst same
        rw [Function.update_self, Function.update_self]
        rfl
      · rw [Function.update_of_ne same, Function.update_of_ne same]
        exact emits.identities index
    have held : ∀ index, ((router pre).next (.toolCall call)).held index =
        if index = index' then [] else (router pre).held index := by
      intro index
      rw [Router.next]
      simp only [own, Function.update_apply]
    dsimp only
    split
    case h_1 nothing =>
      change k.pendingIndexedToolCallDeltas index' = none at nothing
      rw [nothing] at live
      refine ⟨fun index => ?_, fun index => ?_, fun id => ?_⟩
      · rw [router_concat]
        exact identities index
      · rw [router_concat, held]
        split
        case isTrue same =>
          rw [same]
          exact congrArg (List.map _ <| Option.getD · []) nothing
        case isFalse => exact emits.held index
      · rw [live]
        refine (liveText_emit _ _ _ id).trans (congrArg _ ?_)
        split <;> simp [ToolCall.argumentsText]
    case h_2 deltas waiting =>
      change k.pendingIndexedToolCallDeltas index' = some deltas at waiting
      rw [waiting] at live
      obtain ⟨sameIdentities, samePending, emitted⟩ := emit_all deltas _ _
      refine ⟨fun index => ?_, fun index => ?_, fun id => ?_⟩
      · rw [router_concat, sameIdentities]
        exact identities index
      · rw [router_concat, held, samePending]
        dsimp only
        by_cases same : index = index'
        · rw [if_pos same, same, Function.update_self]
          rfl
        · rw [if_neg same, Function.update_of_ne same]
          exact emits.held index
      · rw [live, emitted]
        refine (congrArg (· ++ _) (liveText_emit _ _ _ id)).trans ?_
        rw [String.append_assoc]
        refine congrArg _ ?_
        split <;> simp [ToolCall.argumentsText]

theorem EmitsLive.delta (emits : EmitsLive pre k) (argumentsPart : Option String)
    (index : StreamIndex) :
    EmitsLive (pre ++ [.toolCallPart argumentsPart (some index)])
      (k.onMessagePart (.toolCallPart argumentsPart (some index))) := by
  have identity := emits.identities index
  obtain ⟨-, known⟩ := opened_delta pre argumentsPart (some index)
  rw [KosongCallbacks.onMessagePart, KosongCallbacks.onDelta]
  split
  case h_1 unknown =>
    rw [unknown] at identity
    have new := Option.map_eq_none_iff.1 identity.symm
    refine ⟨fun i => ?_, fun i => ?_, fun id => ?_⟩
    · rw [router_concat, known]
      exact emits.identities i
    · rw [router_concat, Router.next, new]
      dsimp only
      by_cases same : i = index
      · subst same
        rw [Function.update_self, Function.update_self, Option.getD_some, List.map_append,
          emits.held]
        rfl
      · rw [Function.update_of_ne same, Function.update_of_ne same]
        exact emits.held i
    · have silent : joinPieces (·.isLive id)
          ((router pre).pieces (.toolCallPart argumentsPart (some index))) = "" := by
        rw [Router.pieces, new]
        split
        · contradiction
        · simp [joinPieces, Piece.isLive]
        · rfl
      rw [pieces_concat, joinPieces_append, silent, String.append_empty]
      exact emits.live id
  case h_2 found there =>
    rw [there] at identity
    obtain ⟨⟨position, callId⟩, knownCall, same⟩ := Option.map_eq_some_iff.1 identity.symm
    refine ⟨fun i => ?_, fun i => ?_, fun id => ?_⟩
    · rw [router_concat, known]
      exact emits.identities i
    · rw [router_concat, Router.next, knownCall]
      exact emits.held i
    · have own : found.toolCallId = callId := same.symm
      rw [liveText_emit, emits.live, pieces_concat, joinPieces_append, Router.pieces, knownCall,
        own]
      refine congrArg _ ?_
      split
      case isTrue own => simp [joinPieces, Piece.isLive, own]
      case isFalse other => simp [joinPieces, Piece.isLive, other]

theorem emitsLive (indexed : Indexed parts) :
    EmitsLive parts (parts.foldl KosongCallbacks.onMessagePart {}) := by
  induction parts using List.reverseRecOn with
  | nil => exact emitsLive_init
  | append_singleton parts part ih =>
    have before := ih fun d mem => indexed d (List.mem_append_left _ mem)
    rw [List.foldl_append, List.foldl_cons, List.foldl_nil]
    cases part with
    | content part => exact before.content_part part
    | toolCall call => exact before.tool_call call
    | toolCallPart argumentsPart index =>
      cases index with
      | some index => exact before.delta argumentsPart index
      | none => exact absurd (List.mem_append_right _ (List.mem_singleton_self _)) (indexed _)

end KimiCli
