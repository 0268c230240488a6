import KimiCli.Agent.DeltaRouting

/-!
# Deltas before their header

For a stream whose deltas are all indexed: no call of the assembled message holds the text of a
foreign delta, and each call agrees with its live deltas, exactly when every text belongs to a known
call whose id is its own (`generate_uncontaminated`).  A delta that comes before the header with its
index is merged into the call that is pending, and is emitted live for the header that comes later.
-/

namespace KimiCli

/-- The stream with every delta blanked that carries another index. -/
def blankOthers (index : Option StreamIndex) (parts : List StreamedMessagePart) :
    List StreamedMessagePart :=
  parts.map fun
    | .toolCallPart argumentsPart (some other) =>
      .toolCallPart (if some other = index then argumentsPart else some "") (some other)
    | part => part

/-- What a message of these parts should be. -/
structure Uncontaminated (parts : List StreamedMessagePart) (message : Message) : Prop where
  /-- The deltas with another index make no difference to a call. -/
  own : ∀ (k : ℕ) call h, message.toolCalls[k]? = some call → (headers parts)[k]? = some h →
    (assembled (blankOthers h.streamIndex parts)).toolCalls[k]?.map (·.argumentsText) =
      some call.argumentsText
  live : ∀ call ∈ message.toolCalls, liveText call.id (liveDeltas parts) = call.argumentsText

/-- No other header has the id of the one at a position. -/
def Unshared (parts : List StreamedMessagePart) (position : ℕ) : Prop :=
  ∀ (k : ℕ) h h', (headers parts)[position]? = some h → (headers parts)[k]? = some h' →
    h'.id = h.id → k = position

/-- Every argument text that is not empty comes with or after the header of its index, and the id of
that header is its own; or it comes while no call is pending, and no header of its index follows. -/
structure Attributable (parts : List StreamedMessagePart) : Prop where
  header : ∀ pre call post, parts = pre ++ .toolCall call :: post → call.argumentsText ≠ "" →
    Unshared parts (headers pre).length
  known : ∀ pre argumentsPart index post,
    parts = pre ++ .toolCallPart argumentsPart (some index) :: post →
    argumentsPart.getD "" ≠ "" → ∀ position id, (router pre).known index = some (position, id) →
    Unshared parts position
  unknown : ∀ pre argumentsPart index post,
    parts = pre ++ .toolCallPart argumentsPart (some index) :: post →
    argumentsPart.getD "" ≠ "" → (router pre).known index = none →
    (router pre).opened = none ∧ ∀ h ∈ headers post, h.streamIndex ≠ some index

variable {pre post parts : List StreamedMessagePart} {part : StreamedMessagePart} {call : ToolCall}
  {index : StreamIndex} {argumentsPart : Option String} {text : String}

theorem unshared_of_nodup (nodup : ((headers parts).map (·.id)).Nodup) (position : ℕ) :
    Unshared parts position := by
  intro k h h' found found' same
  have bound : k < ((headers parts).map (·.id)).length := by
    rw [List.length_map]
    exact (List.getElem?_eq_some_iff.1 found').1
  refine (List.getElem?_inj bound nodup).1 ?_
  rw [List.getElem?_map, List.getElem?_map, found, found']
  exact congrArg some same

/-! ## Held texts -/

theorem mem_held_next (r : Router) (part : StreamedMessagePart) :
    text ∈ (r.next part).held index ↔
      text ∈ r.held index ∧ (∀ call, part = .toolCall call → call.streamIndex ≠ some index) ∨
      ∃ argumentsPart, part = .toolCallPart argumentsPart (some index) ∧ r.known index = none ∧
        argumentsPart.getD "" = text := by
  cases part with
  | content => simp [Router.next]
  | toolCall call =>
    rw [Router.next]
    cases own : call.streamIndex with
    | none => simp [own]
    | some other =>
      by_cases same : index = other
      · subst same
        simp [own]
      · have different : ¬other = index := fun eq => same eq.symm
        simp [own, Function.update_of_ne same, different]
  | toolCallPart argumentsPart other =>
    cases other with
    | none => simp [Router.next]
    | some other =>
      rw [Router.next]
      by_cases same : other = index
      · subst same
        split
        case h_1 known => simp [known]
        case h_2 unknown => simp [unknown, eq_comm]
      · have different : ¬index = other := fun eq => same eq.symm
        split
        case h_1 => simp [same]
        case h_2 => simp [same, Function.update_of_ne different]

theorem held_of_mem (mem : text ∈ (router pre).held index) : ∃ before argumentsPart after,
    pre = before ++ .toolCallPart argumentsPart (some index) :: after ∧
    (router before).known index = none ∧ argumentsPart.getD "" = text := by
  induction pre using List.reverseRecOn with
  | nil => cases mem
  | append_singleton pre part ih =>
    rw [router_concat, mem_held_next] at mem
    rcases mem with ⟨old, -⟩ | ⟨argumentsPart, rfl, unknown, same⟩
    · obtain ⟨before, argumentsPart, after, rfl, rest⟩ := ih old
      exact ⟨before, argumentsPart, after ++ [part], by simp, rest⟩
    · exact ⟨pre, argumentsPart, [], rfl, unknown, same⟩

theorem mem_held (unknown : (router pre).known index = none)
    (none' : ∀ h ∈ headers post, h.streamIndex ≠ some index) :
    argumentsPart.getD "" ∈ (router (pre ++ .toolCallPart argumentsPart (some index) :: post)).held
      index := by
  induction post using List.reverseRecOn with
  | nil =>
    rw [router_concat, mem_held_next]
    exact .inr ⟨argumentsPart, rfl, unknown, rfl⟩
  | append_singleton post part ih =>
    rw [← List.cons_append, ← List.append_assoc, router_concat, mem_held_next]
    rw [headers_append] at none'
    refine .inl ⟨ih fun h mem => none' h (List.mem_append_left _ mem), ?_⟩
    rintro call rfl
    exact none' call (List.mem_append_right _ List.mem_cons_self)

variable {h : ToolCall} {k : ℕ}

theorem first_header (mem : h ∈ headers post) (own : h.streamIndex = some index) :
    ∃ before call after, post = before ++ .toolCall call :: after ∧
      call.streamIndex = some index ∧ ∀ h ∈ headers before, h.streamIndex ≠ some index := by
  induction post with
  | nil => cases mem
  | cons part post ih =>
    by_cases here : ∃ call, part = .toolCall call ∧ call.streamIndex = some index
    · obtain ⟨call, rfl, same⟩ := here
      exact ⟨[], call, post, rfl, same, by simp [headers]⟩
    · have split : headers (part :: post) = headers [part] ++ headers post :=
        headers_append [part] post
      have notHere : ∀ h ∈ headers [part], h.streamIndex ≠ some index := by
        intro h inside same
        cases part with
        | toolCall call =>
          obtain rfl : h = call := by simpa [headers] using inside
          exact here ⟨h, rfl, same⟩
        | content => cases inside
        | toolCallPart => cases inside
      rw [split] at mem
      have later := (List.mem_append.1 mem).resolve_left fun inside => notHere h inside own
      obtain ⟨before, call, after, rfl, same, none'⟩ := ih later
      refine ⟨part :: before, call, after, rfl, same, fun h inside => ?_⟩
      rw [show part :: before = [part] ++ before from rfl, headers_append] at inside
      rcases List.mem_append.1 inside with first | rest
      · exact notHere h first
      · exact none' h rest

/-- The condition, read off the pieces. -/
theorem attributable_iff : Attributable parts ↔
    ∀ piece ∈ pieces parts, piece.text ≠ "" →
      piece.route = .own ∧ Unshared parts piece.position := by
  constructor
  · intro attributable piece mem some'
    obtain ⟨pre, part, post, rfl, inside⟩ := mem_pieces.1 mem
    cases part with
    | content => cases inside
    | toolCall call =>
      rcases List.mem_cons.1 inside with rfl | held
      · exact ⟨rfl, (count_router : (router pre).count = _) ▸
          attributable.header pre call post rfl some'⟩
      · obtain ⟨text, waiting, rfl⟩ := List.mem_map.1 held
        cases own : call.streamIndex with
        | none =>
          rw [own] at waiting
          cases waiting
        | some index =>
          rw [own] at waiting
          obtain ⟨before, argumentsPart, after, rfl, unknown, rfl⟩ := held_of_mem waiting
          have none' := (attributable.unknown before argumentsPart index
            (after ++ .toolCall call :: post) (by simp) some' unknown).2
          refine absurd own (none' call ?_)
          rw [headers_append]
          exact List.mem_append_right _ List.mem_cons_self
    | toolCallPart argumentsPart index =>
      cases index with
      | none => cases inside
      | some index =>
        rw [Router.pieces] at inside
        split at inside
        case h_1 position id known =>
          obtain rfl := List.mem_singleton.1 inside
          exact ⟨rfl, attributable.known pre argumentsPart index post rfl some' _ _ known⟩
        case h_2 position id unknown opened =>
          obtain rfl := List.mem_singleton.1 inside
          have closed := (attributable.unknown pre argumentsPart index post rfl some' unknown).1
          rw [closed] at opened
          cases opened
        case h_3 => cases inside
  · intro all
    refine ⟨fun pre call post split some' => ?_, fun pre argumentsPart index post split some'
      position id known => ?_, fun pre argumentsPart index post split some' unknown => ?_⟩
    · rw [← count_router]
      exact (all _ (mem_pieces.2 ⟨pre, _, post, split, List.mem_cons_self⟩) some').2
    · have inside : (⟨position, id, .own, argumentsPart.getD ""⟩ : Piece) ∈
          (router pre).pieces (.toolCallPart argumentsPart (some index)) := by
        rw [Router.pieces, known]
        exact List.mem_singleton_self _
      exact (all _ (mem_pieces.2 ⟨pre, _, post, split, inside⟩) some').2
    · constructor
      · cases opened : (router pre).opened with
        | none => rfl
        | some call =>
          have inside : (⟨call.1, call.2, .foreign, argumentsPart.getD ""⟩ : Piece) ∈
              (router pre).pieces (.toolCallPart argumentsPart (some index)) := by
            rw [Router.pieces, unknown, opened]
            exact List.mem_singleton_self _
          have own := (all _ (mem_pieces.2 ⟨pre, _, post, split, inside⟩) some').1
          cases own
      · intro h mem own
        obtain ⟨before, call, after, rfl, same, none'⟩ := first_header mem own
        have held : argumentsPart.getD "" ∈ _ := mem_held unknown none'
        have inside : (⟨(router (pre ++ .toolCallPart argumentsPart (some index) :: before)).count,
            call.id, .held, argumentsPart.getD ""⟩ : Piece) ∈
            (router (pre ++ .toolCallPart argumentsPart (some index) :: before)).pieces
              (.toolCall call) := by
          rw [Router.pieces, same]
          exact List.mem_cons_of_mem _ (List.mem_map_of_mem held)
        have route := (all _ (mem_pieces.2 ⟨_, _, after, by simpa using split, inside⟩) some').1
        cases route

/-! ## Comparing texts -/

theorem joinPieces_cons (goes : Piece → Bool) (piece : Piece) (rest : List Piece) :
    joinPieces goes (piece :: rest) =
      (if goes piece then piece.text else "") ++ joinPieces goes rest := by
  rw [joinPieces, List.filter_cons]
  split <;> simp [joinPieces]

theorem length_joinPieces_le {goes goes' : Piece → Bool} {list : List Piece}
    (sub : ∀ x ∈ list, goes x → goes' x) :
    (joinPieces goes list).length ≤ (joinPieces goes' list).length := by
  induction list with
  | nil => exact le_rfl
  | cons x list ih =>
    have rest := ih fun y mem => sub y (List.mem_cons_of_mem _ mem)
    rw [joinPieces_cons, joinPieces_cons, String.length_append, String.length_append]
    cases first : goes x with
    | true =>
      rw [sub x List.mem_cons_self first]
      exact Nat.add_le_add_left rest _
    | false =>
      rw [if_neg Bool.false_ne_true, String.length_empty, Nat.zero_add]
      exact rest.trans (Nat.le_add_left _ _)

/-- Fewer pieces have the same text only if the others are empty. -/
theorem joinPieces_eq_iff {goes goes' : Piece → Bool} {list : List Piece}
    (sub : ∀ x ∈ list, goes x → goes' x) : joinPieces goes list = joinPieces goes' list ↔
      ∀ x ∈ list, goes' x = true → goes x = false → x.text = "" := by
  induction list with
  | nil => exact iff_of_true rfl (by simp)
  | cons x list ih =>
    have rest : ∀ y ∈ list, goes y → goes' y := fun y mem => sub y (List.mem_cons_of_mem _ mem)
    rw [joinPieces_cons, joinPieces_cons, List.forall_mem_cons, ← ih rest]
    cases first : goes x with
    | true =>
      rw [sub x List.mem_cons_self first, String.append_right_inj]
      exact (and_iff_right fun _ never => absurd never (by simp)).symm
    | false =>
      cases first' : goes' x with
      | false =>
        rw [String.append_right_inj]
        exact (and_iff_right fun never => absurd never (by simp)).symm
      | true =>
        rw [if_neg Bool.false_ne_true, if_pos rfl, String.empty_append]
        constructor
        · intro same
          have lengths := congrArg String.length same
          rw [String.length_append] at lengths
          have shorter := length_joinPieces_le rest
          have empty : x.text = "" := String.length_eq_zero_iff.1 (by omega)
          rw [empty, String.empty_append] at same
          exact ⟨fun _ _ => empty, same⟩
        · rintro ⟨empty, same⟩
          rw [empty rfl rfl, String.empty_append]
          exact same

/-- A piece is a text of the call at a position itself. -/
def Piece.isOwn (position : ℕ) (piece : Piece) : Bool :=
  piece.route = .own && piece.position = position

/-! ## Blanking the deltas of other calls -/

def blankPart (index : Option StreamIndex) : StreamedMessagePart → StreamedMessagePart
  | .toolCallPart argumentsPart (some other) =>
    .toolCallPart (if some other = index then argumentsPart else some "") (some other)
  | part => part

variable {s : Option StreamIndex}

theorem blankOthers_concat :
    blankOthers s (pre ++ [part]) = blankOthers s pre ++ [blankPart s part] := by
  rw [blankOthers, List.map_append]
  cases part with
  | content | toolCall => rfl
  | toolCallPart argumentsPart index => cases index <;> rfl

theorem headers_blankOthers : headers (blankOthers s parts) = headers parts := by
  induction parts using List.reverseRecOn with
  | nil => rfl
  | append_singleton parts part ih =>
    rw [blankOthers_concat, headers_append, headers_append, ih]
    cases part with
    | content | toolCall => rfl
    | toolCallPart argumentsPart index => cases index <;> rfl

theorem indexed_blankOthers (indexed : Indexed parts) : Indexed (blankOthers s parts) := by
  intro argumentsPart mem
  obtain ⟨part, inside, same⟩ := List.mem_map.1 mem
  cases part with
  | content | toolCall => cases same
  | toolCallPart argumentsPart index =>
    cases index with
    | none => exact indexed _ inside
    | some => cases same

theorem router_blankOthers : (router (blankOthers s pre)).count = (router pre).count ∧
    (router (blankOthers s pre)).known = (router pre).known ∧
    (router (blankOthers s pre)).opened = (router pre).opened := by
  induction pre using List.reverseRecOn with
  | nil => exact ⟨rfl, rfl, rfl⟩
  | append_singleton pre part ih =>
    obtain ⟨count, known, opened⟩ := ih
    rw [blankOthers_concat, router_concat, router_concat]
    cases part with
    | content => exact ⟨count, known, rfl⟩
    | toolCall => simp only [blankPart, Router.next, count, known, and_self]
    | toolCallPart argumentsPart index =>
      cases index with
      | none => exact ⟨count, known, opened⟩
      | some =>
        simp only [blankPart, Router.next, known]
        split
        case h_1 => exact ⟨count, known, opened⟩
        case h_2 => exact ⟨count, rfl, opened⟩

theorem storedText_blankOthers (own : ∀ h, (headers pre)[k]? = some h → h.streamIndex = s) :
    storedText (blankOthers s pre) k = joinPieces (·.isOwn k) (pieces pre) := by
  induction pre using List.reverseRecOn with
  | nil => rfl
  | append_singleton pre part ih =>
    have before := ih fun h found => own h (header_kept found _)
    obtain ⟨count, known, opened⟩ : (router (blankOthers s pre)).count = _ ∧ _ := router_blankOthers
    rw [blankOthers_concat, storedText, pieces_concat, joinPieces_append, ← storedText, before,
      pieces_concat, joinPieces_append]
    refine congrArg _ ?_
    cases part with
    | content => rfl
    | toolCall call =>
      have held : ∀ (goes : Piece → Bool) (position : ℕ) (texts : List String),
          (∀ text, goes ⟨position, call.id, .held, text⟩ = false) →
          joinPieces goes (texts.map fun text => ⟨position, call.id, .held, text⟩) = "" := by
        intro goes position texts silent
        rw [joinPieces, List.filter_eq_nil_iff.2, List.map_nil, String.join_nil]
        intro piece mem
        obtain ⟨text, -, rfl⟩ := List.mem_map.1 mem
        rw [silent]
        exact Bool.false_ne_true
      simp only [blankPart, Router.pieces]
      rw [count, joinPieces_cons, joinPieces_cons, held _ _ _ fun _ => rfl,
        held _ _ _ fun _ => rfl]
      rfl
    | toolCallPart argumentsPart index =>
      cases index with
      | none => rfl
      | some index =>
        rw [blankPart, Router.pieces, Router.pieces, known, opened]
        have knows := knows_router pre
        split
        case h_1 position id found =>
          by_cases here : position = k
          · subst here
            obtain ⟨h, header, -, own'⟩ := knows.known _ _ _ found
            have same := own h (header_kept header _)
            rw [← same, own', if_pos rfl]
            rfl
          · simp [joinPieces, Piece.isStored, Piece.isOwn, here]
        case h_2 position id unknown found =>
          by_cases here : position = k
          · subst here
            obtain ⟨-, h, header, -⟩ := knows.opened _ _ found
            have same := own h (header_kept header _)
            have other : some index ≠ s := fun eq =>
              knows.unknown _ unknown h (List.mem_of_getElem? header) (same.trans eq.symm)
            rw [if_neg other]
            simp [joinPieces, Piece.isStored, Piece.isOwn]
          · simp [joinPieces, Piece.isStored, Piece.isOwn, here]
        case h_3 => rfl

/-! ## The calls of the message -/

theorem assembled_of_generate {providerName modelName : String} {stream : StreamedMessage}
    {result : GenerateResult} (ok : generate providerName modelName stream = .ok result) :
    result.message = assembled stream.parts := by
  rw [generate] at ok
  dsimp only at ok
  split at ok
  case isTrue => cases ok
  case isFalse =>
    split at ok
    case isTrue => cases ok
    case isFalse =>
      cases ok
      rfl

theorem call_assembled (indexed : Indexed parts) (k : ℕ) :
    ((assembled parts).toolCalls[k]?.map fun c => (c.id, c.argumentsText)) =
      (headers parts)[k]?.map fun h => (h.id, storedText parts k) :=
  (stores indexed).calls k

theorem argumentsText_assembled (indexed : Indexed parts) (header : (headers parts)[k]? = some h) :
    (assembled parts).toolCalls[k]?.map (·.argumentsText) = some (storedText parts k) := by
  have pair := congrArg (Option.map Prod.snd) (call_assembled indexed k)
  rwa [Option.map_map, header, Option.map_map] at pair

theorem header_of_call (indexed : Indexed parts) {call : ToolCall}
    (found : (assembled parts).toolCalls[k]? = some call) :
    ∃ h, (headers parts)[k]? = some h ∧ h.id = call.id ∧
      storedText parts k = call.argumentsText := by
  have pair := call_assembled indexed k
  rw [found, Option.map_some] at pair
  obtain ⟨h, header, same⟩ := Option.map_eq_some_iff.1 pair.symm
  exact ⟨h, header, congrArg Prod.fst same, congrArg Prod.snd same⟩

theorem call_of_header (indexed : Indexed parts) (header : (headers parts)[k]? = some h) :
    ∃ call ∈ (assembled parts).toolCalls,
      (assembled parts).toolCalls[k]? = some call ∧ h.id = call.id ∧
      storedText parts k = call.argumentsText := by
  have pair := call_assembled indexed k
  rw [header, Option.map_some] at pair
  obtain ⟨call, found, same⟩ := Option.map_eq_some_iff.1 pair
  exact ⟨call, List.mem_of_getElem? found, found, (congrArg Prod.fst same).symm,
    (congrArg Prod.snd same).symm⟩

theorem isStored_of_isOwn (piece : Piece) (own : piece.isOwn k) : piece.isStored k := by
  rw [Piece.isOwn, Bool.and_eq_true, decide_eq_true_eq, decide_eq_true_eq] at own
  rw [Piece.isStored, own.1, decide_eq_true own.2]
  rfl

theorem isLive_of_isOwn (header : (headers parts)[k]? = some h) (mem : piece ∈ pieces parts)
    (own : piece.isOwn k) : piece.isLive h.id := by
  rw [Piece.isOwn, Bool.and_eq_true, decide_eq_true_eq, decide_eq_true_eq] at own
  obtain ⟨h', found, same⟩ := header_of_piece mem
  rw [own.2, header] at found
  cases found
  rw [Piece.isLive, own.1, decide_eq_true same.symm]
  rfl

/-- The deltas of other calls make no difference exactly when no foreign piece has text. -/
theorem own_iff (indexed : Indexed parts) :
    (∀ (k : ℕ) call h, (assembled parts).toolCalls[k]? = some call →
      (headers parts)[k]? = some h →
      (assembled (blankOthers h.streamIndex parts)).toolCalls[k]?.map (·.argumentsText) =
        some call.argumentsText) ↔
    ∀ piece ∈ pieces parts, piece.route = .foreign → piece.text = "" := by
  have blanked : ∀ {k : ℕ} {h : ToolCall}, (headers parts)[k]? = some h →
      (assembled (blankOthers h.streamIndex parts)).toolCalls[k]?.map (·.argumentsText) =
        some (joinPieces (·.isOwn k) (pieces parts)) := by
    intro k h header
    have blankHeader : (headers (blankOthers h.streamIndex parts))[k]? = some h := by
      rw [headers_blankOthers]
      exact header
    rw [argumentsText_assembled (indexed_blankOthers indexed) blankHeader,
      storedText_blankOthers]
    intro h' found
    rw [header] at found
    cases found
    rfl
  constructor
  · intro own piece mem foreign
    obtain ⟨h, header, -⟩ := header_of_piece mem
    obtain ⟨call, -, found, -, stored⟩ := call_of_header indexed header
    have same := own _ call h found header
    rw [blanked header, ← stored, Option.some.injEq] at same
    refine (joinPieces_eq_iff fun piece _ => isStored_of_isOwn piece).1 same piece mem ?_ ?_
    · simp [Piece.isStored, foreign]
    · simp [Piece.isOwn, foreign]
  · intro empty k call h found header
    obtain ⟨h', header', -, stored⟩ := header_of_call indexed found
    rw [blanked header, ← stored]
    refine congrArg some ((joinPieces_eq_iff fun piece _ => isStored_of_isOwn piece).2 ?_)
    intro piece mem stored notOwn
    refine empty piece mem ?_
    rw [Piece.isStored, Bool.and_eq_true, decide_eq_true_eq, decide_eq_true_eq] at stored
    cases route : piece.route with
    | own => simp [Piece.isOwn, route, stored.2] at notOwn
    | foreign => rfl
    | held => exact absurd route stored.1

/-- The live deltas of the ids agree with the calls' own texts exactly when every text that is
emitted belongs to the call itself. -/
theorem live_iff (indexed : Indexed parts)
    (own : ∀ piece ∈ pieces parts, piece.route = .foreign → piece.text = "") :
    (∀ call ∈ (assembled parts).toolCalls,
      liveText call.id (liveDeltas parts) = call.argumentsText) ↔
    ∀ (k : ℕ) h, (headers parts)[k]? = some h → ∀ piece ∈ pieces parts,
      piece.isLive h.id = true → piece.isOwn k = false → piece.text = "" := by
  have ownText : ∀ k : ℕ, storedText parts k = joinPieces (·.isOwn k) (pieces parts) := by
    intro k
    refine ((joinPieces_eq_iff fun piece _ => isStored_of_isOwn piece).2 ?_).symm
    intro piece mem stored notOwn
    refine own piece mem ?_
    rw [Piece.isStored, Bool.and_eq_true, decide_eq_true_eq, decide_eq_true_eq] at stored
    cases route : piece.route with
    | own => simp [Piece.isOwn, route, stored.2] at notOwn
    | foreign => rfl
    | held => exact absurd route stored.1
  constructor
  · intro live k h header
    obtain ⟨call, mem, -, id, stored⟩ := call_of_header indexed header
    have same := live call mem
    rw [liveDeltas, (emitsLive indexed).live, ← stored, ownText, ← id] at same
    exact (joinPieces_eq_iff fun piece => isLive_of_isOwn header).1 same.symm
  · intro empty call mem
    obtain ⟨k, found⟩ := List.mem_iff_getElem?.1 mem
    obtain ⟨h, header, id, stored⟩ := header_of_call indexed found
    rw [liveDeltas, (emitsLive indexed).live, ← stored, ownText, ← id]
    exact ((joinPieces_eq_iff fun piece => isLive_of_isOwn header).2 (empty k h header)).symm

/-- What `generate` returns is free of foreign text, and agrees with the live deltas, exactly when
every text can be attributed. -/
theorem generate_uncontaminated (providerName modelName : String) (stream : StreamedMessage)
    (result : GenerateResult) (indexed : Indexed stream.parts)
    (ok : generate providerName modelName stream = .ok result) :
    Uncontaminated stream.parts result.message ↔ Attributable stream.parts := by
  rw [assembled_of_generate ok, attributable_iff]
  constructor
  · intro clean piece mem some'
    have own := (own_iff indexed).1 clean.own
    have live := (live_iff indexed own).1 clean.live
    obtain ⟨h, header, id⟩ := header_of_piece mem
    have route : piece.route = .own := by
      cases route : piece.route with
      | own => rfl
      | foreign => exact absurd (own piece mem route) some'
      | held =>
        refine absurd (live _ h header piece mem ?_ ?_) some'
        · simp [Piece.isLive, route, id]
        · simp [Piece.isOwn, route]
    refine ⟨route, fun k h₁ h₂ header₁ header₂ same => ?_⟩
    by_contra other
    rw [header] at header₁
    cases header₁
    refine absurd (live k h₂ header₂ piece mem ?_ ?_) some'
    · simp [Piece.isLive, route, same, id]
    · simp [Piece.isOwn, Ne.symm other]
  · intro all
    have own : ∀ piece ∈ pieces stream.parts, piece.route = .foreign → piece.text = "" := by
      intro piece mem foreign
      by_contra some'
      have route := (all piece mem some').1
      rw [foreign] at route
      cases route
    refine ⟨(own_iff indexed).2 own, (live_iff indexed own).2 fun k h header piece mem emitted
      notOwn => ?_⟩
    by_contra some'
    obtain ⟨route, unshared⟩ := all piece mem some'
    obtain ⟨h', header', id⟩ := header_of_piece mem
    rw [Piece.isLive, Bool.and_eq_true, decide_eq_true_eq, decide_eq_true_eq] at emitted
    have position := unshared k h' h header' header (emitted.2.symm.trans id.symm)
    simp [Piece.isOwn, route, position] at notOwn

theorem parallelParts_uncontaminated :
    ∃ result, generate "kimi" "k2" (streamOf parallelParts) = .ok result ∧
      Uncontaminated parallelParts result.message := by
  refine ⟨_, rfl, (generate_uncontaminated "kimi" "k2" (streamOf parallelParts) _ ?_ rfl).2
    (attributable_iff.2 fun piece mem _ => ⟨?_, ?_⟩)⟩
  · intro argumentsPart mem
    simp [streamOf, parallelParts] at mem
  · revert piece
    decide
  · exact unshared_of_nodup (by decide) piece.position

/-- The delta of the second call comes before its header. -/
def earlyParts : List StreamedMessagePart :=
  [.toolCall { id := "a", name := "Read", arguments := none, streamIndex := some (.number 0) },
    .toolCallPart (some "x") (some (.number 1)),
    .toolCall { id := "b", name := "Bash", arguments := none, streamIndex := some (.number 1) }]

/-- The first call has the text of the second one's delta. -/
theorem generate_contaminated : ¬∀ providerName modelName stream result, Indexed stream.parts →
    generate providerName modelName stream = .ok result →
    Uncontaminated stream.parts result.message := by
  intro all
  have clean := all "kimi" "k2" (streamOf earlyParts) _
    (fun argumentsPart mem => by simp [streamOf, earlyParts] at mem) rfl
  have own := clean.own 0 { id := "a", name := "Read", arguments := some "x" }
    { id := "a", name := "Read", arguments := none, streamIndex := some (.number 0) } rfl rfl
  revert own
  decide
end KimiCli
