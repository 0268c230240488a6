import KimiCli.Kosong.Generate

/-!
# The assembled message

What `generate` makes of a stream whose tool-call headers carry pairwise distinct stream indexes and
whose indexed argument deltas come after the header of their index.  `Assembles pre a` relates the
assembly state to the parts read so far; every part keeps it, whatever call is pending and whatever
comes between a header and its deltas.
-/

namespace KimiCli

/-! ### What a stream contains -/

/-- The tool-call headers of a stream in order of arrival. -/
def headers (parts : List StreamedMessagePart) : List ToolCall :=
  parts.filterMap fun
    | .toolCall call => some call
    | _ => none

/-- The content parts of a stream in order of arrival. -/
def contents (parts : List StreamedMessagePart) : List ContentPart :=
  parts.filterMap fun
    | .content part => some part
    | _ => none

/-- The call that an unindexed delta after `part` continues, given the one before `part`. -/
def openAfter (current : Option StreamIndex) : StreamedMessagePart → Option StreamIndex
  | .content _ => none
  | .toolCall call => call.streamIndex
  | .toolCallPart _ _ => current

/-- The index of the last header, unless a content part has arrived since. -/
def openCall (parts : List StreamedMessagePart) : Option StreamIndex :=
  parts.foldl openAfter none

def deltasFrom (index : StreamIndex) :
    Option StreamIndex → List StreamedMessagePart → List (Option String)
  | _, [] => []
  | current, .toolCallPart argumentsPart i :: rest =>
    if i.or current = some index then argumentsPart :: deltasFrom index current rest
    else deltasFrom index current rest
  | current, part :: rest => deltasFrom index (openAfter current part) rest

/-- The argument deltas of the call with the given index: those that carry its index, and the
unindexed ones that continue it. -/
def deltasOf (index : StreamIndex) (parts : List StreamedMessagePart) : List (Option String) :=
  deltasFrom index none parts

/-- The header's arguments followed by all deltas of its call. -/
def callArguments (parts : List StreamedMessagePart) (call : ToolCall) : Option String :=
  joinArguments (call.arguments :: call.streamIndex.elim [] (deltasOf · parts))

/-- The tool call that a header should become. -/
def assembledCall (parts : List StreamedMessagePart) (call : ToolCall) : ToolCall :=
  { call with arguments := callArguments parts call, streamIndex := none }

/-- The concatenation of all text parts. -/
def textOf (content : List ContentPart) : String :=
  String.join (content.filterMap fun
    | .text value => some value
    | _ => none)

/-- The concatenation of all think parts. -/
def thinkOf (content : List ContentPart) : String :=
  String.join (content.filterMap fun
    | .think value _ => some value
    | _ => none)

/-- The media parts in order. -/
def mediaOf (content : List ContentPart) : List ContentPart :=
  content.filter fun
    | .text _ | .think _ _ => false
    | _ => true

/-- Streams in which each tool-call header carries an index that no earlier header has, and each
indexed argument delta carries the index of an earlier header. -/
inductive WellRouted : List StreamedMessagePart → Prop
  | nil : WellRouted []
  | content {pre : List StreamedMessagePart} (part : ContentPart) :
      WellRouted pre → WellRouted (pre ++ [.content part])
  | toolCall {pre : List StreamedMessagePart} (call : ToolCall) (index : StreamIndex) :
      WellRouted pre → call.streamIndex = some index →
      (∀ c ∈ headers pre, c.streamIndex ≠ some index) → WellRouted (pre ++ [.toolCall call])
  | delta {pre : List StreamedMessagePart} {call : ToolCall} {index : StreamIndex}
      (argumentsPart : Option String) :
      WellRouted pre → call ∈ headers pre → call.streamIndex = some index →
      WellRouted (pre ++ [.toolCallPart argumentsPart (some index)])
  | unindexed {pre : List StreamedMessagePart} (argumentsPart : Option String) :
      WellRouted pre → WellRouted (pre ++ [.toolCallPart argumentsPart none])

variable {pre : List StreamedMessagePart} {part : ContentPart} {call : ToolCall}
  {index : StreamIndex} {argumentsPart : Option String} {i : Option StreamIndex}

/-! ### One more part -/

@[simp] theorem headers_content : headers (pre ++ [.content part]) = headers pre := by
  simp [headers]

@[simp] theorem headers_toolCall : headers (pre ++ [.toolCall call]) = headers pre ++ [call] := by
  simp [headers]

@[simp] theorem headers_toolCallPart :
    headers (pre ++ [.toolCallPart argumentsPart i]) = headers pre := by
  simp [headers]

@[simp] theorem contents_content : contents (pre ++ [.content part]) = contents pre ++ [part] := by
  simp [contents]

@[simp] theorem contents_toolCall : contents (pre ++ [.toolCall call]) = contents pre := by
  simp [contents]

@[simp] theorem contents_toolCallPart :
    contents (pre ++ [.toolCallPart argumentsPart i]) = contents pre := by
  simp [contents]

@[simp] theorem openCall_concat (part : StreamedMessagePart) :
    openCall (pre ++ [part]) = openAfter (openCall pre) part := by
  simp [openCall]

theorem deltasFrom_append (index : StreamIndex) (current : Option StreamIndex)
    (pre post : List StreamedMessagePart) :
    deltasFrom index current (pre ++ post) =
      deltasFrom index current pre ++ deltasFrom index (pre.foldl openAfter current) post := by
  induction pre generalizing current with
  | nil => simp [deltasFrom]
  | cons part pre ih =>
    cases part with
    | content | toolCall => simpa [deltasFrom, openAfter] using ih _
    | toolCallPart =>
      simp only [List.cons_append, deltasFrom, List.foldl_cons, openAfter, ih]
      split <;> simp

theorem deltasOf_append (post : List StreamedMessagePart) :
    deltasOf index (pre ++ post) = deltasOf index pre ++ deltasFrom index (openCall pre) post :=
  deltasFrom_append _ _ _ _

@[simp] theorem deltasOf_content :
    deltasOf index (pre ++ [.content part]) = deltasOf index pre := by
  simp [deltasOf_append, deltasFrom]

@[simp] theorem deltasOf_toolCall :
    deltasOf index (pre ++ [.toolCall call]) = deltasOf index pre := by
  simp [deltasOf_append, deltasFrom]

theorem deltasOf_toolCallPart :
    deltasOf index (pre ++ [.toolCallPart argumentsPart i]) =
      if i.or (openCall pre) = some index then deltasOf index pre ++ [argumentsPart]
      else deltasOf index pre := by
  rw [deltasOf_append, deltasFrom]
  by_cases same : i.or (openCall pre) = some index
  · rw [if_pos same, if_pos same]
    rfl
  · rw [if_neg same, if_neg same]
    exact List.append_nil _

/-! ### Well routed streams -/

theorem WellRouted.distinct (h : WellRouted pre) :
    (headers pre).Pairwise fun a b => a.streamIndex ≠ b.streamIndex := by
  induction h with
  | nil => simp [headers]
  | content _ _ ih | delta _ _ _ _ ih | unindexed _ _ ih => simpa using ih
  | toolCall _ _ _ hindex fresh ih =>
    rw [headers_toolCall, List.pairwise_append]
    refine ⟨ih, by simp, ?_⟩
    intro a ha b hb
    rw [List.mem_singleton.1 hb, hindex]
    exact fresh a ha

theorem WellRouted.indexed (h : WellRouted pre) :
    ∀ c ∈ headers pre, ∃ index, c.streamIndex = some index := by
  induction h with
  | nil => simp [headers]
  | content _ _ ih | delta _ _ _ _ ih | unindexed _ _ ih => simpa using ih
  | toolCall _ _ _ hindex _ ih =>
    intro c hc
    rcases List.mem_append.1 (headers_toolCall ▸ hc) with hc | hc
    · exact ih c hc
    · exact ⟨_, List.mem_singleton.1 hc ▸ hindex⟩

theorem WellRouted.eq_of_streamIndex (h : WellRouted pre) {c d : ToolCall} (hc : c ∈ headers pre)
    (hd : d ∈ headers pre) (same : c.streamIndex = d.streamIndex) : c = d :=
  List.inj_on_of_nodup_map (List.pairwise_map.2 h.distinct) hc hd same

theorem WellRouted.openCall_getLast? (h : WellRouted pre) (continued : openCall pre = some index) :
    ∃ c, (headers pre).getLast? = some c ∧ c.streamIndex = some index := by
  induction h with
  | nil => simp [openCall] at continued
  | content => simp [openAfter] at continued
  | toolCall call => exact ⟨call, by simp, by simpa [openAfter] using continued⟩
  | delta _ _ _ _ ih | unindexed _ _ ih => simpa using ih (by simpa [openAfter] using continued)

theorem WellRouted.deltasOf_eq_nil (h : WellRouted pre)
    (fresh : ∀ c ∈ headers pre, c.streamIndex ≠ some index) : deltasOf index pre = [] := by
  induction h with
  | nil => rfl
  | content _ _ ih => simpa using ih (by simpa using fresh)
  | toolCall _ _ _ _ _ ih => simpa using ih fun c hc => fresh c (by simp [hc])
  | delta _ _ mem hindex ih =>
    rw [headers_toolCallPart] at fresh
    rw [deltasOf_toolCallPart, if_neg, ih fresh]
    rintro same
    exact fresh _ mem (hindex.trans same)
  | unindexed _ routed ih =>
    rw [headers_toolCallPart] at fresh
    rw [deltasOf_toolCallPart, if_neg, ih fresh]
    rintro same
    obtain ⟨c, hc, hindex⟩ := routed.openCall_getLast? same
    exact fresh c (List.mem_of_getLast? hc) hindex

/-! ### The content of the message -/

/-- `Coalesced streamed stored`: the stored content is the streamed content with some parts merged
into the part before them. -/
inductive Coalesced : List ContentPart → List ContentPart → Prop
  | nil : Coalesced [] []
  | push {streamed stored : List ContentPart} (part : ContentPart) :
      Coalesced streamed stored → Coalesced (streamed ++ [part]) (stored ++ [part])
  | merge {streamed stored : List ContentPart} {target source merged : ContentPart} :
      Coalesced streamed (stored ++ [target]) →
      mergeInPlace (.content target) (.content source) = some (.content merged) →
      Coalesced (streamed ++ [source]) (stored ++ [merged])

variable {streamed stored : List ContentPart}

theorem mergeInPlace_content {target source : ContentPart} {merged : StreamedMessagePart}
    (h : mergeInPlace (.content target) (.content source) = some merged) :
    (∃ a b, target = .text a ∧ source = .text b ∧ merged = .content (.text (a ++ b))) ∨
      ∃ a b encrypted, target = .think a none ∧ source = .think b encrypted ∧
        merged = .content (.think (a ++ b) encrypted) := by
  unfold mergeInPlace at h
  split at h
  case h_1 a b ha hb =>
    cases ha
    cases hb
    exact .inl ⟨a, b, rfl, rfl, (Option.some.inj h).symm⟩
  case h_2 a b encrypted ha hb =>
    cases ha
    cases hb
    exact .inr ⟨a, b, encrypted, rfl, rfl, (Option.some.inj h).symm⟩
  case h_3 ha _ => cases ha
  case h_4 => cases h

/-- A content part is merged into a content part only. -/
theorem content_of_mergeInPlace {pending merged : StreamedMessagePart} {source : ContentPart}
    (h : mergeInPlace pending (.content source) = some merged) :
    ∃ target result, pending = .content target ∧ merged = .content result := by
  cases pending with
  | content target =>
    rcases mergeInPlace_content h with ⟨_, _, _, _, rfl⟩ | ⟨_, _, _, _, _, rfl⟩ <;>
      exact ⟨target, _, rfl, rfl⟩
  | _ => cases source <;> cases h

theorem textOf_append (xs ys : List ContentPart) : textOf (xs ++ ys) = textOf xs ++ textOf ys := by
  simp [textOf, String.join_append]

theorem thinkOf_append (xs ys : List ContentPart) :
    thinkOf (xs ++ ys) = thinkOf xs ++ thinkOf ys := by
  simp [thinkOf, String.join_append]

theorem Coalesced.text_eq (h : Coalesced streamed stored) : textOf stored = textOf streamed := by
  induction h with
  | nil => rfl
  | push part _ ih => rw [textOf_append, textOf_append, ih]
  | merge _ merged ih =>
    rw [textOf_append] at ih ⊢
    rw [textOf_append, ← ih, String.append_assoc]
    rcases mergeInPlace_content merged with ⟨a, b, rfl, rfl, hm⟩ | ⟨a, b, e, rfl, rfl, hm⟩ <;>
      cases hm <;> simp [textOf]

theorem Coalesced.think_eq (h : Coalesced streamed stored) : thinkOf stored = thinkOf streamed := by
  induction h with
  | nil => rfl
  | push part _ ih => rw [thinkOf_append, thinkOf_append, ih]
  | merge _ merged ih =>
    rw [thinkOf_append] at ih ⊢
    rw [thinkOf_append, ← ih, String.append_assoc]
    rcases mergeInPlace_content merged with ⟨a, b, rfl, rfl, hm⟩ | ⟨a, b, e, rfl, rfl, hm⟩ <;>
      cases hm <;> simp [thinkOf]

theorem Coalesced.media_eq (h : Coalesced streamed stored) : mediaOf stored = mediaOf streamed := by
  induction h with
  | nil => rfl
  | push part _ ih => simp only [mediaOf, List.filter_append] at ih ⊢; rw [ih]
  | merge _ merged ih =>
    simp only [mediaOf, List.filter_append] at ih ⊢
    rw [← ih, List.append_assoc]
    rcases mergeInPlace_content merged with ⟨a, b, rfl, rfl, hm⟩ | ⟨a, b, e, rfl, rfl, hm⟩ <;>
      cases hm <;> rfl

theorem Coalesced.any_isThink (h : Coalesced streamed stored) :
    stored.any (·.isThink) = streamed.any (·.isThink) := by
  induction h with
  | nil => rfl
  | push part _ ih => simp [ih]
  | merge _ merged =>
    rcases mergeInPlace_content merged with ⟨a, b, rfl, rfl, hm⟩ | ⟨a, b, e, rfl, rfl, hm⟩ <;>
      cases hm <;> simp_all [ContentPart.isThink]

theorem Coalesced.eq_nil (h : Coalesced streamed stored) : stored = [] ↔ streamed = [] := by
  cases h <;> simp

theorem any_isVisibleText (content : List ContentPart) :
    content.any (·.isVisibleText) = true ↔ ∃ c ∈ (textOf content).toList, isJsSpace c = false := by
  induction content with
  | nil => simp [textOf]
  | cons part content ih =>
    cases part with
    | text value =>
      have : (textOf (.text value :: content)).toList =
          value.toList ++ (textOf content).toList := by
        simp [textOf]
      rw [List.any_cons, Bool.or_eq_true, ih, this]
      simp only [ContentPart.isVisibleText, decide_eq_true_eq, trim_length_pos_iff,
        List.mem_append, or_and_right, exists_or]
    | _ => simpa [ContentPart.isVisibleText, textOf] using ih

/-! ### The tool calls of the message -/

/-- A tool call with one more delta. -/
def extendCall (argumentsPart : Option String) (target : ToolCall) : ToolCall :=
  { target with arguments := appendArguments target.arguments argumentsPart }

@[simp] theorem assembledCall_content :
    assembledCall (pre ++ [.content part]) = assembledCall pre := by
  funext c
  simp [assembledCall, callArguments]

@[simp] theorem assembledCall_toolCall :
    assembledCall (pre ++ [.toolCall call]) = assembledCall pre := by
  funext c
  simp [assembledCall, callArguments]

theorem assembledCall_toolCallPart_self (continued : i.or (openCall pre) = some index)
    (hindex : call.streamIndex = some index) :
    assembledCall (pre ++ [.toolCallPart argumentsPart i]) call =
      extendCall argumentsPart (assembledCall pre call) := by
  simp only [assembledCall, extendCall, callArguments, hindex, Option.elim_some,
    deltasOf_toolCallPart, if_pos continued]
  rw [← List.cons_append, joinArguments_concat]

theorem assembledCall_toolCallPart_of_ne (other : ∀ index, call.streamIndex = some index →
      i.or (openCall pre) ≠ some index) :
    assembledCall (pre ++ [.toolCallPart argumentsPart i]) call = assembledCall pre call := by
  cases hindex : call.streamIndex with
  | none => simp [assembledCall, callArguments, hindex]
  | some j =>
    simp only [assembledCall, callArguments, hindex, Option.elim_some, deltasOf_toolCallPart,
      if_neg (other j hindex)]

theorem WellRouted.assembledCall_new (routed : WellRouted pre)
    (hindex : call.streamIndex = some index)
    (fresh : ∀ c ∈ headers pre, c.streamIndex ≠ some index) :
    assembledCall pre call = { call with streamIndex := none } := by
  simp [assembledCall, callArguments, hindex, routed.deltasOf_eq_nil fresh, joinArguments]

theorem WellRouted.calls_modify (routed : WellRouted pre) (argumentsPart : Option String) {k : ℕ}
    (header : (headers pre)[k]? = some call) (hindex : call.streamIndex = some index)
    (continued : i.or (openCall pre) = some index) :
    ((headers pre).map (assembledCall pre)).modify k (extendCall argumentsPart) =
      (headers pre).map (assembledCall (pre ++ [.toolCallPart argumentsPart i])) := by
  obtain ⟨hk, hcall⟩ := List.getElem?_eq_some_iff.1 header
  refine List.ext_getElem? fun j => ?_
  rw [List.getElem?_modify, List.getElem?_map, List.getElem?_map]
  rcases hj : (headers pre)[j]? with _ | c
  · rfl
  by_cases hkj : k = j
  · subst hkj
    obtain rfl : call = c := Option.some.inj (header.symm.trans hj)
    simp [assembledCall_toolCallPart_self continued hindex]
  · obtain ⟨hlt, hc⟩ := List.getElem?_eq_some_iff.1 hj
    have apart : c.streamIndex ≠ call.streamIndex := by
      have distinct := List.pairwise_iff_getElem.1 routed.distinct
      rcases Nat.lt_or_gt_of_ne hkj with lt | lt
      · simpa [hc, hcall] using (distinct k j hk hlt lt).symm
      · simpa [hc, hcall] using distinct j k hlt hk lt
    have other : ∀ index', c.streamIndex = some index' → i.or (openCall pre) ≠ some index' := by
      rintro index' hindex' same
      exact apart (hindex'.trans (same.symm.trans (continued.trans hindex.symm)))
    simp [hkj, assembledCall_toolCallPart_of_ne other]

/-! ### The assembly state -/

theorem modify_append_of_lt {α : Type*} (f : α → α) (ys : List α) :
    ∀ {xs : List α} {k : ℕ}, k < xs.length → (xs ++ ys).modify k f = xs.modify k f ++ ys
  | _ :: _, 0, _ => rfl
  | x :: xs, k + 1, lt => by
    simpa using modify_append_of_lt f ys (Nat.lt_of_succ_lt_succ lt)

theorem modify_concat {α : Type*} (f : α → α) (x : α) :
    ∀ xs : List α, (xs ++ [x]).modify xs.length f = xs ++ [f x]
  | [] => rfl
  | y :: ys => by simpa using modify_concat f x ys

/-- `a` is an assembly state after the parts `pre`. -/
structure Assembles (pre : List StreamedMessagePart) (a : Assembly) : Prop where
  content : Coalesced (contents pre) a.close.message.content
  calls : a.close.message.toolCalls = (headers pre).map (assembledCall pre)
  positions : ∀ (k : ℕ) (c : ToolCall) (index : StreamIndex), (headers pre)[k]? = some c →
    c.streamIndex = some index → a.close.toolCallIndexMap index = some k
  /-- A pending call is that of the last header, and unindexed deltas continue it. -/
  pendingCall : ∀ c, a.pendingPart = some (.toolCall c) → c.streamIndex = openCall pre ∧
    ∃ h, (headers pre).getLast? = some h ∧ h.streamIndex = c.streamIndex
  noPendingCall : (∀ c, a.pendingPart ≠ some (.toolCall c)) → openCall pre = none

namespace Assembly

variable {a : Assembly}

theorem mergeOrFlush_of_merge {pending merged part : StreamedMessagePart}
    (hp : a.pendingPart = some pending) (hm : mergeInPlace pending part = some merged) :
    a.mergeOrFlush part = { a with pendingPart := some merged } := by
  simp [mergeOrFlush, hp, hm]

theorem mergeOrFlush_of_apart {part : StreamedMessagePart}
    (h : ∀ pending, a.pendingPart = some pending → mergeInPlace pending part = none) :
    a.mergeOrFlush part = { a.close with pendingPart := some part } := by
  cases hp : a.pendingPart with
  | none => simp [mergeOrFlush, close, hp]
  | some pending => simp [mergeOrFlush, close, hp, h pending hp]

theorem close_pending (part : StreamedMessagePart) :
    close { a with pendingPart := some part } = { a.flushPart part with pendingPart := none } := by
  cases part <;> rfl

end Assembly

variable {a : Assembly}

theorem mergeInPlace_toolCall (pending : StreamedMessagePart) :
    mergeInPlace pending (.toolCall call) = none := by
  cases pending with
  | content part =>
    cases part with
    | think _ encrypted => cases encrypted <;> rfl
    | _ => rfl
  | _ => rfl

theorem assembles_init : Assembles [] .init := by
  constructor <;> simp [Assembly.init, Assembly.close, headers, contents, openCall]
  exact .nil

theorem Assembles.content_part (h : Assembles pre a) :
    Assembles (pre ++ [.content part]) (a.feed (.content part)) := by
  change Assembles _ (a.mergeOrFlush (.content part))
  by_cases apart : ∀ pending, a.pendingPart = some pending →
      mergeInPlace pending (.content part) = none
  · rw [Assembly.mergeOrFlush_of_apart apart]
    exact
      { content := by simpa [Assembly.close_pending, Assembly.flushPart] using h.content.push part
        calls := by simpa [Assembly.close, Assembly.flushPart] using h.calls
        positions := by simpa [Assembly.close, Assembly.flushPart] using h.positions
        pendingCall := by simp
        noPendingCall := by simp [openAfter] }
  · push Not at apart
    obtain ⟨pending, hp, hm⟩ := apart
    obtain ⟨merged, hm⟩ := Option.ne_none_iff_exists'.1 hm
    obtain ⟨target, result, rfl, rfl⟩ := content_of_mergeInPlace hm
    rw [Assembly.mergeOrFlush_of_merge hp hm]
    have content := h.content
    have calls := h.calls
    have positions := h.positions
    simp only [Assembly.close, hp, Assembly.flushPart] at content calls positions
    exact
      { content := by simpa [Assembly.close, Assembly.flushPart] using content.merge hm
        calls := by simpa [Assembly.close, Assembly.flushPart] using calls
        positions := by simpa [Assembly.close, Assembly.flushPart] using positions
        pendingCall := by simp
        noPendingCall := by simp [openAfter] }

theorem Assembles.tool_call (h : Assembles pre a) (routed : WellRouted pre)
    (hindex : call.streamIndex = some index)
    (fresh : ∀ c ∈ headers pre, c.streamIndex ≠ some index) :
    Assembles (pre ++ [.toolCall call]) (a.feed (.toolCall call)) := by
  change Assembles _ (a.mergeOrFlush (.toolCall call))
  rw [Assembly.mergeOrFlush_of_apart fun pending _ => mergeInPlace_toolCall pending]
  have len : a.close.message.toolCalls.length = (headers pre).length := by simp [h.calls]
  exact
    { content := by simpa [Assembly.close, Assembly.flushPart] using h.content
      calls := by
        simpa [Assembly.close, Assembly.flushPart, routed.assembledCall_new hindex fresh]
          using h.calls
      positions := by
        intro k c j hk hj
        simp only [Assembly.close_pending, Assembly.flushPart, hindex, len]
        rw [headers_toolCall, List.getElem?_append] at hk
        split at hk
        case isTrue lt =>
          have ne : j ≠ index := by
            rintro rfl
            exact fresh c (List.mem_of_getElem? hk) hj
          rw [Function.update_of_ne ne]
          exact h.positions k c j hk hj
        case isFalse ge =>
          obtain ⟨rfl, rfl⟩ : k = (headers pre).length ∧ call = c := by
            rw [List.getElem?_singleton] at hk
            split at hk <;> simp_all
            omega
          obtain rfl : index = j := Option.some.inj (hindex.symm.trans hj)
          simp
      pendingCall := by
        intro c hc
        obtain rfl : call = c := by simpa using hc
        exact ⟨by simp [openAfter], call, by simp, rfl⟩
      noPendingCall := by simp }

theorem Assembles.continued (h : Assembles pre a) (routed : WellRouted pre) {c : ToolCall}
    (hp : a.pendingPart = some (.toolCall c)) (hindex : c.streamIndex = some index)
    (target : i.or (openCall pre) = some index) :
    Assembles (pre ++ [.toolCallPart argumentsPart i])
      (a.mergeOrFlush (.toolCallPart argumentsPart i)) := by
  obtain ⟨hopen, last, hlast, hcall⟩ := h.pendingCall c hp
  have merges : mergeInPlace (.toolCall c) (.toolCallPart argumentsPart i) =
      some (.toolCall (extendCall argumentsPart c)) := rfl
  rw [Assembly.mergeOrFlush_of_merge hp merges]
  have content := h.content
  have calls := h.calls
  have positions := h.positions
  simp only [Assembly.close, hp, Assembly.flushPart] at content calls positions
  have len : a.message.toolCalls.length + 1 = (headers pre).length := by
    simpa using congrArg List.length calls
  have header : (headers pre)[a.message.toolCalls.length]? = some last := by
    rw [List.getLast?_eq_getElem?] at hlast
    rwa [show a.message.toolCalls.length = (headers pre).length - 1 by omega]
  have extended := routed.calls_modify argumentsPart header
    (hcall.trans hindex) target
  exact
    { content := by simpa [Assembly.close, Assembly.flushPart] using content
      calls := by
        rw [headers_toolCallPart, ← extended, ← calls]
        simp [Assembly.close, Assembly.flushPart, extendCall, modify_concat]
      positions := by simpa [Assembly.close, Assembly.flushPart, extendCall] using positions
      pendingCall := by
        intro c' hc'
        obtain rfl : extendCall argumentsPart c = c' := by simpa using hc'
        exact ⟨by simpa [openAfter, extendCall] using hopen, last, by simpa using hlast, hcall⟩
      noPendingCall := fun none => absurd rfl (none _) }

theorem Assembles.flushed (h : Assembles pre a) (routed : WellRouted pre) {k : ℕ}
    (header : (headers pre)[k]? = some call) (hindex : call.streamIndex = some index)
    (notPending : Assembly.isPendingToolCallAtIndex a.pendingPart index = false) :
    Assembles (pre ++ [.toolCallPart argumentsPart (some index)]) (a.appendAt k argumentsPart) := by
  have extended := routed.calls_modify argumentsPart (i := some index) header hindex rfl
  have hk : k < (headers pre).length := (List.getElem?_eq_some_iff.1 header).1
  have closed : (a.appendAt k argumentsPart).close = a.close.appendAt k argumentsPart := by
    cases hp : a.pendingPart with
    | none => simp [Assembly.close, Assembly.appendAt, hp]
    | some pending =>
      cases pending with
      | content | toolCallPart => simp [Assembly.close, Assembly.appendAt, Assembly.flushPart, hp]
      | toolCall c =>
        -- the pending call is that of the last header, so position `k` is before it
        obtain ⟨_, last, hlast, hcall⟩ := h.pendingCall c hp
        have calls := h.calls
        simp only [Assembly.close, hp, Assembly.flushPart] at calls
        have len : a.message.toolCalls.length + 1 = (headers pre).length := by
          simpa using congrArg List.length calls
        have lt : k < a.message.toolCalls.length := by
          refine lt_of_le_of_ne (by omega) fun heq => ?_
          rw [List.getLast?_eq_getElem?, ← len, Nat.add_sub_cancel, ← heq, header] at hlast
          cases hlast
          simp [Assembly.isPendingToolCallAtIndex, hp, ← hcall, hindex] at notPending
        simp [Assembly.close, Assembly.appendAt, Assembly.flushPart, hp, modify_append_of_lt _ _ lt]
  exact
    { content := by
        rw [closed]
        simpa [Assembly.appendAt] using h.content
      calls := by
        rw [headers_toolCallPart, ← extended, ← h.calls, closed]
        rfl
      positions := by
        rw [closed]
        simpa [Assembly.appendAt] using h.positions
      pendingCall := by simpa [Assembly.appendAt, openAfter] using h.pendingCall
      noPendingCall := by simpa [Assembly.appendAt, openAfter] using h.noPendingCall }

theorem Assembles.orphan (h : Assembles pre a) (closed : openCall pre = none)
    (noCall : ∀ c, a.pendingPart ≠ some (.toolCall c)) :
    Assembles (pre ++ [.toolCallPart argumentsPart none])
      (a.mergeOrFlush (.toolCallPart argumentsPart none)) := by
  have same : assembledCall (pre ++ [.toolCallPart argumentsPart none]) = assembledCall pre := by
    funext c
    exact assembledCall_toolCallPart_of_ne (by simp [closed])
  have apart : ∀ pending, a.pendingPart = some pending →
      mergeInPlace pending (.toolCallPart argumentsPart none) = none := by
    intro pending hp
    cases pending with
    | content part =>
      cases part with
      | think _ encrypted => cases encrypted <;> rfl
      | _ => rfl
    | toolCall c => exact absurd hp (noCall c)
    | toolCallPart => rfl
  rw [Assembly.mergeOrFlush_of_apart apart]
  exact
    { content := by simpa [Assembly.close_pending, Assembly.flushPart] using h.content
      calls := by simpa [Assembly.close_pending, Assembly.flushPart, same] using h.calls
      positions := by simpa [Assembly.close_pending, Assembly.flushPart] using h.positions
      pendingCall := by simp
      noPendingCall := by simpa [openAfter] using closed }

theorem Assembles.indexed_delta (h : Assembles pre a) (routed : WellRouted pre)
    (mem : call ∈ headers pre) (hindex : call.streamIndex = some index) :
    Assembles (pre ++ [.toolCallPart argumentsPart (some index)])
      (a.feed (.toolCallPart argumentsPart (some index))) := by
  obtain ⟨k, header⟩ := List.getElem?_of_mem mem
  by_cases pending : Assembly.isPendingToolCallAtIndex a.pendingPart index = true
  · obtain ⟨c, hp, hc⟩ : ∃ c, a.pendingPart = some (.toolCall c) ∧ c.streamIndex = some index := by
      unfold Assembly.isPendingToolCallAtIndex at pending
      split at pending <;> simp_all
    rw [Assembly.feed, if_pos pending]
    exact h.continued routed hp hc rfl
  · rw [Bool.not_eq_true] at pending
    have position : a.toolCallIndexMap index = some k := by
      rw [← h.positions k call index header hindex]
      unfold Assembly.close
      cases hp : a.pendingPart with
      | none => rfl
      | some part =>
        cases part with
        | toolCall c =>
          cases hc : c.streamIndex with
          | none => simp [Assembly.flushPart, hc]
          | some j =>
            have ne : index ≠ j := by
              rintro rfl
              simp [Assembly.isPendingToolCallAtIndex, hp, hc] at pending
            simp [Assembly.flushPart, hc, Function.update_of_ne ne]
        | _ => rfl
    rw [Assembly.feed, if_neg (by simp [pending]), position]
    exact h.flushed routed header hindex pending

theorem Assembles.unindexed_delta (h : Assembles pre a) (routed : WellRouted pre) :
    Assembles (pre ++ [.toolCallPart argumentsPart none])
      (a.feed (.toolCallPart argumentsPart none)) := by
  change Assembles _ (a.mergeOrFlush _)
  by_cases hp : ∃ c, a.pendingPart = some (.toolCall c)
  · obtain ⟨c, hp⟩ := hp
    obtain ⟨hopen, last, hlast, hcall⟩ := h.pendingCall c hp
    obtain ⟨j, hj⟩ := routed.indexed last (List.mem_of_getLast? hlast)
    have hc : c.streamIndex = some j := hcall.symm.trans hj
    exact h.continued routed hp hc (by simpa using hopen.symm.trans hc)
  · push Not at hp
    exact h.orphan (h.noPendingCall hp) hp

theorem WellRouted.assembles {parts : List StreamedMessagePart} (routed : WellRouted parts) :
    Assembles parts (parts.foldl Assembly.feed .init) := by
  induction routed with
  | nil => exact assembles_init
  | content part _ ih => simpa using ih.content_part
  | toolCall _ _ routed hindex fresh ih => simpa using ih.tool_call routed hindex fresh
  | delta argumentsPart routed mem hindex ih => simpa using ih.indexed_delta routed mem hindex
  | unindexed argumentsPart routed ih => simpa using ih.unindexed_delta routed

end KimiCli
