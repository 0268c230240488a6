import KimiCli.Kosong.ToolCallIds
import KimiCli.Kosong.ToolExchanges

/-!
# Messages of an Anthropic request

`convertMessage` and the first part of `generate` in `kosong/src/providers/anthropic.ts`: each
message of the history is converted on its own, and neighbouring messages of tool results only are
merged.  Of the model name only `shouldPreserveUnsignedThinking` is used.
-/

namespace KimiCli

namespace Anthropic

inductive ImageSource
  | base64 (data mediaType : String)
  | url (url : String)
  deriving DecidableEq

/-- The blocks that a tool result can have. -/
inductive MediaBlock
  | text (text : String)
  | image (source : ImageSource)
  deriving DecidableEq

inductive Block
  | media (block : MediaBlock)
  | thinking (thinking : String) (signature : Option String)
  | toolUse (id name : String) (input : List (String × Json))
  | toolResult (toolUseId : String) (content : List MediaBlock)

/-- A block with its `cache_control` mark. -/
structure ContentBlockParam where
  block : Block
  cacheControl : Bool := false

structure MessageParam where
  role : Role
  content : List ContentBlockParam

def audioOmitted : String := "(audio omitted: not supported by this provider)"

def videoOmitted : String := "(video omitted: not supported by this provider)"

def supportedMediaTypes : List String := ["image/png", "image/jpeg", "image/gif", "image/webp"]

/-- The text before and after the first occurrence of `separator`. -/
def splitFirst (separator : List Char) : List Char → Option (List Char × List Char)
  | [] => none
  | c :: cs =>
    if separator.isPrefixOf (c :: cs) then some ([], (c :: cs).drop separator.length)
    else (splitFirst separator cs).map fun parts => (c :: parts.1, parts.2)

/-- What follows a second separator is left out by `split(';base64,', 2)`. -/
def imageUrlPartToAnthropic (url : String) : Except String ImageSource :=
  if "data:".toList.isPrefixOf url.toList then
    match splitFirst ";base64,".toList (url.toList.drop 5) with
    | none => .error ("Invalid data URL for image: " ++ url)
    | some (before, after) =>
      let mediaType := String.ofList before
      let data := ((splitFirst ";base64,".toList after).map (·.1)).getD after
      if mediaType ∈ supportedMediaTypes then .ok (.base64 (String.ofList data) mediaType)
      else
        .error ("Unsupported media type for base64 image: " ++ mediaType ++ ", url: " ++ url)
  else .ok (.url url)

/-- One part of a tool result. -/
def pushResultPart (blocks : List MediaBlock) : ContentPart → Except String (List MediaBlock)
  | .text text => .ok (if text = "" then blocks else blocks ++ [.text text])
  | .imageUrl image => do
    let source ← imageUrlPartToAnthropic image.url
    return blocks ++ [.image source]
  | .audioUrl _ =>
    .ok (if blocks.getLast? = some (.text audioOmitted) then blocks
      else blocks ++ [.text audioOmitted])
  | .videoUrl _ =>
    .ok (if blocks.getLast? = some (.text videoOmitted) then blocks
      else blocks ++ [.text videoOmitted])
  | .think _ _ => .ok blocks

def toolResultToBlock (toolCallId : String) (content : List ContentPart) : Except String Block := do
  let blocks ← content.foldlM pushResultPart []
  return .toolResult toolCallId blocks

/-- The block is the placeholder itself. -/
def Block.isText (text : String) : Block → Bool
  | .media (.text t) => t = text
  | _ => false

/-- One part of a user or assistant message. -/
def pushPart (preserveUnsigned : Bool) (blocks : List Block) :
    ContentPart → Except String (List Block)
  | .text text => .ok (blocks ++ [.media (.text text)])
  | .imageUrl image => do
    let source ← imageUrlPartToAnthropic image.url
    return blocks ++ [.media (.image source)]
  | .think think (some signature) => .ok (blocks ++ [.thinking think (some signature)])
  | .think think none =>
    .ok (if think ≠ "" ∧ preserveUnsigned then blocks ++ [.thinking think none] else blocks)
  | .audioUrl _ =>
    .ok (if (blocks.getLast?.map (·.isText audioOmitted)).getD false then blocks
      else blocks ++ [.media (.text audioOmitted)])
  | .videoUrl _ =>
    .ok (if (blocks.getLast?.map (·.isText videoOmitted)).getD false then blocks
      else blocks ++ [.media (.text videoOmitted)])

/-- One tool call of a message. -/
def pushToolCall (parse : String → Option Json) (blocks : List Block) (call : ToolCall) :
    Except String (List Block) := do
  let input ← toolCallInput parse call.arguments
  return blocks ++ [.toolUse call.id call.name input]

def convertMessage (parse : String → Option Json) (preserveUnsigned : Bool) (message : Message) :
    Except String (Role × List Block) :=
  match message.role with
  | .system =>
    .ok (.user, [.media (.text ("<system>" ++ message.textLines ++ "</system>"))])
  | .tool =>
    match message.toolCallId with
    | none => .error "Tool message missing \x60toolCallId\x60."
    | some toolCallId => do
      let block ← toolResultToBlock toolCallId message.content
      return (.user, [block])
  | role => do
    let blocks ← message.content.foldlM (pushPart preserveUnsigned) []
    let blocks ← message.toolCalls.foldlM (pushToolCall parse) blocks
    return (role, blocks)

def Block.isToolResult : Block → Bool
  | .toolResult _ _ => true
  | _ => false

def isToolResultOnly (message : Role × List Block) : Bool :=
  message.1 = .user && !message.2.isEmpty && message.2.all (·.isToolResult)

/-- The loop over the history. -/
def appendConverted (parse : String → Option Json) (preserveUnsigned : Bool)
    (messages : List (Role × List Block)) (message : Message) :
    Except String (List (Role × List Block)) := do
  let converted ← convertMessage parse preserveUnsigned message
  match messages.getLast? with
  | some last =>
    if isToolResultOnly last && isToolResultOnly converted then
      return messages.dropLast ++ [(last.1, last.2 ++ converted.2)]
    else return messages ++ [converted]
  | none => return messages ++ [converted]

/-- `CACHEABLE_TYPES.has(block.type)`. -/
def Block.isCacheable : Block → Bool
  | .thinking _ _ => false
  | _ => true

def markLast : List Block → List ContentBlockParam
  | [] => []
  | [block] => [⟨block, block.isCacheable⟩]
  | block :: blocks => ⟨block, false⟩ :: markLast blocks

def injectCacheControlOnLastBlock : List (Role × List Block) → List MessageParam
  | [] => []
  | [message] => [⟨message.1, markLast message.2⟩]
  | message :: messages =>
    ⟨message.1, message.2.map (⟨·, false⟩)⟩ :: injectCacheControlOnLastBlock messages

def toolCallIdPolicy : ToolCallIdPolicy := ⟨fun id => sanitizeToolCallId id (some 64), some 64⟩

/-- The messages of the request that `generate` sends. -/
def requestMessages (parse : String → Option Json) (preserveUnsigned : Bool)
    (history : List Message) : Except String (List MessageParam) := do
  let normalizedHistory ← normalizeToolCallIdsForProvider history toolCallIdPolicy
  let messages ← normalizedHistory.foldlM (appendConverted parse preserveUnsigned) []
  return injectCacheControlOnLastBlock messages

/-! ## What a request should be -/

def Block.isToolUse : Block → Bool
  | .toolUse _ _ _ => true
  | _ => false

/-- The messages of a request without the cache marks. -/
def MessageParam.wire (message : MessageParam) : Role × List Block :=
  (message.role, message.content.map (·.block))

/-- The block of a call. -/
def CalledBy (parse : String → Option Json) (call : ToolCall) (block : Block) : Prop :=
  ∃ input, toolCallInput parse call.arguments = .ok input ∧
    block = .toolUse call.id call.name input

/-- The block of a result. -/
def AnsweredBy (result : Message) (block : Block) : Prop :=
  ∃ id content, result.toolCallId = some id ∧
    result.content.foldlM pushResultPart [] = .ok content ∧ block = .toolResult id content

/-- Every exchange of the history has become two messages: the calls in their order, and all their
results, which occur nowhere else. -/
inductive Answered (parse : String → Option Json) : List Message → List (Role × List Block) → Prop
  | nil : Answered parse [] []
  | message {m : Message} {rest : List Message} {converted : Role × List Block}
      {wires : List (Role × List Block)} : m.role ≠ .tool → ¬m.calls →
      (∀ block ∈ converted.2, block.isToolResult = false) →
      Answered parse rest wires → Answered parse (m :: rest) (converted :: wires)
  | exchange {m : Message} {results rest : List Message} {own answers : List Block}
      {wires : List (Role × List Block)} : m.calls →
      (results.map (·.toolCallId)).Perm (m.toolCalls.map fun call => some call.id) →
      (∀ block ∈ own, block.isToolResult = false) →
      List.Forall₂ (CalledBy parse) m.toolCalls (own.filter (·.isToolUse)) →
      List.Forall₂ AnsweredBy results answers →
      Answered parse rest wires →
      Answered parse (m :: (results ++ rest)) ((.assistant, own) :: (.user, answers) :: wires)

/-- The images of a message can be sent. -/
def ImagesSupported (message : Message) : Prop :=
  ∀ image, .imageUrl image ∈ message.content →
    ∃ source, imageUrlPartToAnthropic image.url = .ok source

/-- Nothing in the message is refused. -/
def Convertible (parse : String → Option Json) (message : Message) : Prop :=
  match message.role with
  | .system => True
  | .tool => ImagesSupported message
  | _ => ImagesSupported message ∧ ∀ call ∈ message.toolCalls, ObjectArguments parse call

/-! ## One message -/

section

variable {parse : String → Option Json} {preserve : Bool} {m : Message} {part : ContentPart}
  {blocks out : List Block} {calls : List ToolCall} {results : List Message}

theorem pushPart_blocks (found : pushPart preserve blocks part = .ok out) :
    ∃ new, out = blocks ++ new ∧
      ∀ block ∈ new, block.isToolResult = false ∧ block.isToolUse = false := by
  have one (block : Block) (plain : block.isToolResult = false ∧ block.isToolUse = false) :
      ∃ new, blocks ++ [block] = blocks ++ new ∧
        ∀ b ∈ new, b.isToolResult = false ∧ b.isToolUse = false :=
    ⟨[block], rfl, fun b mem => List.mem_singleton.1 mem ▸ plain⟩
  have none : ∃ new, blocks = blocks ++ new ∧
      ∀ b ∈ new, b.isToolResult = false ∧ b.isToolUse = false :=
    ⟨[], (List.append_nil _).symm, fun b mem => absurd mem List.not_mem_nil⟩
  cases part with
  | text =>
    cases found
    exact one _ ⟨rfl, rfl⟩
  | imageUrl =>
    obtain ⟨source, -, same⟩ := except_bind_eq_ok.1 found
    cases same
    exact one _ ⟨rfl, rfl⟩
  | think think encrypted =>
    cases encrypted with
    | some =>
      cases found
      exact one _ ⟨rfl, rfl⟩
    | none =>
      cases found
      split
      · exact one _ ⟨rfl, rfl⟩
      · exact none
  | audioUrl | videoUrl =>
    cases found
    split
    · exact none
    · exact one _ ⟨rfl, rfl⟩

theorem foldlM_pushPart_blocks {content : List ContentPart}
    (found : content.foldlM (pushPart preserve) blocks = .ok out) :
    ∃ new, out = blocks ++ new ∧
      ∀ block ∈ new, block.isToolResult = false ∧ block.isToolUse = false := by
  induction content generalizing blocks with
  | nil =>
    cases found
    exact ⟨[], (List.append_nil _).symm, fun b mem => absurd mem List.not_mem_nil⟩
  | cons part content ih =>
    obtain ⟨next, first, rest⟩ := foldlM_cons_eq_ok.1 found
    obtain ⟨new, rfl, plain⟩ := pushPart_blocks first
    obtain ⟨new', rfl, plain'⟩ := ih rest
    refine ⟨new ++ new', List.append_assoc _ _ _, fun block mem => ?_⟩
    rcases List.mem_append.1 mem with mem | mem
    · exact plain block mem
    · exact plain' block mem

theorem foldlM_pushToolCall_blocks (found : calls.foldlM (pushToolCall parse) blocks = .ok out) :
    ∃ uses, out = blocks ++ uses ∧ List.Forall₂ (CalledBy parse) calls uses := by
  induction calls generalizing blocks with
  | nil =>
    cases found
    exact ⟨[], (List.append_nil _).symm, .nil⟩
  | cons call calls ih =>
    obtain ⟨next, first, rest⟩ := foldlM_cons_eq_ok.1 found
    obtain ⟨input, parsed, same⟩ := except_bind_eq_ok.1 first
    cases same
    obtain ⟨uses, rfl, called⟩ := ih rest
    exact ⟨_ :: uses, List.append_assoc _ _ _, .cons ⟨input, parsed, rfl⟩ called⟩

theorem CalledBy.kinds {call : ToolCall} {block : Block} (called : CalledBy parse call block) :
    block.isToolResult = false ∧ block.isToolUse = true := by
  obtain ⟨input, -, rfl⟩ := called
  exact ⟨rfl, rfl⟩

theorem AnsweredBy.kind {result : Message} {block : Block} (answered : AnsweredBy result block) :
    block.isToolResult = true := by
  obtain ⟨id, content, -, -, rfl⟩ := answered
  rfl

/-- A message that is no tool message becomes one whose blocks are not results, with a block for
each of an assistant's calls. -/
theorem convertMessage_plain {converted : Role × List Block} (notTool : m.role ≠ .tool)
    (found : convertMessage parse preserve m = .ok converted) :
    (∀ block ∈ converted.2, block.isToolResult = false) ∧
      (m.role = .assistant → converted.1 = .assistant ∧
        List.Forall₂ (CalledBy parse) m.toolCalls (converted.2.filter (·.isToolUse))) := by
  unfold convertMessage at found
  split at found
  case h_1 system =>
    cases found
    refine ⟨fun block mem => ?_, fun assistant => ?_⟩
    · rw [List.mem_singleton.1 mem]
      rfl
    · exact absurd (system.symm.trans assistant) (by decide)
  case h_2 tool => exact absurd tool notTool
  case h_3 =>
    obtain ⟨content, parts, found⟩ := except_bind_eq_ok.1 found
    obtain ⟨blocks, calls, same⟩ := except_bind_eq_ok.1 found
    cases same
    obtain ⟨_, rfl, plain⟩ := foldlM_pushPart_blocks parts
    obtain ⟨uses, rfl, called⟩ := foldlM_pushToolCall_blocks calls
    have use : ∀ block ∈ uses, block.isToolResult = false ∧ block.isToolUse = true := by
      intro block mem
      obtain ⟨call, -, called⟩ := forall₂_exists_left called mem
      exact called.kinds
    refine ⟨fun block mem => ?_, fun assistant => ⟨assistant, ?_⟩⟩
    · rcases List.mem_append.1 mem with mem | mem
      · exact (plain block mem).1
      · exact (use block mem).1
    · have none : content.filter (·.isToolUse) = [] :=
        List.filter_eq_nil_iff.2 fun block mem => Bool.eq_false_iff.1 (plain block mem).2
      have all : uses.filter (·.isToolUse) = uses :=
        List.filter_eq_self.2 fun block mem => (use block mem).2
      rw [List.filter_append, none, all, List.nil_append]
      exact called

theorem convertMessage_tool {converted : Role × List Block} (tool : m.role = .tool)
    (found : convertMessage parse preserve m = .ok converted) :
    ∃ block, converted = (.user, [block]) ∧ AnsweredBy m block := by
  unfold convertMessage at found
  rw [tool] at found
  dsimp only at found
  split at found
  case h_1 => cases found
  case h_2 id given =>
    obtain ⟨block, result, same⟩ := except_bind_eq_ok.1 found
    cases same
    obtain ⟨content, blocks, same⟩ := except_bind_eq_ok.1 result
    cases same
    exact ⟨_, rfl, id, content, given, blocks, rfl⟩

/-- The part is no image, or one that can be sent. -/
def Supported (part : ContentPart) : Prop :=
  ∀ image, part = .imageUrl image → ∃ source, imageUrlPartToAnthropic image.url = .ok source

theorem imagesSupported_iff :
    ImagesSupported m ↔ ∀ part ∈ m.content, Supported part :=
  ⟨fun all _ mem image same => all image (same ▸ mem), fun all image mem => all _ mem image rfl⟩

theorem pushResultPart_iff (part : ContentPart) (blocks : List MediaBlock) :
    (∃ next, pushResultPart blocks part = .ok next) ↔ Supported part := by
  cases part with
  | imageUrl image =>
    rw [pushResultPart, exists_bind_pure_iff]
    exact ⟨fun found _ same => ContentPart.imageUrl.inj same ▸ found, fun all => all image rfl⟩
  | text | think | audioUrl | videoUrl =>
    exact ⟨fun _ _ other => (nomatch other), fun _ => ⟨_, rfl⟩⟩

theorem pushPart_iff (part : ContentPart) (blocks : List Block) :
    (∃ next, pushPart preserve blocks part = .ok next) ↔ Supported part := by
  cases part with
  | imageUrl image =>
    rw [pushPart, exists_bind_pure_iff]
    exact ⟨fun found _ same => ContentPart.imageUrl.inj same ▸ found, fun all => all image rfl⟩
  | think think encrypted =>
    cases encrypted <;> exact ⟨fun _ _ other => (nomatch other), fun _ => ⟨_, rfl⟩⟩
  | text | audioUrl | videoUrl => exact ⟨fun _ _ other => (nomatch other), fun _ => ⟨_, rfl⟩⟩

theorem pushToolCall_iff (call : ToolCall) (blocks : List Block) :
    (∃ next, pushToolCall parse blocks call = .ok next) ↔ ObjectArguments parse call := by
  rw [pushToolCall, exists_bind_pure_iff, exists_toolCallInput_iff]

theorem exists_convertMessage_iff (result : m.role = .tool → ∃ id, m.toolCallId = some id) :
    (∃ converted, convertMessage parse preserve m = .ok converted) ↔ Convertible parse m := by
  unfold convertMessage Convertible
  rw [imagesSupported_iff]
  split
  case h_1 => exact ⟨fun _ => trivial, fun _ => ⟨_, rfl⟩⟩
  case h_2 tool =>
    obtain ⟨id, given⟩ := result tool
    rw [given]
    rw [exists_bind_pure_iff, toolResultToBlock, exists_bind_pure_iff,
      exists_foldlM_iff fun part _ => pushResultPart_iff part]
  case h_3 =>
    constructor
    · rintro ⟨converted, found⟩
      obtain ⟨content, parts, found⟩ := except_bind_eq_ok.1 found
      obtain ⟨blocks, calls, -⟩ := except_bind_eq_ok.1 found
      exact ⟨(exists_foldlM_iff (fun part _ => pushPart_iff part) []).1 ⟨_, parts⟩,
        (exists_foldlM_iff (fun call _ => pushToolCall_iff call) content).1 ⟨_, calls⟩⟩
    · rintro ⟨images, objects⟩
      obtain ⟨content, parts⟩ := (exists_foldlM_iff (fun part _ => pushPart_iff part) []).2 images
      obtain ⟨blocks, calls⟩ :=
        (exists_foldlM_iff (fun call _ => pushToolCall_iff call) content).2 objects
      exact ⟨_, except_bind_eq_ok.2 ⟨content, parts, except_bind_eq_ok.2 ⟨blocks, calls, rfl⟩⟩⟩

theorem isToolResultOnly_eq_false {message : Role × List Block}
    (none : ∀ block ∈ message.2, block.isToolResult = false) :
    isToolResultOnly message = false := by
  rw [isToolResultOnly, Bool.and_eq_false_iff, Bool.and_eq_false_iff]
  rcases blocks : message.2 with - | ⟨block, blocks⟩
  · exact .inl (.inr rfl)
  · refine .inr (List.all_eq_false.2 ⟨block, List.mem_cons_self, ?_⟩)
    rw [none block (blocks ▸ List.mem_cons_self)]
    exact Bool.false_ne_true

theorem isToolResultOnly_user {blocks : List Block} (nonempty : blocks ≠ [])
    (all : ∀ block ∈ blocks, block.isToolResult = true) :
    isToolResultOnly (.user, blocks) = true := by
  obtain ⟨block, rest, rfl⟩ := List.exists_cons_of_ne_nil nonempty
  rw [isToolResultOnly, List.all_eq_true.2 all]
  rfl

/-! ## The loop -/

variable {messages next : List (Role × List Block)}

theorem appendConverted_plain (notTool : m.role ≠ .tool)
    (found : appendConverted parse preserve messages m = .ok next) :
    ∃ converted, convertMessage parse preserve m = .ok converted ∧
      next = messages ++ [converted] := by
  obtain ⟨converted, convert, found⟩ := except_bind_eq_ok.1 found
  refine ⟨converted, convert, ?_⟩
  have notOnly := isToolResultOnly_eq_false (convertMessage_plain notTool convert).1
  split at found
  · rw [notOnly, Bool.and_false, if_neg Bool.false_ne_true] at found
    exact (Except.ok.inj found).symm
  · exact (Except.ok.inj found).symm

/-- A tool message after a message without results begins a new one, and is merged into a message of
results only. -/
theorem appendConverted_tool {last : Role × List Block} (tool : m.role = .tool)
    (found : appendConverted parse preserve (messages ++ [last]) m = .ok next) :
    ∃ block, AnsweredBy m block ∧
      next = if isToolResultOnly last then messages ++ [(last.1, last.2 ++ [block])]
        else messages ++ [last] ++ [(.user, [block])] := by
  obtain ⟨converted, convert, found⟩ := except_bind_eq_ok.1 found
  obtain ⟨block, rfl, answered⟩ := convertMessage_tool tool convert
  refine ⟨block, answered, ?_⟩
  have only : isToolResultOnly (.user, [block]) = true :=
    isToolResultOnly_user (List.cons_ne_nil _ _) fun b mem =>
      List.mem_singleton.1 mem ▸ answered.kind
  rw [List.getLast?_concat] at found
  dsimp only at found
  rw [only, Bool.and_true, List.dropLast_concat] at found
  split at found
  case isTrue merge =>
    rw [if_pos merge]
    exact (Except.ok.inj found).symm
  case isFalse apart =>
    rw [if_neg apart]
    exact (Except.ok.inj found).symm

theorem foldlM_merge {answers : List Block} (tool : ∀ result ∈ results, result.role = .tool)
    (nonempty : answers ≠ []) (all : ∀ block ∈ answers, block.isToolResult = true)
    (found : results.foldlM (appendConverted parse preserve) (messages ++ [(.user, answers)]) =
      .ok next) :
    ∃ more, next = messages ++ [(.user, answers ++ more)] ∧
      List.Forall₂ AnsweredBy results more := by
  induction results generalizing answers with
  | nil =>
    cases found
    exact ⟨[], by rw [List.append_nil], .nil⟩
  | cons result results ih =>
    obtain ⟨mid, first, rest⟩ := foldlM_cons_eq_ok.1 found
    obtain ⟨block, answered, same⟩ := appendConverted_tool (tool result List.mem_cons_self) first
    rw [isToolResultOnly_user nonempty all, if_pos rfl] at same
    cases same
    obtain ⟨more, rfl, related⟩ := ih (fun r mem => tool r (List.mem_cons_of_mem _ mem))
      (List.append_ne_nil_of_left_ne_nil nonempty _)
      (fun b mem => (List.mem_append.1 mem).elim (all b) fun new =>
        List.mem_singleton.1 new ▸ answered.kind) rest
    exact ⟨block :: more, by rw [List.append_assoc]; rfl, .cons answered related⟩

theorem foldlM_results {last : Role × List Block} (notOnly : isToolResultOnly last = false)
    (nonempty : results ≠ []) (tool : ∀ result ∈ results, result.role = .tool)
    (found : results.foldlM (appendConverted parse preserve) (messages ++ [last]) = .ok next) :
    ∃ answers, next = messages ++ [last, (.user, answers)] ∧
      List.Forall₂ AnsweredBy results answers := by
  obtain ⟨result, results, rfl⟩ := List.exists_cons_of_ne_nil nonempty
  obtain ⟨mid, first, rest⟩ := foldlM_cons_eq_ok.1 found
  obtain ⟨block, answered, same⟩ := appendConverted_tool (tool result List.mem_cons_self) first
  rw [notOnly, if_neg Bool.false_ne_true] at same
  cases same
  obtain ⟨more, rfl, related⟩ := foldlM_merge (fun r mem => tool r (List.mem_cons_of_mem _ mem))
    (List.cons_ne_nil block [])
    (fun b mem => List.mem_singleton.1 mem ▸ answered.kind) rest
  exact ⟨block :: more, by rw [List.append_assoc]; rfl, .cons answered related⟩

theorem foldlM_answered {history : List Message} (complete : CompleteExchanges history)
    (found : history.foldlM (appendConverted parse preserve) messages = .ok next) :
    ∃ wires, next = messages ++ wires ∧ Answered parse history wires := by
  induction complete generalizing messages with
  | nil =>
    cases found
    exact ⟨[], (List.append_nil _).symm, .nil⟩
  | message notTool none rest ih =>
    obtain ⟨mid, first, found⟩ := foldlM_cons_eq_ok.1 found
    obtain ⟨converted, convert, rfl⟩ := appendConverted_plain notTool first
    obtain ⟨wires, rfl, answered⟩ := ih found
    exact ⟨converted :: wires, List.append_assoc _ _ _,
      .message notTool none (convertMessage_plain notTool convert).1 answered⟩
  | @exchange m results rest calls tool each others ih =>
    have notTool : m.role ≠ .tool := fun tool => absurd (calls.1.symm.trans tool) (by decide)
    have nonempty : results ≠ [] := by
      rintro rfl
      exact calls.2 (List.map_eq_nil_iff.1 (List.nil_perm.1 each))
    obtain ⟨mid, first, found⟩ := foldlM_cons_eq_ok.1 found
    obtain ⟨⟨role, own⟩, convert, rfl⟩ := appendConverted_plain notTool first
    obtain ⟨plain, called⟩ := convertMessage_plain notTool convert
    obtain ⟨rfl, called⟩ := called calls.1
    rw [List.foldlM_append] at found
    obtain ⟨mid, gather, found⟩ := except_bind_eq_ok.1 found
    obtain ⟨answers, rfl, answer⟩ :=
      foldlM_results (isToolResultOnly_eq_false plain) nonempty tool gather
    obtain ⟨wires, rfl, answered⟩ := ih found
    exact ⟨_ :: _ :: wires, List.append_assoc _ _ _,
      .exchange calls each plain called answer answered⟩

end

/-! ## A whole request -/

theorem markLast_block (blocks : List Block) : (markLast blocks).map (·.block) = blocks := by
  fun_induction markLast blocks with
  | case1 => rfl
  | case2 block => rfl
  | case3 block blocks more ih => exact congrArg (block :: ·) ih

theorem injectCacheControlOnLastBlock_wire (messages : List (Role × List Block)) :
    (injectCacheControlOnLastBlock messages).map MessageParam.wire = messages := by
  fun_induction injectCacheControlOnLastBlock messages with
  | case1 => rfl
  | case2 message => exact congrArg (fun blocks => [(message.1, blocks)]) (markLast_block _)
  | case3 message messages more ih =>
    have own : (message.2.map fun block => (⟨block, false⟩ : ContentBlockParam)).map (·.block) =
        message.2 := by
      rw [List.map_map]
      exact List.map_id _
    rw [List.map_cons, ih, MessageParam.wire, own]

theorem toolCallIdPolicy_sanitizes : toolCallIdPolicy.Sanitizes :=
  @sanitizes_of_sanitizeToolCallId _ id fun _ => sanitizeToolCallId_accepted

section

variable {parse : String → Option Json} {preserve : Bool} {history : List Message}

theorem exists_appendConverted_iff {m : Message} (messages : List (Role × List Block)) :
    (∃ next, appendConverted parse preserve messages m = .ok next) ↔
      ∃ converted, convertMessage parse preserve m = .ok converted := by
  constructor
  · rintro ⟨next, found⟩
    obtain ⟨converted, convert, -⟩ := except_bind_eq_ok.1 found
    exact ⟨converted, convert⟩
  · rintro ⟨converted, convert⟩
    rw [appendConverted, convert]
    dsimp only [bind, Except.bind]
    split
    · split <;> exact ⟨_, rfl⟩
    · exact ⟨_, rfl⟩

theorem convertible_rename (rename : String → String) (m : Message) :
    Convertible parse (m.renameToolCallIds rename) ↔ Convertible parse m := by
  unfold Convertible Message.renameToolCallIds ImagesSupported ObjectArguments
  dsimp only
  split
  · exact Iff.rfl
  · exact Iff.rfl
  · exact and_congr_right fun _ => List.forall_mem_map

theorem toolCallId_of_complete (complete : CompleteExchanges history) {m : Message}
    (mem : m ∈ history) (tool : m.role = .tool) : ∃ id, m.toolCallId = some id := by
  induction complete with
  | nil => exact absurd mem List.not_mem_nil
  | message notTool _ _ ih =>
    rcases List.mem_cons.1 mem with rfl | mem
    · exact absurd tool notTool
    · exact ih mem
  | exchange calls _ each _ ih =>
    rcases List.mem_cons.1 mem with rfl | mem
    · exact absurd (calls.1.symm.trans tool) (by decide)
    · rcases List.mem_append.1 mem with mem | mem
      · obtain ⟨call, -, same⟩ := List.mem_map.1 (each.subset (List.mem_map_of_mem mem))
        exact ⟨call.id, same.symm⟩
      · exact ih mem

theorem complete_rename (rename : String → String) (complete : CompleteExchanges history) :
    CompleteExchanges (history.map (Message.renameToolCallIds rename)) := by
  have calls_iff (m : Message) : (m.renameToolCallIds rename).calls ↔ m.calls := by
    unfold Message.calls Message.renameToolCallIds
    exact and_congr_right fun _ => not_congr List.map_eq_nil_iff
  induction complete with
  | nil => exact .nil
  | @message m _ notTool none _ ih => exact .message notTool ((calls_iff m).not.2 none) ih
  | @exchange m results rest calls tool each _ ih =>
    rw [List.map_cons, List.map_append]
    refine .exchange ((calls_iff m).2 calls) (List.forall_mem_map.2 tool) ?_ ih
    have renamed := each.map (Option.map rename)
    rw [List.map_map, List.map_map] at renamed
    rw [List.map_map, Message.renameToolCallIds, List.map_map]
    exact renamed

/-- A request can be built just if nothing in the history is refused. -/
theorem exists_requestMessages_iff (complete : CompleteExchanges history)
    (fits : FitsSuffix (some 64) ((collectToolCallIds history).length + 1)) :
    (∃ out, requestMessages parse preserve history = .ok out) ↔
      ∀ m ∈ history, Convertible parse m := by
  obtain ⟨returns, results⟩ :=
    normalizeToolCallIdsForProvider_spec toolCallIdPolicy_sanitizes history
  obtain ⟨normalized, found⟩ := returns fits
  obtain ⟨-, rename, rfl, -, -, -⟩ := results normalized found
  have renamed := complete_rename rename complete
  have loop_iff : (∃ messages, (history.map (Message.renameToolCallIds rename)).foldlM
      (appendConverted parse preserve) [] = .ok messages) ↔ ∀ m ∈ history, Convertible parse m := by
    have each : ∀ m ∈ history.map (Message.renameToolCallIds rename), ∀ messages,
        (∃ next, appendConverted parse preserve messages m = .ok next) ↔ Convertible parse m := by
      intro m mem messages
      rw [exists_appendConverted_iff]
      exact exists_convertMessage_iff (toolCallId_of_complete renamed mem)
    rw [exists_foldlM_iff each, List.forall_mem_map]
    exact forall₂_congr fun m _ => convertible_rename rename m
  rw [← loop_iff, requestMessages, found]
  exact exists_bind_pure_iff

/-- Every request that is built has all exchanges intact. -/
theorem requestMessages_answered (complete : CompleteExchanges history) {out : List MessageParam}
    (found : requestMessages parse preserve history = .ok out) :
    ∃ rename : String → String, Set.InjOn rename (toolCallIdsOf history) ∧
      Answered parse (history.map (Message.renameToolCallIds rename))
        (out.map MessageParam.wire) := by
  obtain ⟨normalized, normalize, found⟩ := except_bind_eq_ok.1 found
  obtain ⟨-, results⟩ := normalizeToolCallIdsForProvider_spec toolCallIdPolicy_sanitizes history
  obtain ⟨-, rename, rfl, injOn, -, -⟩ := results normalized normalize
  obtain ⟨messages, loop, same⟩ := except_bind_eq_ok.1 found
  cases same
  obtain ⟨wires, rfl, answered⟩ := foldlM_answered (complete_rename rename complete) loop
  refine ⟨rename, injOn, ?_⟩
  rw [injectCacheControlOnLastBlock_wire]
  exact answered

end

/-- For a history of complete exchanges a request is built unless an image cannot be sent or the
arguments of a call are neither empty nor an object, and in every request each assistant message has
its calls in their order, all their results follow in one message, and there are no others. -/
theorem requestMessages_law (parse : String → Option Json) (preserve : Bool)
    (history : List Message) (complete : CompleteExchanges history)
    (fits : FitsSuffix (some 64) ((collectToolCallIds history).length + 1)) :
    ((∃ out, requestMessages parse preserve history = .ok out) ↔
      ∀ m ∈ history, Convertible parse m) ∧
    ∀ out, requestMessages parse preserve history = .ok out →
      ∃ rename : String → String, Set.InjOn rename (toolCallIdsOf history) ∧
        Answered parse (history.map (Message.renameToolCallIds rename))
          (out.map MessageParam.wire) :=
  ⟨exists_requestMessages_iff complete fits, fun _ => requestMessages_answered complete⟩

theorem exchangeOf_images (arguments : String) :
    ∀ m ∈ exchangeOf arguments, ImagesSupported m := by
  intro m mem image inside
  rcases List.mem_cons.1 mem with rfl | mem
  · exact absurd inside List.not_mem_nil
  · cases List.mem_singleton.1 mem
    cases List.mem_singleton.1 inside

theorem exchangeOf_fits (arguments : String) :
    FitsSuffix (some 64) ((collectToolCallIds (exchangeOf arguments)).length + 1) := by
  intro n mem
  cases mem
  show (toolCallIdSuffix 2).length < 64
  decide

/-- A call whose arguments are an array keeps every later request from being built. -/
theorem arrayArguments_refused :
    ¬∀ (parse : String → Option Json) (preserve : Bool) (history : List Message),
      CompleteExchanges history → (∀ m ∈ history, ImagesSupported m) →
      FitsSuffix (some 64) ((collectToolCallIds history).length + 1) →
      ∃ out, requestMessages parse preserve history = .ok out := by
  intro all
  have sent := (exists_requestMessages_iff (exchangeOf_complete "[]") (exchangeOf_fits "[]")).1
    (all parseEmptyArray true _ (exchangeOf_complete "[]") (exchangeOf_images "[]")
      (exchangeOf_fits "[]"))
  obtain ⟨-, objects⟩ := sent _ List.mem_cons_self
  obtain ⟨members, parsed⟩ := objects _ List.mem_cons_self "[]" rfl (by decide)
  rw [parseEmptyArray, if_pos rfl] at parsed
  cases parsed

theorem twoCalls_fits : FitsSuffix (some 64) ((collectToolCallIds twoCalls).length + 1) := by
  intro n mem
  cases mem
  show (toolCallIdSuffix 3).length < 64
  decide

theorem twoCalls_images : ∀ m ∈ twoCalls, ImagesSupported m := by
  intro m mem image inside
  simp only [twoCalls, List.mem_cons, List.not_mem_nil, or_false] at mem
  rcases mem with rfl | rfl | rfl | rfl
  · cases List.mem_singleton.1 inside
  · cases inside
  · cases List.mem_singleton.1 inside
  · cases List.mem_singleton.1 inside

/-- Both results are sent after both calls, although they come in the other order. -/
theorem twoCalls_sent :
    ∃ out, requestMessages parseReads true twoCalls = .ok out ∧
      ∃ rename : String → String, Set.InjOn rename (toolCallIdsOf twoCalls) ∧
        Answered parseReads (twoCalls.map (Message.renameToolCallIds rename))
          (out.map MessageParam.wire) := by
  obtain ⟨builds, law⟩ := requestMessages_law parseReads true twoCalls twoCalls_complete
    twoCalls_fits
  have convertible : ∀ m ∈ twoCalls, Convertible parseReads m := by
    intro m mem
    have images := twoCalls_images m mem
    have objects := twoCalls_objects m mem
    unfold Convertible
    split
    case h_1 => trivial
    case h_2 => exact images
    case h_3 => exact ⟨images, objects⟩
  obtain ⟨out, found⟩ := builds.2 convertible
  exact ⟨out, found, law out found⟩

end Anthropic

end KimiCli
