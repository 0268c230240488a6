import KimiCli.Js.Json
import Mathlib.Data.Int.Notation

/-!
# Messages and streamed parts

`kosong/src/message.ts`: the message type of the whole program, the parts a provider stream yields,
and `mergeInPlace`, which merges a part into the one before it.  An optional field is an `Option`;
so is a field of type `string | null`.
-/

namespace KimiCli

inductive Role
  | system | user | assistant | tool
  deriving DecidableEq

structure MediaUrl where
  url : String
  id : Option String
  deriving DecidableEq

inductive ContentPart
  | text (text : String)
  /-- `encrypted` is a provider-specific reasoning signature. -/
  | think (think : String) (encrypted : Option String)
  | imageUrl (imageUrl : MediaUrl)
  | audioUrl (audioUrl : MediaUrl)
  | videoUrl (videoUrl : MediaUrl)
  deriving DecidableEq

/-- The routing key of a streamed tool call: OpenAI's `index` or the Responses API's `item_id`. -/
inductive StreamIndex
  | number (value : ℤ)
  | string (value : String)
  deriving DecidableEq

structure ToolCall where
  id : String
  name : String
  arguments : Option String
  extras : Option Json := none
  streamIndex : Option StreamIndex := none

structure Message where
  role : Role
  name : Option String := none
  content : List ContentPart
  toolCalls : List ToolCall
  toolCallId : Option String := none
  partialMessage : Option Bool := none

inductive StreamedMessagePart
  | content (part : ContentPart)
  | toolCall (call : ToolCall)
  | toolCallPart (argumentsPart : Option String) (index : Option StreamIndex)

/-- Appending an argument delta: `null` adds nothing, and anything replaces `null`. -/
def appendArguments : Option String → Option String → Option String
  | arguments, none => arguments
  | none, some delta => some delta
  | some arguments, some delta => some (arguments ++ delta)

/-- `mergeInPlace`: the merged target, or `none` where the source returns `false`. -/
def mergeInPlace : StreamedMessagePart → StreamedMessagePart → Option StreamedMessagePart
  | .content (.text target), .content (.text source) => some (.content (.text (target ++ source)))
  | .content (.think target none), .content (.think source encrypted) =>
    some (.content (.think (target ++ source) encrypted))
  | .toolCall target, .toolCallPart argumentsPart _ =>
    some (.toolCall { target with arguments := appendArguments target.arguments argumentsPart })
  | _, _ => none

/-- `createToolMessage`; the output is a text or a list of content parts. -/
def createToolMessage (toolCallId : String) (output : String ⊕ List ContentPart) : Message where
  role := .tool
  content := match output with
    | .inl text => [.text text]
    | .inr parts => parts
  toolCalls := []
  toolCallId := some toolCallId

/-- `createUserMessage`. -/
def createUserMessage (content : String) : Message where
  role := .user
  content := [.text content]
  toolCalls := []

/-! ### Argument deltas -/

/-- A sequence of deltas, joined from the left; `none` when all of them are `null`. -/
def joinArguments (parts : List (Option String)) : Option String :=
  parts.foldl appendArguments none

@[simp] theorem appendArguments_none_right (a : Option String) : appendArguments a none = a := by
  cases a <;> rfl

@[simp] theorem appendArguments_none_left (a : Option String) : appendArguments none a = a := by
  cases a <;> rfl

@[simp] theorem joinArguments_nil : joinArguments [] = none := rfl

theorem joinArguments_concat (parts : List (Option String)) (delta : Option String) :
    joinArguments (parts ++ [delta]) = appendArguments (joinArguments parts) delta := by
  simp [joinArguments]

end KimiCli
