import KimiCli.Js.Text
import KimiCli.Kosong.Message
import Mathlib.Data.List.Pairwise
import Mathlib.Logic.Function.Basic
import Mathlib.Tactic

/-!
# Assembling a streamed message

`kosong/src/generate.ts`: the loop that merges the parts of a provider stream into one assistant
message.  It keeps one pending part, the message flushed so far, and a map from stream indexes to
positions in `message.toolCalls` that routes the argument deltas of parallel calls.

The stream is given as the list of its parts.  The abort checks between the parts are left out: all
they do is to end the call with an `AbortError`.
-/

namespace KimiCli

/-- The assembly state of `generate`: its local variables. -/
structure Assembly where
  message : Message
  pendingPart : Option StreamedMessagePart
  toolCallIndexMap : StreamIndex → Option ℕ

namespace Assembly

def init : Assembly where
  message := { role := .assistant, content := [], toolCalls := [] }
  pendingPart := none
  toolCallIndexMap := fun _ => none

/-- `isPendingToolCallAtIndex`. -/
def isPendingToolCallAtIndex (pending : Option StreamedMessagePart) (index : StreamIndex) : Bool :=
  match pending with
  | some (.toolCall call) => call.streamIndex = some index
  | _ => false

/-- `flushPart`: append a fully merged part to the message. -/
def flushPart (a : Assembly) : StreamedMessagePart → Assembly
  | .content part => { a with message := { a.message with content := a.message.content ++ [part] } }
  | .toolCall call =>
    let ordinal := a.message.toolCalls.length
    { a with
      message := { a.message with
        toolCalls := a.message.toolCalls ++ [{ call with streamIndex := none }] }
      toolCallIndexMap := match call.streamIndex with
        | some index => Function.update a.toolCallIndexMap index (some ordinal)
        | none => a.toolCallIndexMap }
  -- An orphaned delta is dropped.
  | .toolCallPart _ _ => a

/-- The sequential logic of the loop: merge into the pending part, or flush it and start anew. -/
def mergeOrFlush (a : Assembly) (part : StreamedMessagePart) : Assembly :=
  match a.pendingPart with
  | none => { a with pendingPart := some part }
  | some pending =>
    match mergeInPlace pending part with
    | some merged => { a with pendingPart := some merged }
    | none => { a.flushPart pending with pendingPart := some part }

/-- Append a delta to the flushed tool call at `position`. -/
def appendAt (a : Assembly) (position : ℕ) (argumentsPart : Option String) : Assembly :=
  { a with
    message := { a.message with
      toolCalls := a.message.toolCalls.modify position fun target =>
        { target with arguments := appendArguments target.arguments argumentsPart } } }

/-- The body of the loop. -/
def feed (a : Assembly) (part : StreamedMessagePart) : Assembly :=
  match part with
  | .toolCallPart argumentsPart (some index) =>
    if isPendingToolCallAtIndex a.pendingPart index then a.mergeOrFlush part
    else
      match a.toolCallIndexMap index with
      | some position => a.appendAt position argumentsPart
      | none => a.mergeOrFlush part
  | part => a.mergeOrFlush part

/-- The flush of the last pending part after the stream has ended. -/
def close (a : Assembly) : Assembly :=
  match a.pendingPart with
  | some pending => { a.flushPart pending with pendingPart := none }
  | none => a

end Assembly

/-! ### The result of `generate` -/

inductive FinishReason
  | completed | tool_calls | truncated | filtered | paused | other
  deriving DecidableEq

structure TokenUsage where
  inputOther : ℕ
  output : ℕ
  inputCacheRead : ℕ
  inputCacheCreation : ℕ

/-- What a provider's `generate` resolves to, with the parts its iterator yields. -/
structure StreamedMessage where
  parts : List StreamedMessagePart
  id : Option String
  usage : Option TokenUsage
  finishReason : Option FinishReason
  rawFinishReason : Option String

structure GenerateResult where
  id : Option String
  message : Message
  usage : Option TokenUsage
  finishReason : Option FinishReason
  rawFinishReason : Option String

structure APIEmptyResponseError where
  message : String
  finishReason : Option FinishReason
  rawFinishReason : Option String

def FinishReason.toString : FinishReason → String
  | .completed => "completed"
  | .tool_calls => "tool_calls"
  | .truncated => "truncated"
  | .filtered => "filtered"
  | .paused => "paused"
  | .other => "other"

def formatFinishReasonHint (stream : StreamedMessage) : String :=
  if stream.finishReason = none ∧ stream.rawFinishReason = none then ""
  else
    let raw := match stream.rawFinishReason with
      | none => ""
      | some reason => ", rawFinishReason=" ++ reason
    let filteredHint :=
      if stream.finishReason = some .filtered then
        " The provider filtered the response before visible output was emitted."
      else ""
    " Provider stop details: finishReason=" ++
      (stream.finishReason.elim "unknown" FinishReason.toString) ++ raw ++ "." ++ filteredHint

def ContentPart.isThink : ContentPart → Bool
  | .think _ _ => true
  | _ => false

/-- A text part with something to read. -/
def ContentPart.isVisibleText : ContentPart → Bool
  | .text value => 0 < (trim value).length
  | _ => false

def emptyResponseText : String := "The API returned an empty response (no content, no tool calls)."

def thinkOnlyResponseText : String :=
  "The API returned a response containing only thinking content " ++
    "without any text or tool calls. This usually indicates the " ++
    "stream was interrupted or the output token budget was exhausted " ++ "during reasoning."

/-- `generate` once the provider has answered: assemble the parts, reject an empty or think-only
message. -/
def generate (providerName modelName : String) (stream : StreamedMessage) :
    Except APIEmptyResponseError GenerateResult :=
  let message := (stream.parts.foldl Assembly.feed .init).close.message
  let reject (text : String) : APIEmptyResponseError :=
    { message := text ++ formatFinishReasonHint stream ++ " Provider: " ++ providerName ++
        ", model: " ++ modelName
      finishReason := stream.finishReason
      rawFinishReason := stream.rawFinishReason }
  if message.content.length = 0 ∧ message.toolCalls.length = 0 then
    .error (reject emptyResponseText)
  else if message.content.any (·.isThink) && !message.content.any (·.isVisibleText) &&
      !decide (message.toolCalls.length > 0) then .error (reject thinkOnlyResponseText)
  else
    .ok
      { id := stream.id
        message
        usage := stream.usage
        finishReason := stream.finishReason
        rawFinishReason := stream.rawFinishReason }

/-- A message that `generate` does not return: no tool call, and no content or only thinking. -/
def Message.isEmptyResponse (message : Message) : Prop :=
  message.toolCalls = [] ∧ (message.content = [] ∨
    message.content.any (·.isThink) = true ∧ message.content.any (·.isVisibleText) = false)

variable (providerName modelName : String) {stream : StreamedMessage} {message : Message}

theorem generate_of_isEmptyResponse
    (assembled : (stream.parts.foldl Assembly.feed .init).close.message = message)
    (empty : message.isEmptyResponse) :
    ∃ error, generate providerName modelName stream = .error error := by
  obtain ⟨noCalls, noContent | ⟨think, invisible⟩⟩ := empty
  · simp [generate, assembled, noCalls, noContent]
  · by_cases noContent : message.content = []
    · simp [generate, assembled, noCalls, noContent]
    · simp [generate, assembled, noCalls, noContent, think, invisible]

theorem generate_of_not_isEmptyResponse
    (assembled : (stream.parts.foldl Assembly.feed .init).close.message = message)
    (nonempty : ¬ message.isEmptyResponse) :
    ∃ result, generate providerName modelName stream = .ok result ∧ result.message = message := by
  have noThrow₁ : ¬ (message.content.length = 0 ∧ message.toolCalls.length = 0) := by
    rw [List.length_eq_zero_iff, List.length_eq_zero_iff]
    exact fun ⟨noContent, noCalls⟩ => nonempty ⟨noCalls, .inl noContent⟩
  have noThrow₂ : ¬ (message.content.any (·.isThink) && !message.content.any (·.isVisibleText) &&
      !decide (message.toolCalls.length > 0)) = true := by
    simp only [Bool.and_eq_true, Bool.not_eq_true', decide_eq_false_iff_not, not_lt,
      Nat.le_zero, List.length_eq_zero_iff]
    exact fun ⟨⟨think, invisible⟩, noCalls⟩ => nonempty ⟨noCalls, .inr ⟨think, invisible⟩⟩
  rw [generate, assembled]
  simp only [if_neg noThrow₁, if_neg noThrow₂]
  exact ⟨_, rfl, rfl⟩

end KimiCli
