import KimiCli.Kosong.ToolExchanges
import KimiCli.Lib.OrderedMap
import Mathlib.Data.Option.Basic

/-!
# Contents of a Google request

`messagesToGoogleGenAIContents` of `kosong/src/providers/google-genai.ts`: a message with calls and
the tool messages after it become one content with the calls and one with the results, which are put
in the order of the calls.  Of the URL class the lower-case path of a URL is used.
-/

namespace KimiCli

namespace Google

inductive GooglePart
  | text (text : String)
  | inlineData (mimeType data : String)
  | fileData (fileUri mimeType : String)
  | functionCall (name : String) (args : List (String × Json)) (thoughtSignature : Option Json)
  | functionResponse (name output : String)

structure GoogleContent where
  role : String
  parts : List GooglePart

/-- A character that `.` matches. -/
def isLineChar (c : Char) : Bool :=
  c ≠ '\n' && c ≠ '\r' && c ≠ '\u2028' && c ≠ '\u2029'

/-- The first group of `/^(.+)_[^_]+$/`. -/
def namePart (id : List Char) : Option (List Char) :=
  let suffix := id.reverse.takeWhile (· ≠ '_')
  match id.reverse.dropWhile (· ≠ '_') with
  | '_' :: name =>
    if suffix ≠ [] ∧ name ≠ [] ∧ name.all isLineChar then some name.reverse else none
  | _ => none

def toolCallIdToName (toolCallId : String) (toolNameById : OrderedMap String String) : String :=
  match toolNameById.get toolCallId with
  | some name => name
  | none => ((namePart toolCallId.toList).map String.ofList).getD toolCallId

/-- The media type that the end of a path stands for. -/
def mimeTypeOfPath (fallback pathname : String) : String :=
  if pathname.endsWith ".png" then "image/png"
  else if pathname.endsWith ".jpg" || pathname.endsWith ".jpeg" then "image/jpeg"
  else if pathname.endsWith ".gif" then "image/gif"
  else if pathname.endsWith ".webp" then "image/webp"
  else if pathname.endsWith ".mp3" || pathname.endsWith ".mpeg" then "audio/mpeg"
  else if pathname.endsWith ".wav" then "audio/wav"
  else if pathname.endsWith ".ogg" then "audio/ogg"
  else fallback

/-- `pathname` gives `new URL(url).pathname.toLowerCase()`, or nothing where it throws. -/
def convertMediaUrl (pathname : String → Option String) (url fallback : String) : GooglePart :=
  if "data:".toList.isPrefixOf url.toList then
    let head := url.toList.takeWhile (· ≠ ',')
    match url.toList.dropWhile (· ≠ ',') with
    | [] => .fileData url fallback
    | _ :: data =>
      let afterColon := (head.dropWhile (· ≠ ':')).tail
      let mimeType :=
        if ':' ∈ head ∧ ';' ∈ head then
          -- `slice(colonIndex + 1, semiIndex)`, which is empty where the semicolon comes first.
          if head.findIdx (· = ';') ≤ head.findIdx (· = ':') then ""
          else String.ofList (afterColon.takeWhile (· ≠ ';'))
        else fallback
      .inlineData mimeType (String.ofList data)
  else .fileData url ((pathname url).elim fallback (mimeTypeOfPath fallback))

/-- The part of a content part; thoughts have none. -/
def contentPart (pathname : String → Option String) : ContentPart → Option GooglePart
  | .text text => some (.text text)
  | .think _ _ => none
  | .imageUrl image => some (convertMediaUrl pathname image.url "image/jpeg")
  | .audioUrl audio => some (convertMediaUrl pathname audio.url "audio/mpeg")
  | .videoUrl video => some (convertMediaUrl pathname video.url "video/mp4")

def thoughtSignature (call : ToolCall) : Option Json :=
  call.extras.bind (·.property "thought_signature_b64")

def functionCallPart (parse : String → Option Json) (call : ToolCall) :
    Except String GooglePart := do
  let args ← toolCallInput parse call.arguments
  return .functionCall call.name args (thoughtSignature call)

def roleName : Role → String
  | .system => "system"
  | .user => "user"
  | .assistant => "model"
  | .tool => "tool"

def messageToGoogleGenAI (parse : String → Option Json) (pathname : String → Option String)
    (message : Message) : Except String GoogleContent :=
  if message.role = .tool then
    .error "Tool messages must be converted via messagesToGoogleGenAIContents."
  else do
    let calls ← message.toolCalls.mapM (functionCallPart parse)
    return ⟨roleName message.role, message.content.filterMap (contentPart pathname) ++ calls⟩

/-- The text of a result. -/
def textOutput (content : List ContentPart) : String :=
  String.join (content.map fun
    | .text text => text
    | _ => "")

/-- The media of a result. -/
def mediaParts (pathname : String → Option String) (content : List ContentPart) :
    List GooglePart :=
  content.filterMap fun
    | .text _ => none
    | part => contentPart pathname part

def toolMessageToFunctionResponseParts (pathname : String → Option String) (message : Message)
    (toolNameById : OrderedMap String String) : Except String (List GooglePart) :=
  if message.role ≠ .tool then .error "Expected a tool message."
  else
    match message.toolCallId with
    | none => .error "Tool response is missing \x60toolCallId\x60."
    | some toolCallId =>
      .ok (.functionResponse (toolCallIdToName toolCallId toolNameById)
        (textOutput message.content) :: mediaParts pathname message.content)

/-! ## The results of one message -/

def collectResult (toolMsgById : OrderedMap String Message) (toolMsg : Message) :
    Except String (OrderedMap String Message) :=
  match toolMsg.toolCallId with
  | none => .error "Tool response is missing \x60toolCallId\x60."
  | some id =>
    if id ∈ toolMsgById.keys then .error ("Duplicate tool response for id: " ++ id)
    else .ok (toolMsgById.set id toolMsg)

def takeExpected (state : OrderedMap String Message × List Message) (expectedId : String) :
    Except String (OrderedMap String Message × List Message) :=
  match state.1.get expectedId with
  | none => .error ("Missing tool responses for ids: " ++ expectedId)
  | some msg => .ok (state.1.delete expectedId, state.2 ++ [msg])

/-- The tool messages in the order of the calls. -/
def sortToolMessages (expectedToolCallIds : List String) (toolMessages : List Message) :
    Except String (List Message) := do
  let toolMsgById ← toolMessages.foldlM collectResult ∅
  let (left, sorted) ← expectedToolCallIds.foldlM takeExpected (toolMsgById, [])
  if left.entries = [] then return sorted
  else
    throw ("Unexpected tool responses for ids: " ++
      Json.stringify (.array (left.keys.map .string)))

/-! ## The walk -/

def setToolName (toolNameById : OrderedMap String String) (call : ToolCall) :
    OrderedMap String String :=
  toolNameById.set call.id call.name

def systemContent (message : Message) : List GoogleContent :=
  if message.textLines = "" then []
  else [⟨"user", [.text ("<system>" ++ message.textLines ++ "</system>")]⟩]

/-- The contents of the messages from an index on. -/
def contentsFrom (parse : String → Option Json) (pathname : String → Option String)
    (toolNameById : OrderedMap String String) :
    List Message → Except String (List GoogleContent)
  | [] => .ok []
  | message :: rest =>
    match message.role with
    | .system => do
      let contents ← contentsFrom parse pathname toolNameById rest
      return systemContent message ++ contents
    | .tool => do
      let parts ← toolMessageToFunctionResponseParts pathname message toolNameById
      let contents ← contentsFrom parse pathname toolNameById rest
      return ⟨"user", parts⟩ :: contents
    | role => do
      let content ← messageToGoogleGenAI parse pathname message
      if role = .assistant ∧ message.toolCalls ≠ [] then
        let toolNameById := message.toolCalls.foldl setToolName toolNameById
        let toolMessages := rest.takeWhile (·.role = .tool)
        if toolMessages = [] then
          let contents ← contentsFrom parse pathname toolNameById rest
          return content :: contents
        else
          let sorted ← sortToolMessages (message.toolCalls.map (·.id)) toolMessages
          let parts ← sorted.mapM (toolMessageToFunctionResponseParts pathname · toolNameById)
          let contents ← contentsFrom parse pathname toolNameById
            (rest.dropWhile (·.role = .tool))
          return content :: ⟨"user", parts.flatten⟩ :: contents
      else
        let contents ← contentsFrom parse pathname toolNameById rest
        return content :: contents
termination_by messages => messages.length
decreasing_by
  all_goals simp only [List.length_cons]
  all_goals first
    | exact Nat.lt_succ_self _
    | exact Nat.lt_succ_of_le (List.dropWhile_suffix _).length_le

def messagesToGoogleGenAIContents (parse : String → Option Json)
    (pathname : String → Option String) (messages : List Message) :
    Except String (List GoogleContent) :=
  contentsFrom parse pathname ∅ messages

/-! ## What the contents should be -/

def GooglePart.isFunctionCall : GooglePart → Bool
  | .functionCall _ _ _ => true
  | _ => false

def GooglePart.isFunctionResponse : GooglePart → Bool
  | .functionResponse _ _ => true
  | _ => false

/-- The part of a call. -/
def CalledBy (parse : String → Option Json) (call : ToolCall) (part : GooglePart) : Prop :=
  ∃ args, toolCallInput parse call.arguments = .ok args ∧
    part = .functionCall call.name args (thoughtSignature call)

def response (call : ToolCall) (result : Message) : GooglePart :=
  .functionResponse call.name (textOutput result.content)

/-- The parts for a call and its own result. -/
def responseParts (pathname : String → Option String) (call : ToolCall) (result : Message) :
    List GooglePart :=
  response call result :: mediaParts pathname result.content

/-- Every exchange of the history has become a content with the calls and a content with just their
responses, in the same order; every other message but an empty system message has a content. -/
inductive Matched (parse : String → Option Json) (pathname : String → Option String) :
    List Message → List GoogleContent → Prop
  | nil : Matched parse pathname [] []
  | dropped {m : Message} {rest : List Message} {contents : List GoogleContent} :
      m.role = .system → m.textLines = "" → Matched parse pathname rest contents →
      Matched parse pathname (m :: rest) contents
  | message {m : Message} {rest : List Message} {content : GoogleContent}
      {contents : List GoogleContent} : m.role ≠ .tool → ¬m.calls →
      (m.role = .system → m.textLines ≠ "") →
      (∀ part ∈ content.parts, part.isFunctionResponse = false) →
      Matched parse pathname rest contents →
      Matched parse pathname (m :: rest) (content :: contents)
  | exchange {m : Message} {results ordered rest : List Message} {own answers : List GooglePart}
      {contents : List GoogleContent} : m.calls →
      ordered.Perm results → (ordered.map (·.toolCallId)) = m.toolCalls.map (some ·.id) →
      (∀ part ∈ own, part.isFunctionResponse = false) →
      List.Forall₂ (CalledBy parse) m.toolCalls (own.filter (·.isFunctionCall)) →
      answers = (List.zipWith (responseParts pathname) m.toolCalls ordered).flatten →
      answers.filter (·.isFunctionResponse) = List.zipWith response m.toolCalls ordered →
      Matched parse pathname rest contents →
      Matched parse pathname (m :: (results ++ rest))
        (⟨"model", own⟩ :: ⟨"user", answers⟩ :: contents)

/-- The ids of the calls of each assistant message are distinct. -/
def DistinctCallIds (history : List Message) : Prop :=
  ∀ m ∈ history, m.calls → (m.toolCalls.map (·.id)).Nodup

/-- Nothing in the message is refused. -/
def Convertible (parse : String → Option Json) (message : Message) : Prop :=
  message.role ≠ .system → message.role ≠ .tool →
    ∀ call ∈ message.toolCalls, ObjectArguments parse call

/-! ## Sorting the results -/

section

variable {parse : String → Option Json} {pathname : String → Option String}
  {byId : OrderedMap String Message} {ids : List String} {toolMessages : List Message}

theorem foldlM_collectResult (byId : OrderedMap String Message)
    {entries : List (String × Message)}
    (own : ∀ entry ∈ entries, entry.2.toolCallId = some entry.1)
    (distinct : ((byId.entries ++ entries).map Prod.fst).Nodup) :
    ∃ out, (entries.map Prod.snd).foldlM collectResult byId = .ok out ∧
      out.entries = byId.entries ++ entries := by
  induction entries generalizing byId with
  | nil => exact ⟨byId, rfl, (List.append_nil _).symm⟩
  | cons entry entries ih =>
    have fresh : entry.1 ∉ byId.keys := by
      rw [List.map_append, List.map_cons] at distinct
      exact fun mem => (List.nodup_append.1 distinct).2.2 _ mem _ List.mem_cons_self rfl
    have appended := OrderedMap.entries_set_of_not_mem (v := entry.2) fresh
    have step : collectResult byId entry.2 = .ok (byId.set entry.1 entry.2) := by
      rw [collectResult, own entry List.mem_cons_self]
      exact if_neg fresh
    have distinct' : (((byId.set entry.1 entry.2).entries ++ entries).map Prod.fst).Nodup := by
      rw [appended, List.append_assoc]
      exact distinct
    obtain ⟨out, found, same⟩ := ih (byId.set entry.1 entry.2)
      (fun e mem => own e (List.mem_cons_of_mem _ mem)) distinct'
    refine ⟨out, foldlM_cons_eq_ok.2 ⟨_, step, found⟩, ?_⟩
    rw [same, appended, List.append_assoc]
    rfl

theorem foldlM_takeExpected (byId : OrderedMap String Message) (sorted : List Message)
    (distinct : ids.Nodup)
    (all : ∀ id ∈ ids, id ∈ byId.keys) :
    ∃ left found, ids.foldlM takeExpected (byId, sorted) = .ok (left, sorted ++ found) ∧
      found.map some = ids.map byId.get ∧ ∀ id ∈ left.keys, id ∈ byId.keys ∧ id ∉ ids := by
  induction ids generalizing byId sorted with
  | nil =>
    exact ⟨byId, [], by rw [List.append_nil]; rfl, rfl, fun id mem => ⟨mem, List.not_mem_nil⟩⟩
  | cons id ids ih =>
    obtain ⟨outside, distinct⟩ := List.nodup_cons.1 distinct
    obtain ⟨msg, get⟩ := OrderedMap.mem_keys.1 (all id List.mem_cons_self)
    have step : takeExpected (byId, sorted) id = .ok (byId.delete id, sorted ++ [msg]) := by
      rw [takeExpected, get]
    have kept {other : String} (mem : other ∈ ids) :
        (byId.delete id).get other = byId.get other :=
      OrderedMap.get_delete_ne _ fun same => outside (same ▸ mem)
    have all' : ∀ other ∈ ids, other ∈ (byId.delete id).keys := by
      intro other mem
      rw [OrderedMap.mem_keys, kept mem, ← OrderedMap.mem_keys]
      exact all other (List.mem_cons_of_mem _ mem)
    obtain ⟨left, found, run, same, rest⟩ := ih (byId.delete id) (sorted ++ [msg]) distinct all'
    refine ⟨left, msg :: found, ?_, ?_, fun other mem => ?_⟩
    · refine foldlM_cons_eq_ok.2 ⟨_, step, run.trans ?_⟩
      rw [List.append_assoc]
      rfl
    · rw [List.map_cons, List.map_cons, same, get, List.map_congr_left fun other => kept]
    · obtain ⟨inside, notIn⟩ := rest other mem
      obtain ⟨value, present⟩ := OrderedMap.mem_keys.1 inside
      have ne : other ≠ id := by
        rintro rfl
        rw [OrderedMap.get_delete_self] at present
        cases present
      rw [OrderedMap.get_delete_ne _ ne] at present
      exact ⟨OrderedMap.mem_keys.2 ⟨value, present⟩, List.not_mem_cons_of_ne_of_not_mem ne notIn⟩

theorem exists_entries (each : ∀ m ∈ toolMessages, ∃ id, m.toolCallId = some id) :
    ∃ entries : List (String × Message), toolMessages = entries.map Prod.snd ∧
      ∀ entry ∈ entries, entry.2.toolCallId = some entry.1 := by
  induction toolMessages with
  | nil => exact ⟨[], rfl, fun _ mem => absurd mem List.not_mem_nil⟩
  | cons m toolMessages ih =>
    obtain ⟨id, given⟩ := each m List.mem_cons_self
    obtain ⟨entries, rfl, own⟩ := ih fun m mem => each m (List.mem_cons_of_mem _ mem)
    exact ⟨(id, m) :: entries, rfl, List.forall_mem_cons.2 ⟨given, own⟩⟩

/-- Results that answer distinct ids, one each, are put in the order of the ids. -/
theorem sortToolMessages_spec (distinct : ids.Nodup)
    (each : (toolMessages.map (·.toolCallId)).Perm (ids.map some)) :
    ∃ ordered, sortToolMessages ids toolMessages = .ok ordered ∧ ordered.Perm toolMessages ∧
      ordered.map (·.toolCallId) = ids.map some := by
  obtain ⟨entries, rfl, own⟩ := exists_entries fun m mem => by
    obtain ⟨id, -, same⟩ := List.mem_map.1 (each.subset (List.mem_map_of_mem mem))
    exact ⟨id, same.symm⟩
  have keys : (entries.map Prod.fst).Perm ids := by
    have ids_eq : (entries.map Prod.snd).map (·.toolCallId) = (entries.map Prod.fst).map some := by
      rw [List.map_map, List.map_map]
      exact List.map_congr_left own
    rw [ids_eq] at each
    exact (List.map_perm_map_iff (Option.some_injective _)).1 each
  obtain ⟨byId, collected, same⟩ := foldlM_collectResult ∅ own (keys.nodup_iff.2 distinct)
  have get_of_mem {entry : String × Message} (mem : entry ∈ entries) :
      byId.get entry.1 = some entry.2 :=
    OrderedMap.mem_entries.1 (same ▸ mem)
  have all : ∀ id ∈ ids, id ∈ byId.keys := by
    intro id mem
    rw [OrderedMap.keys, same]
    exact keys.symm.subset mem
  obtain ⟨left, ordered, taken, found, rest⟩ := foldlM_takeExpected byId [] distinct all
  have empty : left.entries = [] := by
    have none : left.keys = [] := by
      refine List.eq_nil_iff_forall_not_mem.2 fun id mem => ?_
      obtain ⟨inside, outside⟩ := rest id mem
      rw [OrderedMap.keys, same] at inside
      exact outside (keys.subset inside)
    exact List.map_eq_nil_iff.1 none
  refine ⟨ordered, ?_, ?_, ?_⟩
  · exact except_bind_eq_ok.2 ⟨byId, collected, except_bind_eq_ok.2 ⟨_, taken, if_pos empty⟩⟩
  · have values : (entries.map Prod.snd).map some = (entries.map Prod.fst).map byId.get := by
      rw [List.map_map, List.map_map]
      exact List.map_congr_left fun entry mem => (get_of_mem mem).symm
    refine (List.map_perm_map_iff (Option.some_injective _)).1 ?_
    rw [found, values]
    exact keys.symm.map _
  · have answered := congrArg (List.map (Option.bind · (·.toolCallId))) found
    rw [List.map_map, List.map_map] at answered
    refine answered.trans (List.map_congr_left fun id mem => ?_)
    obtain ⟨entry, inside, rfl⟩ := List.mem_map.1 (keys.symm.subset mem)
    rw [Function.comp_apply, get_of_mem inside]
    exact own entry inside

/-! ## Parts -/

theorem contentPart_plain {part : ContentPart} {out : GooglePart}
    (found : contentPart pathname part = some out) :
    out.isFunctionCall = false ∧ out.isFunctionResponse = false := by
  have media (url fallback : String) :
      (convertMediaUrl pathname url fallback).isFunctionCall = false ∧
        (convertMediaUrl pathname url fallback).isFunctionResponse = false := by
    unfold convertMediaUrl
    split
    · split <;> exact ⟨rfl, rfl⟩
    · exact ⟨rfl, rfl⟩
  cases part with
  | text =>
    cases found
    exact ⟨rfl, rfl⟩
  | think => cases found
  | imageUrl | audioUrl | videoUrl =>
    cases found
    exact media _ _

theorem mediaParts_plain {content : List ContentPart} {part : GooglePart}
    (mem : part ∈ mediaParts pathname content) : part.isFunctionResponse = false := by
  obtain ⟨own, -, found⟩ := List.mem_filterMap.1 mem
  split at found
  · cases found
  · exact (contentPart_plain found).2

theorem filter_responses (calls : List ToolCall) (ordered : List Message) :
    (List.zipWith (responseParts pathname) calls ordered).flatten.filter (·.isFunctionResponse) =
      List.zipWith response calls ordered := by
  induction calls generalizing ordered with
  | nil => rfl
  | cons call calls ih =>
    cases ordered with
    | nil => rfl
    | cons result =>
      have media : (mediaParts pathname result.content).filter (·.isFunctionResponse) = [] :=
        List.filter_eq_nil_iff.2 fun part mem => Bool.eq_false_iff.1 (mediaParts_plain mem)
      rw [List.zipWith_cons_cons, List.flatten_cons, List.filter_append, ih, responseParts,
        List.filter_cons_of_pos rfl, media]
      rfl

variable {m : Message}

/-- What a message becomes that is no tool message: its calls are the function calls. -/
theorem messageToGoogleGenAI_spec {content : GoogleContent}
    (found : messageToGoogleGenAI parse pathname m = .ok content) :
    content.role = roleName m.role ∧
      (∀ part ∈ content.parts, part.isFunctionResponse = false) ∧
      List.Forall₂ (CalledBy parse) m.toolCalls (content.parts.filter (·.isFunctionCall)) := by
  unfold messageToGoogleGenAI at found
  split at found
  case isTrue => cases found
  case isFalse =>
    obtain ⟨calls, mapped, same⟩ := except_bind_eq_ok.1 found
    cases same
    have called : List.Forall₂ (CalledBy parse) m.toolCalls calls := by
      refine (mapM_eq_ok.1 mapped).imp fun call part made => ?_
      obtain ⟨args, parsed, same⟩ := except_bind_eq_ok.1 made
      exact ⟨args, parsed, (Except.ok.inj same).symm⟩
    have kinds : ∀ part ∈ calls, part.isFunctionCall = true ∧ part.isFunctionResponse = false := by
      intro part mem
      obtain ⟨call, -, args, -, rfl⟩ := forall₂_exists_left called mem
      exact ⟨rfl, rfl⟩
    have own : ∀ part ∈ m.content.filterMap (contentPart pathname),
        part.isFunctionCall = false ∧ part.isFunctionResponse = false := by
      intro part mem
      obtain ⟨_, -, made⟩ := List.mem_filterMap.1 mem
      exact contentPart_plain made
    refine ⟨rfl, fun part mem => ?_, ?_⟩
    · rcases List.mem_append.1 mem with mem | mem
      · exact (own part mem).2
      · exact (kinds part mem).2
    · have none : (m.content.filterMap (contentPart pathname)).filter (·.isFunctionCall) = [] :=
        List.filter_eq_nil_iff.2 fun part mem => Bool.eq_false_iff.1 (own part mem).1
      have all : calls.filter (·.isFunctionCall) = calls :=
        List.filter_eq_self.2 fun part mem => (kinds part mem).1
      rw [List.filter_append, none, all, List.nil_append]
      exact called

theorem exists_messageToGoogleGenAI_iff (notTool : m.role ≠ .tool) :
    (∃ content, messageToGoogleGenAI parse pathname m = .ok content) ↔
      ∀ call ∈ m.toolCalls, ObjectArguments parse call := by
  rw [messageToGoogleGenAI, if_neg notTool, exists_bind_pure_iff, exists_mapM_iff]
  refine forall₂_congr fun call _ => ?_
  rw [functionCallPart, exists_bind_pure_iff, exists_toolCallInput_iff]

/-! ## The walk over a history -/

theorem get_foldl_setToolName {calls : List ToolCall} (names : OrderedMap String String)
    (distinct : (calls.map (·.id)).Nodup) {call : ToolCall} (mem : call ∈ calls) :
    (calls.foldl setToolName names).get call.id = some call.name := by
  induction calls generalizing names with
  | nil => exact absurd mem List.not_mem_nil
  | cons first calls ih =>
    obtain ⟨outside, distinct⟩ := List.nodup_cons.1 distinct
    rw [List.foldl_cons]
    rcases List.mem_cons.1 mem with rfl | mem
    · have kept : ∀ (others : List ToolCall) (names : OrderedMap String String),
          call.id ∉ others.map (·.id) →
          (others.foldl setToolName names).get call.id = names.get call.id := by
        intro others
        induction others with
        | nil => exact fun names _ => rfl
        | cons other others ih =>
          intro names outside
          rw [List.map_cons, List.mem_cons, not_or] at outside
          obtain ⟨ne, outside⟩ := outside
          rw [List.foldl_cons, ih _ outside]
          exact OrderedMap.get_set_ne _ _ ne
      rw [kept calls _ outside]
      exact OrderedMap.get_set_self _ _ _
    · exact ih _ distinct mem

theorem takeWhile_results {results rest : List Message}
    (tool : ∀ result ∈ results, result.role = .tool) (complete : CompleteExchanges rest) :
    (results ++ rest).takeWhile (·.role = .tool) = results ∧
      (results ++ rest).dropWhile (·.role = .tool) = rest := by
  have all : ∀ result ∈ results, decide (result.role = .tool) = true :=
    fun result mem => decide_eq_true (tool result mem)
  rw [List.takeWhile_append_of_pos all, List.dropWhile_append_of_pos all]
  cases complete with
  | nil => exact ⟨List.append_nil _, rfl⟩
  | message notTool _ _ =>
    have stop : ¬decide (_ = Role.tool) = true := fun same => notTool (of_decide_eq_true same)
    rw [List.takeWhile_cons, List.dropWhile_cons, if_neg stop, if_neg stop]
    exact ⟨List.append_nil _, rfl⟩
  | exchange calls _ _ _ =>
    have stop : ¬decide (_ = Role.tool) = true := fun same =>
      absurd (calls.1.symm.trans (of_decide_eq_true same)) (by decide)
    rw [List.takeWhile_cons, List.dropWhile_cons, if_neg stop, if_neg stop]
    exact ⟨List.append_nil _, rfl⟩

theorem mapM_responseParts (pathname : String → Option String) {calls : List ToolCall}
    {ordered : List Message} {names : OrderedMap String String}
    (named : ∀ call ∈ calls, names.get call.id = some call.name)
    (tool : ∀ result ∈ ordered, result.role = .tool)
    (own : ordered.map (·.toolCallId) = calls.map (some ·.id)) :
    ordered.mapM (toolMessageToFunctionResponseParts pathname · names) =
      .ok (List.zipWith (responseParts pathname) calls ordered) := by
  induction calls generalizing ordered with
  | nil =>
    rw [List.map_eq_nil_iff.1 own]
    rfl
  | cons call calls ih =>
    cases ordered with
    | nil => cases own
    | cons result =>
      obtain ⟨given, rest⟩ := List.cons.inj own
      have first : result.toolCallId = some call.id := given
      have step : toolMessageToFunctionResponseParts pathname result names =
          .ok (responseParts pathname call result) := by
        rw [toolMessageToFunctionResponseParts, if_neg (not_not.2 (tool result List.mem_cons_self)),
          first]
        dsimp only
        rw [toolCallIdToName, named call List.mem_cons_self]
        rfl
      rw [List.mapM_cons, step, ih (fun c mem => named c (List.mem_cons_of_mem _ mem))
        (fun r mem => tool r (List.mem_cons_of_mem _ mem)) rest]
      rfl

theorem contentsFrom_system (names : OrderedMap String String) (rest : List Message)
    (system : m.role = .system) :
    contentsFrom parse pathname names (m :: rest) = (do
      let contents ← contentsFrom parse pathname names rest
      return systemContent m ++ contents) := by
  rw [contentsFrom, system]

theorem contentsFrom_message (names : OrderedMap String String) (rest : List Message)
    (notSystem : m.role ≠ .system) (notTool : m.role ≠ .tool) (noCalls : ¬m.calls) :
    contentsFrom parse pathname names (m :: rest) = (do
      let content ← messageToGoogleGenAI parse pathname m
      let contents ← contentsFrom parse pathname names rest
      return content :: contents) := by
  rw [contentsFrom]
  split
  case h_1 system => exact absurd system notSystem
  case h_2 tool => exact absurd tool notTool
  case h_3 => simp only [if_neg (show ¬(m.role = .assistant ∧ m.toolCalls ≠ []) from noCalls)]

theorem contentsFrom_exchange {results rest : List Message} (names : OrderedMap String String)
    (calls : m.calls) (tool : ∀ result ∈ results, result.role = .tool)
    (each : (results.map (·.toolCallId)).Perm (m.toolCalls.map fun call => some call.id))
    (distinct : (m.toolCalls.map (·.id)).Nodup) (complete : CompleteExchanges rest) :
    ∃ ordered, ordered.Perm results ∧ ordered.map (·.toolCallId) = m.toolCalls.map (some ·.id) ∧
      contentsFrom parse pathname names (m :: (results ++ rest)) = (do
        let content ← messageToGoogleGenAI parse pathname m
        let contents ← contentsFrom parse pathname (m.toolCalls.foldl setToolName names) rest
        return content ::
          ⟨"user", (List.zipWith (responseParts pathname) m.toolCalls ordered).flatten⟩ ::
          contents) := by
  have nonempty : results ≠ [] := by
    rintro rfl
    exact calls.2 (List.map_eq_nil_iff.1 (List.nil_perm.1 each))
  have ids_eq : (m.toolCalls.map (·.id)).map some = m.toolCalls.map (some ·.id) :=
    List.map_map
  obtain ⟨ordered, sorted, perm, own⟩ := sortToolMessages_spec distinct (ids_eq ▸ each)
  rw [ids_eq] at own
  refine ⟨ordered, perm, own, ?_⟩
  obtain ⟨taken, dropped⟩ := takeWhile_results tool complete
  have parts := mapM_responseParts pathname
    (fun call mem => get_foldl_setToolName names distinct mem)
    (fun result mem => tool result (perm.subset mem)) own
  rw [contentsFrom]
  split
  case h_1 system => exact absurd (calls.1.symm.trans system) (by decide)
  case h_2 tool => exact absurd (calls.1.symm.trans tool) (by decide)
  case h_3 =>
    simp only [if_pos (show m.role = .assistant ∧ m.toolCalls ≠ [] from calls), taken, dropped,
      if_neg nonempty, sorted, except_ok_bind, parts]

/-- Every result of the walk over a history of complete exchanges matches it. -/
theorem contentsFrom_matched {history : List Message} (complete : CompleteExchanges history)
    (distinct : DistinctCallIds history) {names : OrderedMap String String}
    {out : List GoogleContent} (found : contentsFrom parse pathname names history = .ok out) :
    Matched parse pathname history out := by
  induction complete generalizing names out with
  | nil =>
    rw [contentsFrom] at found
    cases found
    exact .nil
  | @message m rest notTool noCalls _ ih =>
    have distinct' : DistinctCallIds rest := fun m mem => distinct m (List.mem_cons_of_mem _ mem)
    by_cases system : m.role = .system
    · rw [contentsFrom_system names rest system] at found
      obtain ⟨contents, walk, same⟩ := except_bind_eq_ok.1 found
      cases same
      have matched := ih distinct' walk
      unfold systemContent
      split
      case isTrue empty => exact .dropped system empty matched
      case isFalse text =>
        exact .message notTool noCalls (fun _ => text)
          (fun part mem => List.mem_singleton.1 mem ▸ rfl) matched
    · rw [contentsFrom_message names rest system notTool noCalls] at found
      obtain ⟨content, convert, found⟩ := except_bind_eq_ok.1 found
      obtain ⟨contents, walk, same⟩ := except_bind_eq_ok.1 found
      cases same
      exact .message notTool noCalls (fun same => absurd same system)
        (messageToGoogleGenAI_spec convert).2.1 (ih distinct' walk)
  | @exchange m results rest calls tool each complete ih =>
    have distinct' : DistinctCallIds rest := fun m mem =>
      distinct m (List.mem_cons_of_mem _ (List.mem_append_right _ mem))
    obtain ⟨ordered, perm, own, walk_eq⟩ := contentsFrom_exchange names calls tool each
      (distinct m List.mem_cons_self calls) complete
    rw [walk_eq] at found
    obtain ⟨⟨role, parts⟩, convert, found⟩ := except_bind_eq_ok.1 found
    obtain ⟨contents, walk, same⟩ := except_bind_eq_ok.1 found
    cases same
    obtain ⟨role_eq, plain, called⟩ := messageToGoogleGenAI_spec convert
    rw [calls.1] at role_eq
    cases role_eq
    exact .exchange calls perm own plain called rfl (filter_responses _ _) (ih distinct' walk)

/-- The walk succeeds just if nothing in the history is refused. -/
theorem exists_contentsFrom_iff {history : List Message} (complete : CompleteExchanges history)
    (distinct : DistinctCallIds history) (names : OrderedMap String String) :
    (∃ out, contentsFrom parse pathname names history = .ok out) ↔
      ∀ m ∈ history, Convertible parse m := by
  have bind_iff {α β : Type} (x : Except String α) (y : Except String β) (f : α → β → β) :
      (∃ out, (do let a ← x; let b ← y; return f a b) = .ok out) ↔
        (∃ a, x = .ok a) ∧ ∃ b, y = .ok b := by
    cases x with
    | error =>
      exact ⟨fun ⟨_, failed⟩ => (nomatch failed), fun ⟨⟨_, failed⟩, _⟩ => (nomatch failed)⟩
    | ok a =>
      rw [except_ok_bind, exists_bind_pure_iff]
      exact (and_iff_right ⟨a, rfl⟩).symm
  have converted_iff {m : Message} (notSystem : m.role ≠ .system) (notTool : m.role ≠ .tool) :
      (∃ content, messageToGoogleGenAI parse pathname m = .ok content) ↔ Convertible parse m := by
    rw [exists_messageToGoogleGenAI_iff notTool]
    exact ⟨fun all _ _ => all, fun all => all notSystem notTool⟩
  induction complete generalizing names with
  | nil =>
    rw [contentsFrom]
    exact ⟨fun _ m mem => absurd mem List.not_mem_nil, fun _ => ⟨[], rfl⟩⟩
  | @message m rest notTool noCalls _ ih =>
    have distinct' : DistinctCallIds rest := fun m mem => distinct m (List.mem_cons_of_mem _ mem)
    rw [List.forall_mem_cons]
    by_cases system : m.role = .system
    · rw [contentsFrom_system names rest system, exists_bind_pure_iff]
      refine (ih distinct' names).trans ?_
      exact (and_iff_right fun notSystem => absurd system notSystem).symm
    · rw [contentsFrom_message names rest system notTool noCalls]
      refine (bind_iff _ _ _).trans ?_
      exact and_congr (converted_iff system notTool) (ih distinct' names)
  | @exchange m results rest calls tool each complete ih =>
    have distinct' : DistinctCallIds rest := fun m mem =>
      distinct m (List.mem_cons_of_mem _ (List.mem_append_right _ mem))
    obtain ⟨ordered, -, -, walk_eq⟩ := contentsFrom_exchange names calls tool each
      (distinct m List.mem_cons_self calls) complete
    have notSystem : m.role ≠ .system := fun system =>
      absurd (calls.1.symm.trans system) (by decide)
    have notTool : m.role ≠ .tool := fun tool => absurd (calls.1.symm.trans tool) (by decide)
    have results_fine : ∀ result ∈ results, Convertible parse result :=
      fun result mem _ notTool => absurd (tool result mem) notTool
    rw [walk_eq]
    refine (bind_iff _ _ _).trans ?_
    rw [List.forall_mem_cons, List.forall_mem_append]
    refine and_congr (converted_iff notSystem notTool) ?_
    exact (ih distinct' _).trans (and_iff_right results_fine).symm

end

/-- For a history of complete exchanges with distinct ids the contents are given unless the
arguments of a call are neither empty nor an object, and they match the history. -/
theorem messagesToGoogleGenAIContents_law (parse : String → Option Json)
    (pathname : String → Option String) (history : List Message)
    (complete : CompleteExchanges history) (distinct : DistinctCallIds history) :
    ((∃ out, messagesToGoogleGenAIContents parse pathname history = .ok out) ↔
      ∀ m ∈ history, Convertible parse m) ∧
    ∀ out, messagesToGoogleGenAIContents parse pathname history = .ok out →
      Matched parse pathname history out :=
  ⟨exists_contentsFrom_iff complete distinct ∅, fun _ => contentsFrom_matched complete distinct⟩

theorem exchangeOf_distinct (arguments : String) : DistinctCallIds (exchangeOf arguments) := by
  intro m mem calls
  rcases List.mem_cons.1 mem with rfl | mem
  · exact List.nodup_singleton _
  · cases List.mem_singleton.1 mem
    exact absurd calls.1 (by decide)

/-- Two calls of one message with the same id, and one result. -/
def repeatedCall : List Message :=
  [{ role := .assistant, content := [],
     toolCalls := [{ id := "call_1", name := "Read", arguments := none },
       { id := "call_1", name := "Read", arguments := none }] },
    createToolMessage "call_1" (.inl "text")]

/-- A call whose arguments are an array is refused, and so are calls with the same id. -/
theorem refused_calls :
    (¬∀ (parse : String → Option Json) (pathname : String → Option String)
        (history : List Message), CompleteExchanges history →
        ∃ out, messagesToGoogleGenAIContents parse pathname history = .ok out) ∧
      messagesToGoogleGenAIContents parseEmptyArray (fun _ => none) repeatedCall =
        .error "Missing tool responses for ids: call_1" := by
  constructor
  · intro all
    have sent := (exists_contentsFrom_iff (exchangeOf_complete "[]") (exchangeOf_distinct "[]") ∅).1
      (all parseEmptyArray (fun _ => none) _ (exchangeOf_complete "[]"))
    have objects := sent _ List.mem_cons_self (by decide) (by decide)
    obtain ⟨members, parsed⟩ := objects _ List.mem_cons_self "[]" rfl (by decide)
    rw [parseEmptyArray, if_pos rfl] at parsed
    cases parsed
  · rw [messagesToGoogleGenAIContents, repeatedCall, contentsFrom]
    rfl

theorem twoCalls_distinct : DistinctCallIds twoCalls := by
  intro m mem calls
  simp only [twoCalls, List.mem_cons, List.not_mem_nil, or_false] at mem
  rcases mem with rfl | rfl | rfl | rfl
  · exact List.nodup_nil
  · decide
  · exact List.nodup_nil
  · exact List.nodup_nil

/-- Both results are sent in the order of the calls, although they come in the other order. -/
theorem twoCalls_matched :
    ∃ out, messagesToGoogleGenAIContents parseReads (fun _ => none) twoCalls = .ok out ∧
      Matched parseReads (fun _ => none) twoCalls out := by
  obtain ⟨given, law⟩ := messagesToGoogleGenAIContents_law parseReads (fun _ => none) twoCalls
    twoCalls_complete twoCalls_distinct
  obtain ⟨out, found⟩ := given.2 fun m mem _ _ => twoCalls_objects m mem
  exact ⟨out, found, law out found⟩

end Google

end KimiCli
