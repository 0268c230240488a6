import KimiCli.Lib.Run
import KimiCli.Web.DeltaAlignment

/-!
# Tool output in the transcript

The part of `kimi-web/src/api/daemon/eventReducer.ts` that keeps the messages of a session, behind
the projector: the projector publishes its copy of a message, in which no call has output, and the
reducer adds the output of the running calls to its own.  No optimistic message is in the
transcript, and media parts of prompts are left out.
-/

namespace KimiCli

namespace AppMessageContent

def toolCallId? : AppMessageContent → Option String
  | .toolUse toolCallId _ _ _ => some toolCallId
  | _ => none

/-- The lines shown with a call. -/
def lines : AppMessageContent → List CodeUnits
  | .toolUse _ _ _ outputLines => outputLines.getD []
  | _ => []

def withoutOutput : AppMessageContent → AppMessageContent
  | .toolUse toolCallId toolName input _ => .toolUse toolCallId toolName input none
  | part => part

/-- `appendToolOutputToMessages` on a part. -/
def appendToolOutput (toolCallId : String) (outputChunk : CodeUnits) :
    AppMessageContent → AppMessageContent
  | .toolUse id toolName input outputLines =>
    if id ≠ toolCallId then .toolUse id toolName input outputLines
    else .toolUse id toolName input (some (outputLines.getD [] ++ [outputChunk]))
  | part => part

/-- What an `assistantDelta` makes of the part it is for. -/
def patch (kind : DeltaKind) (delta : CodeUnits) : AppMessageContent → AppMessageContent
  | .text shown =>
    match kind with
    | .text => .text (shown ++ delta)
    | .thinking => .thinking delta
  | .thinking shown =>
    match kind with
    | .text => .text delta
    | .thinking => .thinking (shown ++ delta)
  | _ =>
    match kind with
    | .text => .text delta
    | .thinking => .thinking delta

/-- The case `assistantDelta` on the content of its message. -/
def patchAt (contentIndex : ℕ) (kind : DeltaKind) (delta : CodeUnits)
    (content : List AppMessageContent) : List AppMessageContent :=
  let missing := contentIndex + 1 - content.length
  (content ++ List.replicate missing (AppMessageContent.text [])).modify contentIndex
    (patch kind delta)

end AppMessageContent

/-- A frame of the session's stream, as far as it makes messages. -/
inductive RawEvent
  | frame (e : AgentEvent) (offset : Option ℕ)
  | promptSubmitted (promptId userMessageId : String) (texts : List CodeUnits) (media : ℕ)
  | compactionCompleted (markerId : String) (summary : CodeUnits)

/-- The case `prompt.submitted` of `_project`. -/
def ProjectorState.promptSubmitted (s : ProjectorState) (promptId userMessageId : String)
    (texts : List CodeUnits) (media : ℕ) : ProjectorState × List AppEvent :=
  if promptId = "" ∨ userMessageId = "" ∨ texts.length + media = 0 then (s, [])
  else
    let msg : AppMessage :=
      { id := .given userMessageId, role := .user, content := texts.map AppMessageContent.text,
        promptId := .given promptId }
    ({ s with currentPromptId := some (.given promptId), messages := s.messages ++ [msg] },
      [.messageCreated msg])

/-- The projector of a session and what the reducer keeps for it. -/
structure Transcript where
  projector : ProjectorState := {}
  /-- The session's entry in `messagesBySession`. -/
  messages : Option (List AppMessage) := none
  /-- The output chunks of each call so far. -/
  output : String → List CodeUnits := fun _ => []

namespace Transcript

open AppMessageContent Transition

/-- `reduceAppEvent` on the messages of a session. -/
def reduce (messages : Option (List AppMessage)) : AppEvent → Option (List AppMessage)
  | .messageCreated message =>
    let msgs := messages.getD []
    if msgs.any (·.id == message.id) then messages else some (msgs ++ [message])
  | .messageUpdated messageId content _ _ =>
    some ((messages.getD []).map fun m => if m.id ≠ messageId then m else { m with content })
  | .assistantDelta messageId contentIndex kind delta =>
    some ((messages.getD []).map fun m =>
      if m.id ≠ messageId then m
      else { m with content := patchAt contentIndex kind delta m.content })
  | .toolOutput toolCallId outputChunk _ =>
    some ((messages.getD []).map fun m =>
      { m with content := m.content.map (appendToolOutput toolCallId outputChunk) })
  | _ => messages

/-- The marker that `compactionCompleted` leaves in a loaded transcript. -/
def mark (messages : Option (List AppMessage)) (markerId : String) (summary : CodeUnits) :
    Option (List AppMessage) :=
  messages.map fun msgs =>
    if msgs.any (·.id == .given markerId) then msgs
    else
      msgs ++ [{ id := .given markerId, role := .assistant, promptId := .given "",
                 content := if summary = [] then [] else [.text summary] }]

/-- The chunks of each call when one more event is there. -/
def collect (output : String → List CodeUnits) : RawEvent → String → List CodeUnits
  | .frame ⟨agentId, .toolProgress _ toolCallId update⟩ _ =>
    if agentId = MAIN_AGENT_ID ∧ update.text.getD [] ≠ [] then
      Function.update output toolCallId (output toolCallId ++ [update.text.getD []])
    else output
  | _ => output

def step (sideChannel : String → Bool) (s : Transcript) (event : RawEvent) : Option Transcript :=
  let output := collect s.output event
  match event with
  | .frame e offset =>
    let (projector, events) := s.projector.project sideChannel e offset
    some { projector, messages := events.foldl reduce s.messages, output }
  | .promptSubmitted promptId userMessageId texts media =>
    let (projector, events) := s.projector.promptSubmitted promptId userMessageId texts media
    some { projector, messages := events.foldl reduce s.messages, output }
  | .compactionCompleted markerId summary =>
    some { s with messages := mark s.messages markerId summary, output }

/-- The messages of the session. -/
def shown (s : Transcript) : List AppMessage := s.messages.getD []

/-- The lines of every call are its chunks so far. -/
def Complete (messages : List AppMessage) (output : String → List CodeUnits) : Prop :=
  ∀ m ∈ messages, ∀ part ∈ m.content, ∀ id, part.toolCallId? = some id → part.lines = output id

/-- The calls in the message that the projector would publish. -/
def openCalls (p : ProjectorState) : List String :=
  match p.currentAssistantMsgId with
  | none => []
  | some id =>
    match p.getMsgById id with
    | none => []
    | some msg => msg.content.filterMap toolCallId?

/-- The projector takes up a call that starts in a turn. -/
def takesUp (p : ProjectorState) (turnId : ℕ) : Bool :=
  p.currentAssistantMsgId.isSome && (p.turnPromptId turnId <|> p.currentPromptId).any Ident.truthy

/-- No call in a message that is published anew has had output, and no output comes for a call
without an id that is shown. -/
def Timely (s : Transcript) : RawEvent → Prop
  | .frame ⟨agentId, event⟩ _ =>
    agentId = MAIN_AGENT_ID →
      match event with
      | .toolCallStarted turnId toolCallId _ _ _ _ =>
        takesUp s.projector turnId →
          ∀ id ∈ openCalls s.projector ++ [toolCallId], s.output id = []
      | .stepCompleted _ _ | .turnEnded _ _ _ => ∀ id ∈ openCalls s.projector, s.output id = []
      | .toolProgress _ toolCallId update =>
        toolCallId = "" → update.text.getD [] ≠ [] →
          ∀ m ∈ s.shown, ∀ part ∈ m.content, part.toolCallId? ≠ some ""
      | _ => True
  | _ => True

/-! ## The two copies -/

/-- The reducer's copy of the current message is the projector's with the output added. -/
structure Synced (p : ProjectorState) (messages : List AppMessage) : Prop where
  madeLog : ∀ m ∈ p.messages, ∀ n, m.id = .ulid n → n < p.nextUlid
  made : ∀ m ∈ messages, ∀ n, m.id = .ulid n → n < p.nextUlid
  current : ∀ id, p.currentAssistantMsgId = some id → (∃ n, id = .ulid n) ∧
    ∃ msg, p.getMsgById id = some msg ∧ (∃ m ∈ messages, m.id = id) ∧
      ∀ m ∈ messages, m.id = id → m.content.map withoutOutput = msg.content

section

variable {p p' : ProjectorState} {messages messages' : List AppMessage}
  {output : String → List CodeUnits} {id : Ident}

theorem find?_modify_findIdx {α : Type} (q : α → Bool) (g : α → α)
    (keeps : ∀ a, q (g a) = q a) (l : List α) :
    (l.modify (l.findIdx q) g).find? q = (l.find? q).map g := by
  induction l with
  | nil => rfl
  | cons a l ih =>
    by_cases hit : q a = true
    · simp [List.findIdx_cons, hit, keeps]
    · simp [List.findIdx_cons, hit, ih]

theorem getMsgById_modifyContent (p : ProjectorState) (id : Ident)
    (f : List AppMessageContent → List AppMessageContent) :
    (p.modifyContent id f).getMsgById id =
      (p.getMsgById id).map fun msg => { msg with content := f msg.content } := by
  have found := find?_modify_findIdx (fun msg : AppMessage => msg.id == id)
    (fun msg => { msg with content := f msg.content }) (fun _ => rfl) p.messages
  exact found

theorem mem_modifyContent {m : AppMessage} {f : List AppMessageContent → List AppMessageContent}
    (mem : m ∈ (p.modifyContent id f).messages) : ∃ old ∈ p.messages, m.id = old.id := by
  obtain ⟨i, inside, rfl⟩ := List.mem_iff_getElem.1 mem
  simp only [ProjectorState.modifyContent, List.length_modify] at inside
  refine ⟨p.messages[i], List.getElem_mem inside, ?_⟩
  simp only [ProjectorState.modifyContent, List.getElem_modify]
  split <;> rfl

@[simp] theorem toolCallId?_withoutOutput (part : AppMessageContent) :
    part.withoutOutput.toolCallId? = part.toolCallId? := by
  cases part <;> rfl

@[simp] theorem lines_withoutOutput (part : AppMessageContent) :
    part.withoutOutput.lines = [] := by
  cases part <;> rfl

@[simp] theorem withoutOutput_appendToolOutput (toolCallId : String) (chunk : CodeUnits)
    (part : AppMessageContent) :
    (appendToolOutput toolCallId chunk part).withoutOutput = part.withoutOutput := by
  cases part with
  | toolUse =>
    rw [appendToolOutput]
    split <;> rfl
  | _ => rfl

theorem modify_length_append {α : Type} (f : α → α) (init : List α) (a : α) (rest : List α) :
    (init ++ a :: rest).modify init.length f = init ++ f a :: rest := by
  induction init with
  | nil => rfl
  | cons b init ih => simp [ih]

theorem patchAt_last (kind : DeltaKind) (delta : CodeUnits) (init : List AppMessageContent)
    (last : AppMessageContent) :
    patchAt init.length kind delta (init ++ [last]) = init ++ [patch kind delta last] := by
  have missing : init.length + 1 - (init ++ [last]).length = 0 := by simp
  rw [patchAt, missing, List.replicate_zero, List.append_nil, modify_length_append]

theorem patchAt_end (kind : DeltaKind) (delta : CodeUnits) (content : List AppMessageContent) :
    patchAt content.length kind delta content = content ++ [patch kind delta (.text [])] := by
  have missing : content.length + 1 - content.length = 1 := by omega
  rw [patchAt, missing, List.replicate_one, modify_length_append]

/-- A delta continues the last part, or opens a new one. -/
theorem extendContent_cases (kind : DeltaKind) (delta : CodeUnits)
    (content : List AppMessageContent) :
    (∃ init last, content = init ++ [last] ∧ last.toolCallId? = none ∧
      ProjectorState.extendContent kind delta content = init ++ [patch kind delta last]) ∨
    ProjectorState.extendContent kind delta content =
      content ++ [patch kind delta (.text [])] := by
  rcases List.eq_nil_or_concat content with rfl | ⟨init, last, rfl⟩
  · exact .inr (by cases kind <;> rfl)
  · rw [List.concat_eq_append]
    cases last with
    | text =>
      cases kind with
      | text => exact .inl ⟨init, _, rfl, rfl, by simp [ProjectorState.extendContent, patch]⟩
      | thinking => exact .inr (by simp [ProjectorState.extendContent, patch])
    | thinking =>
      cases kind with
      | text => exact .inr (by simp [ProjectorState.extendContent, patch])
      | thinking => exact .inl ⟨init, _, rfl, rfl, by simp [ProjectorState.extendContent, patch]⟩
    | toolUse | toolResult =>
      exact .inr (by cases kind <;> simp [ProjectorState.extendContent, patch])

@[simp] theorem withoutOutput_patch (kind : DeltaKind) (delta : CodeUnits)
    (part : AppMessageContent) : (patch kind delta part).withoutOutput = patch kind delta part := by
  cases part <;> cases kind <;> rfl

@[simp] theorem toolCallId?_patch (kind : DeltaKind) (delta : CodeUnits)
    (part : AppMessageContent) : (patch kind delta part).toolCallId? = none := by
  cases part <;> cases kind <;> rfl

theorem withoutOutput_of_none {part : AppMessageContent} (none : part.toolCallId? = none) :
    part.withoutOutput = part := by
  cases part <;> first | rfl | cases none

/-- The patched content is the one that the projector has extended, but for output, and the calls
in it are as they were. -/
theorem patchAt_extendContent (kind : DeltaKind) (delta : CodeUnits)
    {content log : List AppMessageContent} (synced : content.map withoutOutput = log) :
    (patchAt ((ProjectorState.extendContent kind delta log).length - 1) kind delta content).map
        withoutOutput = ProjectorState.extendContent kind delta log ∧
      ∀ part ∈ patchAt ((ProjectorState.extendContent kind delta log).length - 1) kind delta
        content, part ∈ content ∨ part.toolCallId? = none := by
  rcases extendContent_cases kind delta log with ⟨init, last, rfl, none, extended⟩ | extended
  · obtain ⟨init', rest, rfl, rfl, single⟩ := List.map_eq_append_iff.1 synced
    obtain ⟨last', rfl, rfl⟩ := List.map_eq_singleton_iff.1 single
    rw [toolCallId?_withoutOutput] at none
    rw [withoutOutput_of_none none] at extended ⊢
    have index : (init'.map withoutOutput ++ [patch kind delta last']).length - 1 =
        init'.length := by simp
    rw [extended, index, patchAt_last]
    refine ⟨by simp, fun part mem => ?_⟩
    rcases List.mem_append.1 mem with mem | mem
    · exact .inl (List.mem_append_left _ mem)
    · obtain rfl := List.mem_singleton.1 mem
      exact .inr (toolCallId?_patch _ _ _)
  · subst synced
    have index : (content.map withoutOutput ++ [patch kind delta (.text [])]).length - 1 =
        content.length := by simp
    rw [extended, index, patchAt_end]
    refine ⟨by simp, fun part mem => ?_⟩
    rcases List.mem_append.1 mem with mem | mem
    · exact .inl mem
    · obtain rfl := List.mem_singleton.1 mem
      exact .inr (toolCallId?_patch _ _ _)

theorem getMsgById_congr (same : p'.messages = p.messages) (id : Ident) :
    p'.getMsgById id = p.getMsgById id := by
  rw [ProjectorState.getMsgById, ProjectorState.getMsgById, same]

theorem Synced.quiet (synced : Synced p messages) (same : p'.messages = p.messages)
    (ulids : p.nextUlid ≤ p'.nextUlid)
    (current : ∀ id, p'.currentAssistantMsgId = some id → p.currentAssistantMsgId = some id) :
    Synced p' messages where
  madeLog m mem n eq := Nat.lt_of_lt_of_le (synced.madeLog m (same ▸ mem) n eq) ulids
  made m mem n eq := Nat.lt_of_lt_of_le (synced.made m mem n eq) ulids
  current id now := by
    rw [getMsgById_congr same]
    exact synced.current id (current id now)

variable {extra : List AppMessage} {msg : AppMessage}

theorem getMsgById_append (same : p'.messages = p.messages ++ extra)
    (found : p.getMsgById id = some msg) : p'.getMsgById id = some msg := by
  rw [ProjectorState.getMsgById] at found
  rw [ProjectorState.getMsgById, same, List.find?_append, found, Option.some_or]

theorem Synced.grow (synced : Synced p messages) {extra' : List AppMessage}
    (same : p'.messages = p.messages ++ extra) (ulids : p'.nextUlid = p.nextUlid)
    (current : p'.currentAssistantMsgId = p.currentAssistantMsgId)
    (given : ∀ m ∈ extra, ∃ text, m.id = .given text)
    (given' : ∀ m ∈ extra', ∃ text, m.id = .given text) :
    Synced p' (messages ++ extra') where
  madeLog m mem n eq := by
    rw [same] at mem
    rw [ulids]
    rcases List.mem_append.1 mem with mem | mem
    · exact synced.madeLog m mem n eq
    · obtain ⟨text, made⟩ := given m mem
      rw [made] at eq
      cases eq
  made m mem n eq := by
    rw [ulids]
    rcases List.mem_append.1 mem with mem | mem
    · exact synced.made m mem n eq
    · obtain ⟨text, made⟩ := given' m mem
      rw [made] at eq
      cases eq
  current id now := by
    rw [current] at now
    obtain ⟨⟨n, rfl⟩, msg, found, ⟨m, mem, own⟩, all⟩ := synced.current id now
    refine ⟨⟨n, rfl⟩, msg, getMsgById_append same found, ⟨m, List.mem_append_left _ mem, own⟩, ?_⟩
    intro m mem own
    rcases List.mem_append.1 mem with mem | mem
    · exact all m mem own
    · obtain ⟨text, made⟩ := given' m mem
      rw [made] at own
      cases own

theorem Synced.push (synced : Synced p messages) {n : ℕ} (same : p'.messages = p.messages ++ [msg])
    (own : msg.id = .ulid n) (fresh : p.nextUlid ≤ n) (ulids : n < p'.nextUlid)
    (empty : msg.content.map withoutOutput = msg.content)
    (current : ∀ id, p'.currentAssistantMsgId = some id → id = msg.id) :
    Synced p' (messages ++ [msg]) where
  madeLog m mem k eq := by
    rw [same] at mem
    rcases List.mem_append.1 mem with mem | mem
    · exact Nat.lt_trans (synced.madeLog m mem k eq) (Nat.lt_of_le_of_lt fresh ulids)
    · rw [List.mem_singleton.1 mem, own] at eq
      cases eq
      exact ulids
  made m mem k eq := by
    rcases List.mem_append.1 mem with mem | mem
    · exact Nat.lt_trans (synced.made m mem k eq) (Nat.lt_of_le_of_lt fresh ulids)
    · rw [List.mem_singleton.1 mem, own] at eq
      cases eq
      exact ulids
  current id now := by
    obtain rfl := current id now
    refine ⟨⟨n, own⟩, msg, ?_, ⟨msg, List.mem_append_right _ (List.mem_singleton_self _), rfl⟩, ?_⟩
    · have none : p.messages.find? (·.id == msg.id) = none := by
        refine List.find?_eq_none.2 fun m mem same => ?_
        have lt := synced.madeLog m mem n (by simpa [own] using same)
        omega
      rw [ProjectorState.getMsgById, same, List.find?_append, none]
      simp
    · intro m mem eq
      rcases List.mem_append.1 mem with mem | mem
      · have lt := synced.made m mem n (eq.trans own)
        omega
      · rw [List.mem_singleton.1 mem, empty]

theorem Synced.modify (synced : Synced p messages) (now : p.currentAssistantMsgId = some id)
    (log : p.getMsgById id = some msg) (f g : List AppMessageContent → List AppMessageContent)
    (follows : ∀ m ∈ messages, m.id = id → (g m.content).map withoutOutput = f msg.content) :
    Synced (p.modifyContent id f)
      (messages.map fun m => if m.id ≠ id then m else { m with content := g m.content }) := by
  have ids (m : AppMessage) :
      (if m.id ≠ id then m else { m with content := g m.content }).id = m.id := by
    split <;> rfl
  refine ⟨fun m mem n eq => ?_, fun m mem n eq => ?_, fun id' now' => ?_⟩
  · obtain ⟨old, mem, same⟩ := mem_modifyContent mem
    exact synced.madeLog old mem n (same ▸ eq)
  · obtain ⟨old, inside, rfl⟩ := List.mem_map.1 mem
    exact synced.made old inside n (ids old ▸ eq)
  · obtain rfl : id = id' := Option.some.inj (now.symm.trans now')
    obtain ⟨made, msg', log', ⟨m, mem, own⟩, -⟩ := synced.current id now
    obtain rfl : msg = msg' := Option.some.inj (log.symm.trans log')
    refine ⟨made, { msg with content := f msg.content }, ?_, ?_, fun m mem own => ?_⟩
    · rw [getMsgById_modifyContent, log, Option.map_some]
    · exact ⟨_, List.mem_map_of_mem mem, (ids m).trans own⟩
    · obtain ⟨old, inside, rfl⟩ := List.mem_map.1 mem
      rw [ids] at own
      rw [if_neg (not_not_intro own)]
      exact follows old inside own

theorem Synced.printed (synced : Synced p messages) (toolCallId : String) (chunk : CodeUnits) :
    Synced p (messages.map fun m =>
      { m with content := m.content.map (appendToolOutput toolCallId chunk) }) where
  madeLog := synced.madeLog
  made m mem n eq := by
    obtain ⟨old, inside, rfl⟩ := List.mem_map.1 mem
    exact synced.made old inside n eq
  current id now := by
    obtain ⟨made, msg, log, ⟨m, mem, own⟩, all⟩ := synced.current id now
    refine ⟨made, msg, log, ⟨_, List.mem_map_of_mem mem, own⟩, fun m mem own => ?_⟩
    obtain ⟨old, inside, rfl⟩ := List.mem_map.1 mem
    rw [← all old inside own, List.map_map]
    exact List.map_congr_left fun part _ => withoutOutput_appendToolOutput _ _ part

/-! ## The lines -/

theorem Complete.push (complete : Complete messages output)
    (silent : ∀ m ∈ extra, ∀ part ∈ m.content, part.toolCallId? = none) :
    Complete (messages ++ extra) output := by
  intro m mem part inside id call
  rcases List.mem_append.1 mem with mem | mem
  · exact complete m mem part inside id call
  · rw [silent m mem part inside] at call
    cases call

theorem Complete.patch (complete : Complete messages output) {log : List AppMessageContent}
    (synced : ∀ m ∈ messages, m.id = id → m.content.map withoutOutput = log) (kind : DeltaKind)
    (delta : CodeUnits) :
    let index := (ProjectorState.extendContent kind delta log).length - 1
    Complete (messages.map fun m => if m.id ≠ id then m
      else { m with content := patchAt index kind delta m.content }) output := by
  intro index m mem part inside call named
  obtain ⟨old, mem', rfl⟩ := List.mem_map.1 mem
  split at inside
  case isTrue => exact complete old mem' part inside call named
  case isFalse own =>
    rcases (patchAt_extendContent kind delta (synced old mem' (not_not.1 own))).2 part inside with
      inside | none
    · exact complete old mem' part inside call named
    · rw [none] at named
      cases named

theorem Complete.printed (complete : Complete messages output) (toolCallId : String)
    (chunk : CodeUnits) :
    Complete (messages.map fun m =>
        { m with content := m.content.map (appendToolOutput toolCallId chunk) })
      (Function.update output toolCallId (output toolCallId ++ [chunk])) := by
  intro m mem part inside call named
  obtain ⟨old, mem', rfl⟩ := List.mem_map.1 mem
  obtain ⟨part, inside', rfl⟩ := List.mem_map.1 inside
  have before := complete old mem' part inside'
  cases part with
  | toolUse id toolName input outputLines =>
    have lines : outputLines.getD [] = output id := before id rfl
    rw [appendToolOutput] at named ⊢
    by_cases other : id ≠ toolCallId
    · rw [if_pos other] at named ⊢
      obtain rfl : id = call := Option.some.inj named
      rw [Function.update_of_ne other]
      exact lines
    · rw [if_neg other] at named ⊢
      obtain rfl : id = call := Option.some.inj named
      obtain rfl : id = toolCallId := not_not.1 other
      rw [Function.update_self, ← lines]
      rfl
  | _ => cases named

theorem Complete.publish (complete : Complete messages output)
    (shown : ∃ m ∈ messages, m.id = id) {content : List AppMessageContent}
    (bare : content.map withoutOutput = content) :
    Complete (messages.map fun m => if m.id ≠ id then m else { m with content }) output ↔
      ∀ call ∈ content.filterMap toolCallId?, output call = [] := by
  have lines : ∀ part ∈ content, part.lines = [] := by
    intro part inside
    rw [← bare, List.mem_map] at inside
    obtain ⟨part, -, rfl⟩ := inside
    exact lines_withoutOutput part
  constructor
  · intro complete call mem
    obtain ⟨m, mem', own⟩ := shown
    obtain ⟨part, inside, named⟩ := List.mem_filterMap.1 mem
    rw [← complete { m with content } (List.mem_map.2 ⟨m, mem', if_neg (not_not_intro own)⟩) part
      inside call named]
    exact lines part inside
  · intro none m mem part inside call named
    obtain ⟨old, mem', rfl⟩ := List.mem_map.1 mem
    split at inside
    case isTrue => exact complete old mem' part inside call named
    case isFalse =>
      rw [lines part inside]
      exact (none call (List.mem_filterMap.2 ⟨part, inside, named⟩)).symm

/-! ## Events -/

variable {ms : Option (List AppMessage)}

/-- What an event leaves: the copies in step, and the lines complete under a condition. -/
def Leaves (p : ProjectorState) (ms : Option (List AppMessage)) (output : String → List CodeUnits)
    (condition : Prop) : Prop :=
  Synced p (ms.getD []) ∧ (Complete (ms.getD []) output ↔ condition)

theorem Leaves.of_complete (synced : Synced p (ms.getD []))
    (complete : Complete (ms.getD []) output) {condition : Prop} (met : condition) :
    Leaves p ms output condition :=
  ⟨synced, iff_of_true complete met⟩

theorem modifyContent_self (p : ProjectorState) (id : Ident) :
    p.modifyContent id (fun content => content) = p := by
  have same : p.messages.modify (p.messages.findIdx (·.id == id))
      (fun msg => { msg with content := msg.content }) = p.messages := List.modify_id _ _
  rw [ProjectorState.modifyContent, same]

theorem leaves_publish (synced : Synced p (ms.getD [])) (complete : Complete (ms.getD []) output)
    (now : p.currentAssistantMsgId = some id) (log : p.getMsgById id = some msg)
    (f : List AppMessageContent → List AppMessageContent)
    (bare : msg.content.map withoutOutput = msg.content →
      (f msg.content).map withoutOutput = f msg.content)
    (status : MessageStatus) (durationMs : Option ℕ) :
    Leaves (p.modifyContent id f)
      (((p.modifyContent id f).updatedMessage status durationMs).foldl reduce ms) output
      (∀ call ∈ (f msg.content).filterMap toolCallId?, output call = []) := by
  obtain ⟨-, msg', log', shown, all⟩ := synced.current id now
  obtain rfl : msg = msg' := Option.some.inj (log.symm.trans log')
  have bare : (f msg.content).map withoutOutput = f msg.content := by
    obtain ⟨m, mem, own⟩ := shown
    refine bare ?_
    rw [← all m mem own, List.map_map]
    exact List.map_congr_left fun part _ => by cases part <;> rfl
  have published : (p.modifyContent id f).updatedMessage status durationMs =
      [.messageUpdated id (f msg.content) status durationMs] := by
    have now' : (p.modifyContent id f).currentAssistantMsgId = some id := now
    rw [ProjectorState.updatedMessage, now']
    dsimp only
    rw [getMsgById_modifyContent, log, Option.map_some]
  rw [published]
  exact ⟨synced.modify now log f (fun _ => f msg.content) fun _ _ _ => bare,
    complete.publish shown bare⟩

theorem leaves_updatedMessage (synced : Synced p (ms.getD []))
    (complete : Complete (ms.getD []) output) (status : MessageStatus) (durationMs : Option ℕ) :
    Leaves p ((p.updatedMessage status durationMs).foldl reduce ms) output
      (∀ call ∈ openCalls p, output call = []) := by
  cases now : p.currentAssistantMsgId with
  | none =>
    have none : p.updatedMessage status durationMs = [] ∧ openCalls p = [] := by
      simp [ProjectorState.updatedMessage, openCalls, now]
    rw [none.1, none.2]
    exact .of_complete synced complete fun _ mem => nomatch mem
  | some id =>
    obtain ⟨-, msg, log, -⟩ := synced.current id now
    have leaves := leaves_publish synced complete now log (fun content => content)
      (fun bare => bare) status durationMs
    rw [modifyContent_self] at leaves
    simpa only [openCalls, now, log] using leaves

theorem Leaves.quiet {condition : Prop} (leaves : Leaves p ms output condition)
    (same : p'.messages = p.messages) (ulids : p.nextUlid ≤ p'.nextUlid)
    (current : ∀ id, p'.currentAssistantMsgId = some id → p.currentAssistantMsgId = some id) :
    Leaves p' ms output condition :=
  ⟨leaves.1.quiet same ulids current, leaves.2⟩

theorem leaves_created (synced : Synced p (ms.getD [])) (complete : Complete (ms.getD []) output)
    {n : ℕ} (same : p'.messages = p.messages ++ [msg]) (own : msg.id = .ulid n)
    (fresh : p.nextUlid ≤ n) (ulids : n < p'.nextUlid)
    (silent : ∀ part ∈ msg.content, part.toolCallId? = none)
    (current : ∀ id, p'.currentAssistantMsgId = some id → id = msg.id) :
    Leaves p' (reduce ms (.messageCreated msg)) output True := by
  have new : ((ms.getD []).any fun m => m.id == msg.id) = false := by
    refine List.any_eq_false.2 fun m mem same => ?_
    have lt := synced.made m mem n (by simpa [own] using same)
    omega
  have created : reduce ms (.messageCreated msg) = some (ms.getD [] ++ [msg]) := by
    rw [reduce, new]
    rfl
  rw [created]
  refine .of_complete (synced.push same own fresh ulids ?_ current) (complete.push ?_) trivial
  · exact (List.map_congr_left fun part inside => withoutOutput_of_none (silent part inside)).trans
      (List.map_id _)
  · intro m mem
    rw [List.mem_singleton.1 mem]
    exact silent

theorem leaves_delta (synced : Synced p (ms.getD [])) (complete : Complete (ms.getD []) output)
    (kind : DeltaKind) (delta : CodeUnits) (offset : Option ℕ) :
    Leaves (p.projectDelta kind delta offset).1
      ((p.projectDelta kind delta offset).2.foldl reduce ms) output True := by
  have dropped : Leaves p ms output True := .of_complete synced complete trivial
  cases now : p.currentAssistantMsgId with
  | none =>
    rw [ProjectorState.projectDelta_closed now]
    exact dropped
  | some id =>
    rw [ProjectorState.projectDelta, now]
    dsimp only
    by_cases empty : delta = []
    · rw [if_pos empty]
      exact dropped
    rw [if_neg empty]
    -- the expected offset may be set to zero first
    generalize start : (if offset = some 0 ∧ p.turnLen kind > 0 then p.setTurnLen kind 0 else p) = q
    have same : q.messages = p.messages ∧ q.nextUlid = p.nextUlid ∧
        q.currentAssistantMsgId = p.currentAssistantMsgId := by
      subst start
      split <;> simp
    have synced' : Synced q (ms.getD []) :=
      synced.quiet same.1 (Nat.le_of_eq same.2.1.symm) fun id now => same.2.2 ▸ now
    have dropped : Leaves q ms output True := .of_complete synced' complete trivial
    cases ProjectorState.alignDelta (q.turnLen kind) offset with
    | skip => exact dropped
    | gap => exact dropped
    | append =>
      have now' := same.2.2.trans now
      obtain ⟨-, msg, log, -, all⟩ := synced'.current id now'
      dsimp only [ProjectorState.appendAssistantDelta]
      rw [log]
      refine Leaves.quiet (p := q.modifyContent id (ProjectorState.extendContent kind delta)) ?_
        (by simp) (by simp) (fun id now => by simpa using now)
      refine ⟨?_, iff_of_true (complete.patch all kind delta) trivial⟩
      exact synced'.modify now' log _ _ fun m mem own =>
        (patchAt_extendContent kind delta (all m mem own)).1

theorem leaves_toolCallStarted (synced : Synced p (ms.getD []))
    (complete : Complete (ms.getD []) output) (turnId : ℕ) (toolCallId name : String)
    (args : Option Json) (description : Option String) (display : Option Json)
    (offset : Option ℕ) :
    let projected :=
      p.projectMain (.toolCallStarted turnId toolCallId name args description display) offset
    Leaves projected.1 (projected.2.foldl reduce ms) output
      (takesUp p turnId → ∀ id ∈ openCalls p ++ [toolCallId], output id = []) := by
  have dropped (taken : takesUp p turnId = false) : Leaves p ms output
      (takesUp p turnId → ∀ id ∈ openCalls p ++ [toolCallId], output id = []) :=
    .of_complete synced complete fun taken' => by
      rw [taken] at taken'
      cases taken'
  dsimp only [ProjectorState.projectMain]
  split
  case h_2 other =>
    refine dropped ?_
    rw [takesUp]
    cases now : p.currentAssistantMsgId with
    | none => rfl
    | some id =>
      cases bound : p.turnPromptId turnId <|> p.currentPromptId with
      | none => rfl
      | some promptId => exact absurd bound (other id promptId now)
  case h_1 id promptId now bound =>
    have taken : takesUp p turnId = promptId.truthy := by
      rw [takesUp, now, bound]
      rfl
    cases truthy : promptId.truthy with
    | false => exact dropped (taken.trans truthy)
    | true =>
      obtain ⟨-, msg, log, -⟩ := synced.current id now
      have leaves := leaves_publish synced complete now log
        (· ++ [.toolUse toolCallId name (args.getD (.object [])) none])
        (fun bare => by rw [List.map_append, bare]; rfl) .pending none
      refine ⟨leaves.1, leaves.2.trans ?_⟩
      rw [taken, truthy, openCalls, now]
      dsimp only
      rw [log, List.filterMap_append]
      exact ⟨fun all _ => all, fun all => all rfl⟩

theorem leaves_toolProgress (synced : Synced p (ms.getD []))
    (complete : Complete (ms.getD []) output) (turnId : ℕ) (toolCallId : String)
    (update : ToolUpdate) (offset : Option ℕ) :
    let projected := p.projectMain (.toolProgress turnId toolCallId update) offset
    Leaves projected.1 (projected.2.foldl reduce ms)
      (collect output (.frame ⟨MAIN_AGENT_ID, .toolProgress turnId toolCallId update⟩ offset))
      (toolCallId = "" → update.text.getD [] ≠ [] →
        ∀ m ∈ ms.getD [], ∀ part ∈ m.content, part.toolCallId? ≠ some "") := by
  dsimp only [ProjectorState.projectMain, collect]
  by_cases chunk : update.text.getD [] = []
  · rw [if_neg (by simp [chunk]), if_neg (by simp [chunk])]
    exact .of_complete synced complete fun _ some' => absurd chunk some'
  rw [if_pos (show MAIN_AGENT_ID = MAIN_AGENT_ID ∧ update.text.getD [] ≠ [] from ⟨rfl, chunk⟩)]
  by_cases named : toolCallId = ""
  · subst named
    rw [if_neg (by simp)]
    refine ⟨synced, fun complete' _ _ m mem part inside call => ?_, fun none m mem part inside id
      call => ?_⟩
    · have lines := complete' m mem part inside "" call
      rw [complete m mem part inside "" call, Function.update_self] at lines
      simp at lines
    · have other : id ≠ "" := by
        rintro rfl
        exact none rfl chunk m mem part inside call
      rw [Function.update_of_ne other]
      exact complete m mem part inside id call
  · rw [if_pos ⟨named, chunk⟩]
    exact ⟨synced.printed toolCallId _, iff_of_true (complete.printed toolCallId _)
      fun empty => absurd empty named⟩

theorem leaves_projectMain (synced : Synced p (ms.getD []))
    (complete : Complete (ms.getD []) output) (event : TurnEvent) (offset : Option ℕ) :
    Leaves (p.projectMain event offset).1 ((p.projectMain event offset).2.foldl reduce ms)
      (collect output (.frame ⟨MAIN_AGENT_ID, event⟩ offset))
      (Timely ⟨p, ms, output⟩ (.frame ⟨MAIN_AGENT_ID, event⟩ offset)) := by
  have still : Leaves p ms output True := .of_complete synced complete trivial
  have resolved (turnId : ℕ) := ProjectorState.resolvePromptId_sameLog p turnId
  simp only [Timely, forall_const]
  cases event with
  | turnStarted =>
    cases bound : p.currentPromptId <;> simp only [ProjectorState.projectMain, bound]
    · exact still.quiet rfl (Nat.le_succ _) fun _ now => now
    · exact still.quiet rfl le_rfl fun _ now => now
  | turnEnded turnId reason durationMs =>
    dsimp only [ProjectorState.projectMain]
    rw [List.foldl_append]
    exact (leaves_updatedMessage synced complete _ durationMs).quiet rfl le_rfl
      fun _ now => by cases now
  | stepStarted turnId =>
    exact leaves_created synced complete
      (congrArg (· ++ _) (resolved turnId).messages) rfl (resolved turnId).ulids
      (Nat.lt_succ_self _)
      (fun _ mem => by cases mem) (fun _ now => (Option.some.inj now).symm)
  | stepCompleted turnId usage =>
    have same : Synced (p.addUsage usage) (ms.getD []) :=
      synced.quiet rfl le_rfl fun _ now => now
    exact leaves_updatedMessage same complete .completed none
  | stepRetrying turnId | stepInterrupted turnId =>
    exact still.quiet rfl le_rfl fun _ now => by cases now
  | delta kind turnId delta => exact leaves_delta synced complete kind delta offset
  | toolCallStarted turnId toolCallId name args description display =>
    exact leaves_toolCallStarted synced complete turnId toolCallId name args description display
      offset
  | toolCallDelta turnId toolCallId | promptCompleted => exact still
  | toolProgress turnId toolCallId update =>
    exact leaves_toolProgress synced complete turnId toolCallId update offset
  | toolResult turnId =>
    refine leaves_created synced complete
      (congrArg (· ++ _) (resolved turnId).messages) rfl (resolved turnId).ulids
      (Nat.lt_succ_self _)
      (fun part mem => ?_) (fun _ now => by cases now)
    rw [List.mem_singleton.1 mem]
    rfl
  | statusUpdated =>
    exact still.quiet rfl le_rfl fun _ now => now

theorem foldl_reduce_projectOther (sideChannel : String → Bool) (e : AgentEvent)
    (ms : Option (List AppMessage)) :
    (ProjectorState.projectOther sideChannel e).foldl reduce ms = ms := by
  rw [ProjectorState.projectOther]
  split
  · split
    · split <;> rfl
    · rfl
    · rfl
  · rfl

theorem collect_other {e : AgentEvent} (other : e.agentId ≠ MAIN_AGENT_ID) (offset : Option ℕ) :
    collect output (.frame e offset) = output := by
  obtain ⟨agentId, event⟩ := e
  cases event <;> simp_all [collect]

theorem leaves_given (synced : Synced p (ms.getD [])) (complete : Complete (ms.getD []) output)
    {extra' : List AppMessage} (same : p'.messages = p.messages ++ extra)
    (ulids : p'.nextUlid = p.nextUlid)
    (current : p'.currentAssistantMsgId = p.currentAssistantMsgId)
    (given : ∀ m ∈ extra, ∃ text, m.id = .given text)
    (given' : ∀ m ∈ extra', ∃ text, m.id = .given text)
    (silent : ∀ m ∈ extra', ∀ part ∈ m.content, part.toolCallId? = none) :
    Leaves p' (some (ms.getD [] ++ extra')) output True :=
  ⟨synced.grow same ulids current given given', iff_of_true (complete.push silent) trivial⟩

theorem leaves_step {sideChannel : String → Bool} {s t : Transcript} {event : RawEvent}
    (synced : Synced s.projector s.shown) (complete : Complete s.shown s.output)
    (next : step sideChannel s event = some t) :
    Leaves t.projector t.messages t.output (Timely s event) := by
  cases event with
  | frame e offset =>
    have left : t = {
        projector := (s.projector.project sideChannel e offset).1
        messages := (s.projector.project sideChannel e offset).2.foldl reduce s.messages
        output := collect s.output (.frame e offset) } := (Option.some.inj next).symm
    rw [left]
    by_cases main : e.agentId = MAIN_AGENT_ID
    · obtain ⟨agentId, event⟩ := e
      obtain rfl : agentId = MAIN_AGENT_ID := main
      rw [ProjectorState.project_main]
      exact leaves_projectMain synced complete event offset
    · have same : s.projector.project sideChannel e offset =
          (s.projector, ProjectorState.projectOther sideChannel e) := if_pos main
      rw [same]
      rw [foldl_reduce_projectOther, collect_other main]
      exact .of_complete synced complete fun main' => absurd main' main
  | promptSubmitted promptId userMessageId texts media =>
    have left : t = {
        projector := (s.projector.promptSubmitted promptId userMessageId texts media).1
        messages := (s.projector.promptSubmitted promptId userMessageId texts media).2.foldl reduce
          s.messages
        output := s.output } := (Option.some.inj next).symm
    rw [left]
    dsimp only [ProjectorState.promptSubmitted]
    split
    case isTrue => exact .of_complete synced complete trivial
    case isFalse =>
      dsimp only [List.foldl_cons, List.foldl_nil, reduce]
      split
      case isTrue =>
        refine .of_complete ?_ complete trivial
        rw [← List.append_nil (s.messages.getD [])]
        refine synced.grow rfl rfl rfl (fun m mem => ?_) (fun _ mem => nomatch mem)
        exact ⟨userMessageId, by rw [List.mem_singleton.1 mem]⟩
      case isFalse =>
        refine leaves_given synced complete rfl rfl rfl (fun m mem => ?_) (fun m mem => ?_)
          (fun m mem part inside => ?_)
        · exact ⟨userMessageId, by rw [List.mem_singleton.1 mem]⟩
        · exact ⟨userMessageId, by rw [List.mem_singleton.1 mem]⟩
        · rw [List.mem_singleton.1 mem, List.mem_map] at inside
          obtain ⟨text, -, rfl⟩ := inside
          rfl
  | compactionCompleted markerId summary =>
    have left : t = { s with messages := mark s.messages markerId summary } :=
      (Option.some.inj next).symm
    rw [left]
    dsimp only [mark]
    cases loaded : s.messages with
    | none =>
      rw [shown, loaded] at synced complete
      exact .of_complete synced complete trivial
    | some =>
      rw [shown, loaded] at synced complete
      rw [Option.map_some]
      split
      case isTrue => exact .of_complete synced complete trivial
      case isFalse =>
        refine leaves_given synced complete (List.append_nil _).symm rfl rfl
          (fun m mem => nomatch mem) (fun m mem => ?_) (fun m mem part inside => ?_)
        · exact ⟨markerId, by rw [List.mem_singleton.1 mem]⟩
        · rw [List.mem_singleton.1 mem] at inside
          split at inside
          · cases inside
          · rw [List.mem_singleton.1 inside]
            rfl

/-- While no message is published anew after one of its calls has had output, the lines of every
call are its chunks so far; the next event keeps that exactly if it publishes none. -/
theorem complete_iff_timely {sideChannel : String → Bool} {events : List RawEvent} {s : Transcript}
    (run : Run (step sideChannel) Timely {} events s) :
    Complete s.shown s.output ∧
      ∀ event t, step sideChannel s event = some t →
        (Complete t.shown t.output ↔ Timely s event) := by
  have inv : Synced s.projector s.shown ∧ Complete s.shown s.output := by
    refine run.invariant (fun s => Synced s.projector s.shown ∧ Complete s.shown s.output)
      ⟨⟨?_, ?_, ?_⟩, ?_⟩ fun s event t inv timely next => ?_
    · exact fun _ mem => nomatch mem
    · exact fun _ mem => nomatch mem
    · exact fun _ now => nomatch now
    · exact fun _ mem => nomatch mem
    · have leaves := leaves_step inv.1 inv.2 next
      exact ⟨leaves.1, leaves.2.2 timely⟩
  exact ⟨inv.2, fun event t next => (leaves_step inv.1 inv.2 next).2⟩

/-- A frame of the main agent without an offset. -/
def mainFrame (event : TurnEvent) : RawEvent := .frame ⟨MAIN_AGENT_ID, event⟩ none

def startFrame (toolCallId : String) : RawEvent :=
  mainFrame (.toolCallStarted 1 toolCallId "Bash" none none none)

def progressFrame (toolCallId : String) : RawEvent :=
  mainFrame (.toolProgress 1 toolCallId { kind := .stdout, text := some [120] })

/-- Both calls start before the first output. -/
def parallelEvents : List RawEvent :=
  [mainFrame (.turnStarted 1), mainFrame (.stepStarted 1), startFrame "a", startFrame "b",
    progressFrame "b", progressFrame "a"]

theorem complete_iff_timely_parallel : ∃ s,
    exec (step fun _ => false) {} parallelEvents = some s ∧ Complete s.shown s.output := by
  obtain ⟨s, ran, run⟩ : ∃ s, exec (step fun _ => false) {} parallelEvents = some s ∧
      Run (step fun _ => false) Timely {} parallelEvents s := by
    refine ⟨_, rfl, .cons ?_ rfl (.cons ?_ rfl (.cons ?_ rfl (.cons ?_ rfl (.cons ?_ rfl
      (.cons ?_ rfl .nil)))))⟩
    · exact fun _ => trivial
    · exact fun _ => trivial
    · exact fun _ _ _ _ => rfl
    · exact fun _ _ _ _ => rfl
    · exact fun _ empty => nomatch empty
    · exact fun _ empty => nomatch empty
  exact ⟨s, ran, (complete_iff_timely run).1⟩

/-- The start of the second call takes the output of the first one away. -/
theorem output_lost : ¬ ∀ sideChannel events s, Run (step sideChannel) Always {} events s →
    Complete s.shown s.output := by
  intro all
  have complete := all (fun _ => false) [mainFrame (.turnStarted 1), mainFrame (.stepStarted 1),
    startFrame "a", progressFrame "a", startFrame "b"] _
    (.cons trivial rfl (.cons trivial rfl (.cons trivial rfl (.cons trivial rfl
      (.cons trivial rfl .nil)))))
  have lines := complete _ (List.mem_singleton_self _) _ List.mem_cons_self "a" rfl
  cases lines

end

end Transcript

end KimiCli
