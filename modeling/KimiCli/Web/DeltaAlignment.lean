import KimiCli.Web.AgentProjector
import Mathlib.Data.Nat.Find

/-!
# Snapshot and live deltas

A client that is seeded with the snapshot of a turn and then receives the turn's frames, some of
which the snapshot already contains.  The offsets of the server count the text of the turn; what the
client shows is compared with it after every frame.
-/

namespace KimiCli

/-! ## What the log shows -/

/-- The part of a stream in one piece of content. -/
def AppMessageContent.shows (kind : DeltaKind) : AppMessageContent → CodeUnits
  | .text piece => if kind = .text then piece else []
  | .thinking piece => if kind = .thinking then piece else []
  | _ => []

def AppMessage.shows (kind : DeltaKind) (msg : AppMessage) : CodeUnits :=
  if msg.role = .assistant then msg.content.flatMap (AppMessageContent.shows kind) else []

namespace ProjectorState

/-- All the text of a stream in the assistant messages, in order. -/
def shown (s : ProjectorState) (kind : DeltaKind) : CodeUnits :=
  s.messages.flatMap (AppMessage.shows kind)

theorem shows_extendContent (kind : DeltaKind) (delta : CodeUnits)
    (content : List AppMessageContent) (other : DeltaKind) :
    (extendContent kind delta content).flatMap (AppMessageContent.shows other) =
      content.flatMap (AppMessageContent.shows other) ++ if other = kind then delta else [] := by
  rcases List.eq_nil_or_concat content with rfl | ⟨init, last, rfl⟩
  · cases kind <;> cases other <;> simp [extendContent, AppMessageContent.shows]
  · cases kind <;> cases other <;> cases last <;>
      simp [extendContent, AppMessageContent.shows]

/-- The ids in the log are made by `ulid`, and the current assistant message is its last entry. -/
structure WellFormed (s : ProjectorState) : Prop where
  made : ∀ msg ∈ s.messages, ∃ n < s.nextUlid, msg.id = .ulid n
  current : ∀ id, s.currentAssistantMsgId = some id → ∃ init last,
    s.messages = init ++ [last] ∧ last.id = id ∧ last.role = .assistant ∧
      ∀ msg ∈ init, msg.id ≠ id

theorem getMsgById_last {s : ProjectorState} {init : List AppMessage} {last : AppMessage}
    (log : s.messages = init ++ [last]) (unique : ∀ msg ∈ init, msg.id ≠ last.id) :
    s.getMsgById last.id = some last := by
  have none : init.find? (·.id == last.id) = none :=
    List.find?_eq_none.2 fun msg mem => by simpa using unique msg mem
  simp [getMsgById, log, List.find?_append, none]

theorem modifyContent_last {s : ProjectorState} {init : List AppMessage} {last : AppMessage}
    (log : s.messages = init ++ [last]) (unique : ∀ msg ∈ init, msg.id ≠ last.id)
    (f : List AppMessageContent → List AppMessageContent) :
    s.modifyContent last.id f =
      { s with messages := init ++ [{ last with content := f last.content }] } := by
  have index : (init ++ [last]).findIdx (·.id == last.id) = init.length := by
    rw [List.findIdx_append, List.findIdx_eq_length_of_false]
    · simp
    · simpa using unique
  simp only [modifyContent, log, index]
  congr 1
  rw [List.modify_eq_take_cons_drop (by simp)]
  simp

/-- A change of the content of the current message that adds `added` at its end. -/
theorem modifyContent_spec {s : ProjectorState} (wf : s.WellFormed) {id : Ident}
    (current : s.currentAssistantMsgId = some id)
    (f : List AppMessageContent → List AppMessageContent) (added : DeltaKind → CodeUnits)
    (adds : ∀ kind content, (f content).flatMap (AppMessageContent.shows kind) =
      content.flatMap (AppMessageContent.shows kind) ++ added kind) :
    (s.modifyContent id f).WellFormed ∧
      ∀ kind, (s.modifyContent id f).shown kind = s.shown kind ++ added kind := by
  obtain ⟨init, last, log, rfl, role, unique⟩ := wf.current id current
  rw [modifyContent_last log unique]
  refine ⟨⟨fun msg mem => ?_, fun id' eq => ?_⟩, fun kind => ?_⟩
  · rcases List.mem_append.1 mem with old | new
    · exact wf.made msg (log ▸ List.mem_append_left _ old)
    · obtain rfl := List.mem_singleton.1 new
      exact wf.made last (log ▸ List.mem_append_right _ (List.mem_singleton_self _))
  · obtain rfl : last.id = id' := Option.some.inj (current.symm.trans eq)
    exact ⟨init, _, rfl, rfl, role, unique⟩
  · simp [shown, log, AppMessage.shows, role, adds]

/-! ## What the frames do -/

/-- Two states show the same text and expect the same offsets. -/
structure SameText (s t : ProjectorState) : Prop where
  shown : ∀ kind, t.shown kind = s.shown kind
  len : ∀ kind, t.turnLen kind = s.turnLen kind

theorem SameText.refl (s : ProjectorState) : SameText s s := ⟨fun _ => rfl, fun _ => rfl⟩

theorem SameText.trans {s t u : ProjectorState} (first : SameText s t) (second : SameText t u) :
    SameText s u :=
  ⟨fun kind => (second.shown kind).trans (first.shown kind),
    fun kind => (second.len kind).trans (first.len kind)⟩

/-- Nothing but ids and the bindings of prompts changes. -/
structure SameLog (s t : ProjectorState) : Prop where
  messages : t.messages = s.messages
  current : t.currentAssistantMsgId = s.currentAssistantMsgId
  ulids : s.nextUlid ≤ t.nextUlid
  len : ∀ kind, t.turnLen kind = s.turnLen kind

theorem SameLog.sameText {s t : ProjectorState} (same : SameLog s t) : SameText s t :=
  ⟨fun kind => by rw [shown, shown, same.messages], same.len⟩

theorem SameLog.wellFormed {s t : ProjectorState} (same : SameLog s t) (wf : s.WellFormed) :
    t.WellFormed where
  made msg mem := by
    obtain ⟨n, below, eq⟩ := wf.made msg (same.messages ▸ mem)
    exact ⟨n, Nat.lt_of_lt_of_le below same.ulids, eq⟩
  current id eq := by
    rw [same.messages]
    exact wf.current id (same.current ▸ eq)

theorem resolvePromptId_sameLog (s : ProjectorState) (turnId : ℕ) :
    SameLog s (s.resolvePromptId turnId).1 := by
  have made : SameLog s (resolvePromptId.synthesize turnId s).1 :=
    ⟨rfl, rfl, Nat.le_succ _, fun kind => by cases kind <;> rfl⟩
  have same : SameLog s s := ⟨rfl, rfl, Nat.le_refl _, fun _ => rfl⟩
  unfold resolvePromptId
  split
  · split
    · exact same
    · exact made
  · exact made

/-- A message pushed behind a well-formed log, with nothing to show. -/
theorem push_spec {s t : ProjectorState} (wf : s.WellFormed) (msg : AppMessage)
    (fresh : msg.id = .ulid s.nextUlid) (silent : ∀ kind, msg.shows kind = [])
    (log : t.messages = s.messages ++ [msg]) (ulids : t.nextUlid = s.nextUlid + 1)
    (len : ∀ kind, t.turnLen kind = s.turnLen kind)
    (current : t.currentAssistantMsgId = none ∨
      t.currentAssistantMsgId = some msg.id ∧ msg.role = .assistant) :
    t.WellFormed ∧ SameText s t := by
  refine ⟨⟨fun m mem => ?_, fun id eq => ?_⟩, fun kind => ?_, len⟩
  · rw [log] at mem
    rcases List.mem_append.1 mem with old | new
    · obtain ⟨n, below, eq⟩ := wf.made m old
      exact ⟨n, by omega, eq⟩
    · obtain rfl := List.mem_singleton.1 new
      exact ⟨s.nextUlid, by omega, fresh⟩
  · rcases current with none | ⟨open_, role⟩
    · rw [none] at eq
      cases eq
    · obtain rfl : msg.id = id := Option.some.inj (open_.symm.trans eq)
      refine ⟨s.messages, msg, log, rfl, role, fun m old same => ?_⟩
      obtain ⟨n, below, eq'⟩ := wf.made m old
      rw [fresh, eq'] at same
      cases same
      exact Nat.lt_irrefl _ below
  · simp [shown, log, silent]

end ProjectorState

/-- Whether an assistant message is open after a frame, `now` before it. -/
def AgentEvent.opens (now : Bool) (e : AgentEvent) : Bool :=
  if e.agentId ≠ MAIN_AGENT_ID then now
  else
    match e.event with
    | .stepStarted _ => true
    | .toolResult _ _ _ _ | .stepRetrying _ | .stepInterrupted _ | .turnEnded _ _ _ => false
    | _ => now

namespace ProjectorState

variable {s : ProjectorState} {delta : CodeUnits} {kind : DeltaKind}

theorem projectMain_quiet (wf : s.WellFormed) (event : TurnEvent) (offset : Option ℕ)
    (started : ∀ turnId, event ≠ .turnStarted turnId)
    (ended : ∀ turnId reason durationMs, event ≠ .turnEnded turnId reason durationMs)
    (delta : ∀ kind turnId delta, event ≠ .delta kind turnId delta) :
    (s.projectMain event offset).1.WellFormed ∧ SameText s (s.projectMain event offset).1 ∧
      (s.projectMain event offset).1.currentAssistantMsgId.isSome =
        AgentEvent.opens s.currentAssistantMsgId.isSome ⟨MAIN_AGENT_ID, event⟩ ∧
      ∀ out ∈ (s.projectMain event offset).2, out.isDeltaGap = false := by
  have updated_quiet (s : ProjectorState) (status : MessageStatus) (durationMs : Option ℕ) :
      ∀ out ∈ s.updatedMessage status durationMs, out.isDeltaGap = false := by
    intro out mem
    unfold updatedMessage at mem
    split at mem
    · cases mem
    · split at mem
      · cases mem
      · obtain rfl := List.mem_singleton.1 mem
        rfl
  cases event with
  | turnStarted turnId => exact absurd rfl (started turnId)
  | turnEnded turnId reason durationMs => exact absurd rfl (ended turnId reason durationMs)
  | delta kind turnId text => exact absurd rfl (delta kind turnId text)
  | stepStarted turnId =>
    have resolved := resolvePromptId_sameLog s turnId
    obtain ⟨wf', same⟩ := push_spec (t := (s.projectMain (.stepStarted turnId) offset).1)
      (resolved.wellFormed wf) _ rfl (fun kind => rfl) rfl rfl
      (fun kind => by cases kind <;> rfl) (.inr ⟨rfl, rfl⟩)
    refine ⟨wf', resolved.sameText.trans same, rfl, fun out mem => ?_⟩
    obtain rfl := List.mem_singleton.1 mem
    rfl
  | toolResult turnId toolCallId output isError =>
    have resolved := resolvePromptId_sameLog s turnId
    obtain ⟨wf', same⟩ := push_spec
      (t := (s.projectMain (.toolResult turnId toolCallId output isError) offset).1)
      (resolved.wellFormed wf) _ rfl (fun kind => rfl) rfl rfl
      (fun kind => by cases kind <;> rfl) (.inl rfl)
    refine ⟨wf', resolved.sameText.trans same, rfl, fun out mem => ?_⟩
    obtain rfl := List.mem_singleton.1 mem
    rfl
  | toolCallStarted turnId toolCallId name args =>
    have kept : (s, ([] : List AppEvent)).1.WellFormed ∧ SameText s s ∧
        s.currentAssistantMsgId.isSome = s.currentAssistantMsgId.isSome ∧
        ∀ out ∈ ([] : List AppEvent), out.isDeltaGap = false :=
      ⟨wf, .refl s, rfl, fun out mem => nomatch mem⟩
    simp only [projectMain, AgentEvent.opens]
    split
    case h_2 => exact kept
    case h_1 msgId promptId current bound =>
      split
      case isFalse => exact kept
      case isTrue =>
        obtain ⟨wf', grown⟩ := modifyContent_spec wf current
          (· ++ [.toolUse toolCallId name (args.getD (.object [])) none]) (fun _ => [])
          fun kind content => by simp [AppMessageContent.shows]
        refine ⟨wf', ⟨fun kind => ?_, fun kind => by cases kind <;> rfl⟩, rfl, updated_quiet _ _ _⟩
        rw [grown, List.append_nil]
  | toolProgress =>
    simp only [projectMain]
    split
    · refine ⟨wf, .refl s, rfl, fun out mem => ?_⟩
      obtain rfl := List.mem_singleton.1 mem
      rfl
    · exact ⟨wf, .refl s, rfl, fun out mem => nomatch mem⟩
  | stepCompleted turnId usage =>
    have same : SameLog s (s.addUsage usage) :=
      ⟨rfl, rfl, Nat.le_refl _, fun kind => by cases kind <;> rfl⟩
    exact ⟨same.wellFormed wf, same.sameText, rfl, updated_quiet _ _ _⟩
  | statusUpdated model contextTokens maxContextTokens swarmMode planMode =>
    have same : SameLog s (s.projectMain
        (.statusUpdated model contextTokens maxContextTokens swarmMode planMode) offset).1 :=
      ⟨rfl, rfl, Nat.le_refl _, fun kind => by cases kind <;> rfl⟩
    refine ⟨same.wellFormed wf, same.sameText, rfl, fun out mem => ?_⟩
    obtain rfl := List.mem_singleton.1 mem
    rfl
  | stepRetrying turnId | stepInterrupted turnId =>
    exact ⟨⟨wf.made, fun id eq => nomatch eq⟩,
      ⟨fun kind => rfl, fun kind => by cases kind <;> rfl⟩, rfl, fun out mem => nomatch mem⟩
  | toolCallDelta turnId toolCallId | promptCompleted =>
    exact ⟨wf, .refl s, rfl, fun out mem => nomatch mem⟩

theorem project_main (sideChannel : String → Bool) (s : ProjectorState) (event : TurnEvent)
    (offset : Option ℕ) :
    s.project sideChannel ⟨MAIN_AGENT_ID, event⟩ offset = s.projectMain event offset := by
  simp [project]

theorem project_other (sideChannel : String → Bool) (s : ProjectorState) {e : AgentEvent}
    (other : e.agentId ≠ MAIN_AGENT_ID) (offset : Option ℕ) :
    (s.project sideChannel e offset).1 = s ∧
      ∀ out ∈ (s.project sideChannel e offset).2, out.isDeltaGap = false := by
  rw [project, if_pos other]
  refine ⟨rfl, fun out mem => ?_⟩
  unfold projectOther at mem
  split at mem
  · split at mem
    · split at mem
      · cases mem
      · obtain rfl := List.mem_singleton.1 mem
        rfl
    · obtain rfl := List.mem_singleton.1 mem
      rfl
    · cases mem
  · cases mem

theorem projectMain_turnStarted (wf : s.WellFormed) (turnId : ℕ) (offset : Option ℕ) :
    let next := s.projectMain (.turnStarted turnId) offset
    next.1.WellFormed ∧ (∀ kind, next.1.shown kind = s.shown kind) ∧
      (∀ kind, next.1.turnLen kind = 0) ∧
      next.1.currentAssistantMsgId = s.currentAssistantMsgId ∧
      ∀ out ∈ next.2, out.isDeltaGap = false := by
  cases bound : s.currentPromptId with
  | some =>
    simp only [projectMain, bound]
    refine ⟨⟨wf.made, wf.current⟩, fun kind => rfl, fun kind => by cases kind <;> rfl, rfl, ?_⟩
    simp [AppEvent.isDeltaGap]
  | none =>
    simp only [projectMain, bound]
    refine ⟨⟨fun msg mem => ?_, wf.current⟩, fun kind => rfl, fun kind => by cases kind <;> rfl,
      rfl, ?_⟩
    · obtain ⟨n, below, eq⟩ := wf.made msg mem
      exact ⟨n, Nat.lt_succ_of_lt below, eq⟩
    · simp [AppEvent.isDeltaGap]

/-! ## Text deltas -/

theorem projectDelta_closed (closed : s.currentAssistantMsgId = none) (kind : DeltaKind)
    (delta : CodeUnits) (offset : Option ℕ) :
    s.projectDelta kind delta offset = (s, []) := by
  simp [projectDelta, closed]

theorem projectDelta_empty (s : ProjectorState) (kind : DeltaKind) (offset : Option ℕ) :
    s.projectDelta kind [] offset = (s, []) := by
  unfold projectDelta
  split <;> simp

theorem projectDelta_gap {offset : ℕ} (open_ : s.currentAssistantMsgId.isSome)
    (nonempty : delta ≠ []) (ahead : s.turnLen kind < offset) :
    s.projectDelta kind delta (some offset) = (s, [.deltaGap]) := by
  obtain ⟨id, current⟩ := Option.isSome_iff_exists.1 open_
  have pos : offset ≠ 0 := by omega
  have notBehind : ¬ offset < s.turnLen kind := by omega
  simp [projectDelta, current, nonempty, pos, alignDelta, notBehind, ahead]

theorem projectDelta_skip {offset : ℕ} (pos : offset ≠ 0) (behind : offset < s.turnLen kind) :
    s.projectDelta kind delta (some offset) = (s, []) := by
  unfold projectDelta
  split
  · rfl
  · simp [pos, alignDelta, behind]

theorem setTurnLen_wellFormed (wf : s.WellFormed) (kind : DeltaKind) (len : ℕ) :
    (s.setTurnLen kind len).WellFormed where
  made msg mem := by
    rw [messages_setTurnLen] at mem
    rw [nextUlid_setTurnLen]
    exact wf.made msg mem
  current id eq := by
    rw [current_setTurnLen] at eq
    rw [messages_setTurnLen]
    exact wf.current id eq

@[simp] theorem shown_setTurnLen (s : ProjectorState) (kind other : DeltaKind) (len : ℕ) :
    (s.setTurnLen kind len).shown other = s.shown other := by
  simp [shown]

theorem projectDelta_append (wf : s.WellFormed) (offset : ℕ)
    (open_ : s.currentAssistantMsgId.isSome) (nonempty : delta ≠ [])
    (next : offset = s.turnLen kind ∨ offset = 0) :
    let result := s.projectDelta kind delta (some offset)
    result.1.WellFormed ∧ (∀ other, result.1.shown other =
        s.shown other ++ if other = kind then delta else []) ∧
      (∀ other, result.1.turnLen other =
        if other = kind then offset + delta.length else s.turnLen other) ∧
      result.1.currentAssistantMsgId = s.currentAssistantMsgId ∧
      ∀ out ∈ result.2, out.isDeltaGap = false := by
  obtain ⟨id, current⟩ := Option.isSome_iff_exists.1 open_
  -- The state after the self-heal expects exactly the delta's offset.
  obtain ⟨healed, healed_eq, healed_len⟩ : ∃ len,
      (if some offset = some 0 ∧ s.turnLen kind > 0 then s.setTurnLen kind 0 else s) =
        s.setTurnLen kind len ∧ len = offset := by
    by_cases heal : some offset = some 0 ∧ s.turnLen kind > 0
    · exact ⟨0, if_pos heal, (Option.some.inj heal.1).symm⟩
    · refine ⟨s.turnLen kind, ?_, ?_⟩
      · rw [if_neg heal]
        cases kind <;> rfl
      · rcases next with same | rfl
        · exact same.symm
        · simpa using heal
  subst healed_len
  have wf' := setTurnLen_wellFormed wf kind healed
  have current' : (s.setTurnLen kind healed).currentAssistantMsgId = some id := by simp [current]
  obtain ⟨init, last, log, rfl, role, unique⟩ := wf'.current id current'
  have found := getMsgById_last log unique
  obtain ⟨grown_wf, grown⟩ := modifyContent_spec wf' current' (extendContent kind delta)
    (fun other => if other = kind then delta else [])
    fun other content => shows_extendContent kind delta content other
  have appended : s.projectDelta kind delta (some healed) =
      (((s.setTurnLen kind healed).modifyContent last.id (extendContent kind delta)).setTurnLen kind
          (healed + delta.length),
        [.assistantDelta last.id ((extendContent kind delta last.content).length - 1) kind
          delta]) := by
    have len : ((s.setTurnLen kind healed).modifyContent last.id
        (extendContent kind delta)).turnLen kind = healed := by
      cases kind <;> rfl
    simp only [projectDelta, current, nonempty, if_false, healed_eq, alignDelta, turnLen_setTurnLen,
      if_true, Nat.lt_irrefl, gt_iff_lt, appendAssistantDelta, found, len]
  rw [appended]
  refine ⟨setTurnLen_wellFormed grown_wf _ _, fun other => ?_, fun other => ?_, ?_, ?_⟩
  · simp [grown]
  · rw [turnLen_setTurnLen]
    split
    · rfl
    · cases kind <;> cases other <;> first | rfl | contradiction
  · rw [current_setTurnLen]
    exact current_setTurnLen s kind healed
  · simp [AppEvent.isDeltaGap]

theorem shows_seedContent (turn : InFlightTurn) (kind : DeltaKind) :
    (seedContent turn).flatMap (AppMessageContent.shows kind) =
      match kind with
      | .text => turn.assistant_text
      | .thinking => turn.thinking_text := by
  cases kind <;> rcases eq : turn.thinking_text with _ | ⟨x, xs⟩ <;>
    rcases eq' : turn.assistant_text with _ | ⟨y, ys⟩ <;>
    simp [seedContent, AppMessageContent.shows, eq, eq']

theorem messages_seedInFlight (s : ProjectorState) (turn : InFlightTurn)
    (promptId : Option Ident) : ∃ n promptId', (s.seedInFlight turn promptId).1.messages =
        [⟨.ulid n, .assistant, seedContent turn, promptId'⟩] ∧
      n < (s.seedInFlight turn promptId).1.nextUlid ∧
      (s.seedInFlight turn promptId).1.currentAssistantMsgId = some (.ulid n) := by
  cases promptId with
  | some promptId =>
    refine ⟨s.nextUlid, promptId, ?_, Nat.lt_succ_self _, rfl⟩
    simp [seedInFlight, startAssistantMessage, bindTurn, reset, modifyContent]
  | none =>
    refine ⟨s.nextUlid + 1, .ulid s.nextUlid, ?_, Nat.lt_succ_self _, rfl⟩
    simp [seedInFlight, startAssistantMessage, bindTurn, reset, modifyContent, ulid]

/-- A seeded client shows the streams of its snapshot and expects the deltas behind them. -/
theorem seedInFlight_spec (s : ProjectorState) (turn : InFlightTurn) (promptId : Option Ident)
    (streams : DeltaKind → CodeUnits) (text : turn.assistant_text = streams .text)
    (thinking : turn.thinking_text = streams .thinking) :
    let seeded := s.seedInFlight turn promptId
    seeded.1.WellFormed ∧ (∀ kind, seeded.1.shown kind = streams kind) ∧
      (∀ kind, seeded.1.turnLen kind = (streams kind).length) ∧
      seeded.1.currentAssistantMsgId.isSome ∧ ∀ out ∈ seeded.2, out.isDeltaGap = false := by
  obtain ⟨n, promptId', log, below, current⟩ := messages_seedInFlight s turn promptId
  refine ⟨⟨fun msg mem => ?_, fun id eq => ?_⟩, fun kind => ?_, fun kind => ?_, ?_, ?_⟩
  · rw [log] at mem
    obtain rfl := List.mem_singleton.1 mem
    exact ⟨n, below, rfl⟩
  · obtain rfl : Ident.ulid n = id := Option.some.inj (current.symm.trans eq)
    exact ⟨[], _, log, rfl, rfl, fun msg mem => nomatch mem⟩
  · simp only [shown, log, List.flatMap_singleton, AppMessage.shows, if_true, shows_seedContent]
    cases kind <;> assumption
  · cases kind
    · exact congrArg List.length text
    · exact congrArg List.length thinking
  · rfl
  · simp [seedInFlight, AppEvent.isDeltaGap]

end ProjectorState

/-! ## A client that is seeded inside a turn -/

/-- A turn, the moment of the snapshot, the first frame that the client receives afterwards, and
what server and client held before. -/
structure Reseed where
  turn : MainTurn
  /-- The number of the turn's events that the snapshot contains. -/
  k : ℕ
  /-- The number of the turn's events whose frames the client does not receive any more. -/
  j : ℕ
  begun : 0 < k
  inside : k ≤ turn.events.length
  overlap : j ≤ k
  tracker : Option TurnAccum
  projector : ProjectorState
  sideChannel : String → Bool
  promptId : Option Ident

namespace Reseed

open ProjectorState

/-- The frames of the turn with the offsets that the server stamps. -/
def frames (r : Reseed) : List (AgentEvent × Option ℕ) :=
  InFlightTurnTracker.stamp r.tracker r.turn.events

/-- `seedSnapshot`: the client after the snapshot. -/
def seed (r : Reseed) : ProjectorState × List AppEvent :=
  match InFlightTurnTracker.get (InFlightTurnTracker.run r.tracker (r.turn.events.take r.k)) with
  | some turn => r.projector.seedInFlight turn r.promptId
  | none => (r.projector.reset, [])

/-- The client and all it has reported, after one more frame. -/
def receive (r : Reseed) (c : ProjectorState × List AppEvent) (frame : AgentEvent × Option ℕ) :
    ProjectorState × List AppEvent :=
  ((ProjectorState.project r.sideChannel c.1 frame.1 frame.2).1,
    c.2 ++ (ProjectorState.project r.sideChannel c.1 frame.1 frame.2).2)

/-- The client when the first `i` events of the turn have happened and their frames arrived. -/
def client (r : Reseed) (i : ℕ) : ProjectorState × List AppEvent :=
  ((r.frames.take i).drop r.j).foldl r.receive r.seed

/-- No `delta_gap` has been reported. -/
def Gapless (r : Reseed) (i : ℕ) : Prop := ∀ out ∈ (r.client i).2, out.isDeltaGap = false

/-- The stream of the turn that the client has been told of, by the snapshot or by frames. -/
def sofar (r : Reseed) (kind : DeltaKind) (i : ℕ) : CodeUnits :=
  streamed kind (r.turn.events.take (max r.k i))

/-- An assistant message is open before frame `i`: none of the frames received closed the seeded
message, or a step has started since. -/
def opened (r : Reseed) (i : ℕ) : Bool :=
  ((r.turn.events.take i).drop r.j).foldl AgentEvent.opens true

/-- Event `i` is a nonempty delta of the stream. -/
def Delta (r : Reseed) (kind : DeltaKind) (i : ℕ) : Prop :=
  ∃ e, r.turn.events[i]? = some e ∧ e.adds kind ≠ []

/-- A delta that goes wrong: the first of its stream though the snapshot contains it, or a new one
though no message is open. -/
def Misplaced (r : Reseed) (kind : DeltaKind) (i : ℕ) : Prop :=
  r.Delta kind i ∧
    if i < r.k then r.opened i = true ∧ streamed kind (r.turn.events.take i) = []
    else r.opened i = false

/-- A delta at which the client asks for another snapshot: it is not the first of its stream, but
the frame of `turn.started` has set the expected offset of the seeded stream to zero. -/
def Reported (r : Reseed) (kind : DeltaKind) (i : ℕ) : Prop :=
  r.Delta kind i ∧ r.j = 0 ∧ streamed kind (r.turn.events.take r.k) ≠ [] ∧ r.opened i = true ∧
    streamed kind (r.turn.events.take i) ≠ []

/-! ### One frame -/

section step

variable {r : Reseed} {i : ℕ} {e : AgentEvent}

theorem client_succ (from_j : r.j ≤ i) (at_i : r.turn.events[i]? = some e) :
    r.client (i + 1) = r.receive (r.client i)
      (e, (InFlightTurnTracker.apply
        (InFlightTurnTracker.run r.tracker (r.turn.events.take i)) e).2) := by
  have frame := InFlightTurnTracker.stamp_getElem? r.tracker r.turn.events at_i
  have inside : r.j ≤ (r.frames.take i).length := by
    have := (List.getElem?_eq_some_iff.1 at_i).1
    simp [frames]
    omega
  rw [client, List.take_add_one, show r.frames[i]? = _ from frame, Option.toList_some,
    List.drop_append_of_le_length inside, List.foldl_append]
  rfl

theorem opened_succ (from_j : r.j ≤ i) (at_i : r.turn.events[i]? = some e) :
    r.opened (i + 1) = AgentEvent.opens (r.opened i) e := by
  have inside : r.j ≤ (r.turn.events.take i).length := by
    have := (List.getElem?_eq_some_iff.1 at_i).1
    simp
    omega
  rw [opened, List.take_add_one, at_i, Option.toList_some,
    List.drop_append_of_le_length inside, List.foldl_append]
  rfl

theorem streamed_succ (at_i : r.turn.events[i]? = some e) (kind : DeltaKind) :
    streamed kind (r.turn.events.take (i + 1)) =
      streamed kind (r.turn.events.take i) ++ e.adds kind := by
  rw [List.take_add_one, at_i, Option.toList_some, streamed_append, streamed_singleton]

theorem sofar_succ (at_i : r.turn.events[i]? = some e) (kind : DeltaKind) :
    r.sofar kind (i + 1) = r.sofar kind i ++ if i < r.k then [] else e.adds kind := by
  unfold sofar
  split
  case isTrue before =>
    rw [Nat.max_eq_left (Nat.succ_le_of_lt before), Nat.max_eq_left (Nat.le_of_lt before),
      List.append_nil]
  case isFalse after =>
    rw [Nat.max_eq_right (by omega), Nat.max_eq_right (by omega), streamed_succ at_i]

theorem client_delta {kind : DeltaKind} (delta : r.Delta kind i) (from_j : r.j ≤ i) :
    ∃ e text, r.turn.events[i]? = some e ∧ e.agentId = MAIN_AGENT_ID ∧
      e.event = .delta kind r.turn.turnId text ∧ text ≠ [] ∧ 0 < i ∧
      r.client (i + 1) =
        (((r.client i).1.projectDelta kind text
            (some (streamed kind (r.turn.events.take i)).length)).1,
          (r.client i).2 ++ ((r.client i).1.projectDelta kind text
            (some (streamed kind (r.turn.events.take i)).length)).2) := by
  obtain ⟨e, at_i, adds⟩ := delta
  have main : e.agentId = MAIN_AGENT_ID := by
    by_contra other
    simp [AgentEvent.adds, other] at adds
  cases i with
  | zero =>
    obtain rfl : r.turn.started = e := by simpa [MainTurn.events] using at_i
    simp [AgentEvent.adds, MainTurn.started] at adds
  | succ i =>
    have inTurn := r.turn.inTurn e (List.mem_of_getElem? (by simpa [MainTurn.events] using at_i))
    obtain ⟨turn, run_eq, turn_eq, streams⟩ := InFlightTurnTracker.run_turn r.turn r.tracker i
    obtain ⟨agentId, event⟩ := e
    subst main
    have allowed := inTurn rfl
    cases event with
    | delta k turnId text =>
      obtain rfl : turnId = r.turn.turnId := allowed
      obtain rfl : k = kind := by
        by_contra other
        simp [AgentEvent.adds, other] at adds
      refine ⟨_, text, at_i, rfl, rfl, by simpa [AgentEvent.adds] using adds, Nat.succ_pos i, ?_⟩
      rw [client_succ from_j at_i, run_eq,
        InFlightTurnTracker.apply_offset turn_eq, streams]
      rfl
    | _ => exact absurd rfl adds

end step

/-! ### Every frame -/

/-- The offset the client expects next: none of a seeded stream once `turn.started` was received. -/
def expected (r : Reseed) (kind : DeltaKind) (i : ℕ) : ℕ :=
  if r.j = 0 ∧ 0 < i ∧ streamed kind (r.turn.events.take r.k) ≠ [] then 0
  else (r.sofar kind i).length

/-- The client shows exactly the streams it has been told of. -/
structure Aligned (r : Reseed) (i : ℕ) : Prop where
  wf : (r.client i).1.WellFormed
  opened : (r.client i).1.currentAssistantMsgId.isSome = r.opened i
  shown : ∀ kind, (r.client i).1.shown kind = r.sofar kind i
  len : ∀ kind, (r.client i).1.turnLen kind = r.expected kind i
  gapless : r.Gapless i

theorem aligned_seed (r : Reseed) : r.Aligned r.j := by
  obtain ⟨k, k_eq⟩ : ∃ k, r.k = k + 1 := ⟨r.k - 1, by have := r.begun; omega⟩
  obtain ⟨turn, run_eq, -, streams⟩ := InFlightTurnTracker.run_turn r.turn r.tracker k
  obtain ⟨wf, shown, len, open_, quiet⟩ := seedInFlight_spec r.projector
    { turn_id := turn.turnId, assistant_text := turn.assistantText,
      thinking_text := turn.thinkingText, running_tools := turn.tools.map (·.2) } r.promptId
    (fun kind => streamed kind (r.turn.events.take r.k))
    (by rw [k_eq]; exact streams .text) (by rw [k_eq]; exact streams .thinking)
  have start : r.client r.j = r.seed := by
    rw [client, List.drop_eq_nil_of_le (List.length_take_le _ _), List.foldl_nil]
  have seed_eq : r.seed = r.projector.seedInFlight
      { turn_id := turn.turnId, assistant_text := turn.assistantText,
        thinking_text := turn.thinkingText, running_tools := turn.tools.map (·.2) }
      r.promptId := by
    rw [seed, k_eq, run_eq]
    rfl
  rw [← seed_eq, ← start] at wf shown len open_ quiet
  have told (kind : DeltaKind) : r.sofar kind r.j = streamed kind (r.turn.events.take r.k) := by
    rw [sofar, Nat.max_eq_left r.overlap]
  refine ⟨wf, ?_, fun kind => (shown kind).trans (told kind).symm, fun kind => ?_, quiet⟩
  · rw [open_, Reseed.opened, List.drop_eq_nil_of_le (List.length_take_le _ _), List.foldl_nil]
  · have noStart : ¬ (r.j = 0 ∧ 0 < r.j ∧ streamed kind (r.turn.events.take r.k) ≠ []) := by omega
    rw [len, expected, if_neg noStart, told]

section step

variable {r : Reseed} {i : ℕ} {kind : DeltaKind}

theorem streamed_take_isPrefix (kind : DeltaKind) (events : List AgentEvent) {m n : ℕ}
    (le : m ≤ n) :
    streamed kind (events.take m) <+: streamed kind (events.take n) := by
  obtain ⟨rest, eq⟩ := List.take_prefix_take_left (l := events) le
  exact ⟨streamed kind rest, by rw [← eq, streamed_append]⟩

theorem offset_lt_seeded (delta : r.Delta kind i) (inside : i < r.k) :
    (streamed kind (r.turn.events.take i)).length < (r.sofar kind i).length := by
  obtain ⟨e, at_i, adds⟩ := delta
  have grown := (streamed_take_isPrefix kind r.turn.events (Nat.succ_le_of_lt inside)).length_le
  have pos := List.length_pos_iff.2 adds
  rw [streamed_succ at_i, List.length_append] at grown
  rw [sofar, Nat.max_eq_left (Nat.le_of_lt inside)]
  omega

theorem sofar_after (after : ¬ i < r.k) :
    r.sofar kind i = streamed kind (r.turn.events.take i) := by
  rw [sofar, Nat.max_eq_right (by omega)]

theorem Gapless.frame {reports : List AppEvent} (gapless : r.Gapless i)
    (eq : (r.client (i + 1)).2 = (r.client i).2 ++ reports)
    (quiet : ∀ out ∈ reports, out.isDeltaGap = false) : r.Gapless (i + 1) := by
  intro out mem
  rw [eq] at mem
  exact (List.mem_append.1 mem).elim (gapless out) (quiet out)

theorem Aligned.misplaced (al : r.Aligned i) (from_j : r.j ≤ i) (mis : r.Misplaced kind i) :
    r.Gapless (i + 1) ∧ (r.client (i + 1)).1.shown kind ≠ r.sofar kind (i + 1) := by
  obtain ⟨delta, wrong⟩ := mis
  obtain ⟨e, text, at_i, main, event, nonempty, -, next⟩ := client_delta delta from_j
  have adds : e.adds kind = text := by simp [AgentEvent.adds, main, event]
  have reports : (r.client (i + 1)).2 = (r.client i).2 ++ _ := congrArg Prod.snd next
  rw [sofar_succ at_i, adds]
  split at wrong
  case isTrue before =>
    obtain ⟨open_, first⟩ := wrong
    rw [first, List.length_nil] at next reports
    obtain ⟨-, shown, -, -, quiet⟩ := projectDelta_append al.wf 0 (al.opened.trans open_)
      nonempty (.inr rfl)
    refine ⟨al.gapless.frame reports quiet, ?_⟩
    rw [next, if_pos before, List.append_nil, ← al.shown]
    rw [shown, if_pos rfl]
    simpa using nonempty
  case isFalse after =>
    have closed : (r.client i).1.currentAssistantMsgId = none := by
      have := al.opened.trans wrong
      simpa using this
    rw [projectDelta_closed closed] at next reports
    refine ⟨al.gapless.frame reports (fun out mem => by cases mem), ?_⟩
    rw [next, if_neg after, ← al.shown]
    simpa using nonempty

theorem Aligned.reported (al : r.Aligned i) (from_j : r.j ≤ i) (rep : r.Reported kind i) :
    ¬ r.Gapless (i + 1) := by
  obtain ⟨delta, whole, seeded, open_, later⟩ := rep
  obtain ⟨e, text, at_i, main, event, nonempty, pos, next⟩ := client_delta delta from_j
  have ahead : (r.client i).1.turnLen kind < (streamed kind (r.turn.events.take i)).length := by
    rw [al.len, expected, if_pos ⟨whole, pos, seeded⟩]
    exact List.length_pos_iff.2 later
  rw [Gapless, next, projectDelta_gap (al.opened.trans open_) nonempty ahead]
  intro quiet
  have := quiet .deltaGap (by simp)
  simp [AppEvent.isDeltaGap] at this

theorem expected_eq (pos : 0 < i) (same : r.sofar kind (i + 1) = r.sofar kind i) :
    r.expected kind (i + 1) = r.expected kind i := by
  rw [expected, expected, same]
  simp [pos]

theorem Aligned.quiet {e : AgentEvent} (al : r.Aligned i) (from_j : r.j ≤ i) (pos : 0 < i)
    (at_i : r.turn.events[i]? = some e) (silent : ∀ kind, i < r.k ∨ e.adds kind = [])
    (wf : (r.client (i + 1)).1.WellFormed) (same : SameText (r.client i).1 (r.client (i + 1)).1)
    (opened : (r.client (i + 1)).1.currentAssistantMsgId.isSome =
      AgentEvent.opens (r.client i).1.currentAssistantMsgId.isSome e)
    (gapless : r.Gapless (i + 1)) : r.Aligned (i + 1) := by
  have told (kind : DeltaKind) : r.sofar kind (i + 1) = r.sofar kind i := by
    rw [sofar_succ at_i]
    rcases silent kind with before | none <;> simp [*]
  refine ⟨wf, ?_, fun kind => ?_, fun kind => ?_, gapless⟩
  · rw [opened, al.opened, opened_succ from_j at_i]
  · rw [same.shown, al.shown, told]
  · rw [same.len, al.len, expected_eq pos (told kind)]

/-- A delta that is neither misplaced nor reported: the snapshot contains it and it is skipped, or
it is appended. -/
theorem Aligned.delta (al : r.Aligned i) (from_j : r.j ≤ i) (delta : r.Delta kind i)
    (right : ¬ r.Misplaced kind i) (placed : ¬ r.Reported kind i) : r.Aligned (i + 1) := by
  obtain ⟨e, text, at_i, main, event, nonempty, pos, next⟩ := client_delta delta from_j
  have opens (now : Bool) : AgentEvent.opens now e = now := by simp [AgentEvent.opens, event]
  -- What a client does that drops the delta without a word.
  have dropped (before : i < r.k) (eq : (r.client i).1.projectDelta kind text
      (some (streamed kind (r.turn.events.take i)).length) = ((r.client i).1, [])) :
      r.Aligned (i + 1) := by
    have unchanged : r.client (i + 1) = r.client i := by rw [next, eq, List.append_nil]
    refine al.quiet from_j pos at_i (fun _ => .inl before) ?_ ?_ ?_ ?_
    · rw [unchanged]
      exact al.wf
    · rw [unchanged]
      exact .refl _
    · rw [unchanged, opens]
    · rw [Gapless, unchanged]
      exact al.gapless
  by_cases before : i < r.k
  · by_cases open_ : r.opened i = true
    · have later : streamed kind (r.turn.events.take i) ≠ [] := fun first =>
        right ⟨delta, by rw [if_pos before]; exact ⟨open_, first⟩⟩
      have within := offset_lt_seeded delta before
      have seeded : streamed kind (r.turn.events.take r.k) ≠ [] := by
        intro none
        rw [sofar, Nat.max_eq_left (Nat.le_of_lt before), none] at within
        exact absurd within (Nat.not_lt_zero _)
      have partly : r.j ≠ 0 := fun whole => placed ⟨delta, whole, seeded, open_, later⟩
      refine dropped before (projectDelta_skip ?_ ?_)
      · exact Nat.pos_iff_ne_zero.1 (List.length_pos_iff.2 later)
      · rw [al.len, expected, if_neg fun all => partly all.1]
        exact within
    · refine dropped before (projectDelta_closed ?_ _ _ _)
      have := al.opened
      simpa [open_] using this
  · have open_ : r.opened i = true := by
      by_contra closed
      exact right ⟨delta, by rw [if_neg before]; simpa using closed⟩
    have seeded_later (first : streamed kind (r.turn.events.take i) = []) :
        streamed kind (r.turn.events.take r.k) = [] :=
      List.prefix_nil.1 (first ▸ streamed_take_isPrefix kind _ (Nat.le_of_not_lt before))
    have normal : ¬ (r.j = 0 ∧ 0 < i ∧ streamed kind (r.turn.events.take r.k) ≠ []) := fun all =>
      placed ⟨delta, all.1, all.2.2, open_, fun first => all.2.2 (seeded_later first)⟩
    obtain ⟨wf, shown, len, current, quiet⟩ := projectDelta_append al.wf
      (streamed kind (r.turn.events.take i)).length (al.opened.trans open_) nonempty
      (.inl (by rw [al.len, expected, if_neg normal, sofar_after before]))
    have told (other : DeltaKind) :
        r.sofar other (i + 1) = r.sofar other i ++ if other = kind then text else [] := by
      rw [sofar_succ at_i, if_neg before]
      by_cases same : other = kind
      · simp [AgentEvent.adds, main, event, same]
      · simp [AgentEvent.adds, main, event, same, Ne.symm same]
    have sameExpected (other : DeltaKind) (ne : other ≠ kind) :
        r.expected other (i + 1) = r.expected other i :=
      expected_eq pos (by rw [told, if_neg ne, List.append_nil])
    rw [← opens (r.opened i)] at open_
    have reports : (r.client (i + 1)).2 = (r.client i).2 ++ _ := congrArg Prod.snd next
    refine ⟨?_, ?_, fun other => ?_, fun other => ?_, al.gapless.frame reports quiet⟩ <;>
      rw [next] <;> dsimp only
    · exact wf
    · rw [current, al.opened, opened_succ from_j at_i, opens]
    · rw [shown, al.shown, told]
    · rw [len]
      by_cases same : other = kind
      · subst same
        have normal' : ¬ (r.j = 0 ∧ 0 < i + 1 ∧ streamed other (r.turn.events.take r.k) ≠ []) :=
          fun all => normal ⟨all.1, pos, all.2.2⟩
        rw [if_pos rfl, expected, if_neg normal', told, if_pos rfl, List.length_append,
          sofar_after before]
      · rw [if_neg same, al.len, sameExpected other same]

/-- A frame that is neither misplaced nor reported keeps the client aligned. -/
theorem Aligned.step (al : r.Aligned i) (from_j : r.j ≤ i) (inside : i < r.turn.events.length)
    (right : ∀ kind, ¬ r.Misplaced kind i) (placed : ∀ kind, ¬ r.Reported kind i) :
    r.Aligned (i + 1) := by
  by_cases delta : ∃ kind, r.Delta kind i
  · obtain ⟨kind, delta⟩ := delta
    exact al.delta from_j delta (right kind) (placed kind)
  have at_i : r.turn.events[i]? = some r.turn.events[i] := List.getElem?_eq_getElem inside
  generalize r.turn.events[i] = e at at_i
  have silent (kind : DeltaKind) : e.adds kind = [] := by
    by_contra adds
    exact delta ⟨kind, e, at_i, adds⟩
  have next := client_succ from_j at_i
  have reports : (r.client (i + 1)).2 = (r.client i).2 ++ _ := congrArg Prod.snd next
  rcases Nat.eq_zero_or_pos i with rfl | pos
  · -- The first frame is that of `turn.started`.
    obtain rfl : r.turn.started = e := by simpa [MainTurn.events] using at_i
    have started : r.j = 0 := Nat.le_zero.1 from_j
    have told (kind : DeltaKind) : r.sofar kind (0 + 1) = r.sofar kind 0 := by
      rw [sofar_succ at_i, if_pos r.begun, List.append_nil]
    simp only [receive, MainTurn.started, project_main] at next reports
    obtain ⟨wf, shown, len, current, quiet⟩ :=
      projectMain_turnStarted al.wf r.turn.turnId (InFlightTurnTracker.apply
        (InFlightTurnTracker.run r.tracker (r.turn.events.take 0)) r.turn.started).2
    refine ⟨?_, ?_, fun kind => ?_, fun kind => ?_, al.gapless.frame reports quiet⟩
    · rw [next]
      exact wf
    · rw [next, opened_succ from_j at_i, ← al.opened]
      exact congrArg Option.isSome current
    · rw [next, told, ← al.shown]
      exact shown kind
    · rw [next, expected]
      refine (len kind).trans ?_
      split
      case isTrue => rfl
      case isFalse unseeded =>
        have none : streamed kind (r.turn.events.take r.k) = [] := by
          by_contra some
          exact unseeded ⟨started, Nat.succ_pos 0, some⟩
        rw [told, sofar, Nat.max_eq_left (Nat.zero_le _), none, List.length_nil]
  · obtain ⟨i, rfl⟩ : ∃ m, i = m + 1 := ⟨i - 1, by omega⟩
    have inTurn := r.turn.inTurn e (List.mem_of_getElem? (by simpa [MainTurn.events] using at_i))
    by_cases main : e.agentId = MAIN_AGENT_ID
    · obtain ⟨agentId, event⟩ := e
      subst main
      have allowed := inTurn rfl
      simp only [receive, project_main] at next reports
      by_cases empty : ∃ kind turnId text, event = .delta kind turnId text
      · obtain ⟨kind, turnId, text, rfl⟩ := empty
        obtain rfl : text = [] := by simpa [AgentEvent.adds] using silent kind
        rw [projectMain, projectDelta_empty] at next reports
        refine al.quiet from_j pos at_i (fun kind => .inr (silent kind)) ?_ ?_ ?_
          (al.gapless.frame reports fun out mem => by cases mem) <;> rw [next]
        · exact al.wf
        · exact .refl _
        · rfl
      · obtain ⟨wf, same, opened, quiet⟩ := projectMain_quiet al.wf event
          (InFlightTurnTracker.apply (InFlightTurnTracker.run r.tracker
            (r.turn.events.take (i + 1))) ⟨MAIN_AGENT_ID, event⟩).2
          (fun turnId eq => by subst eq; exact allowed)
          (fun turnId reason durationMs eq => by subst eq; exact allowed)
          (fun kind turnId text eq => empty ⟨kind, turnId, text, eq⟩)
        refine al.quiet from_j pos at_i (fun kind => .inr (silent kind)) ?_ ?_ ?_
          (al.gapless.frame reports quiet) <;> rw [next]
        · exact wf
        · exact same
        · exact opened
    · obtain ⟨same, quiet⟩ := project_other r.sideChannel (r.client (i + 1)).1 main
        (InFlightTurnTracker.apply (InFlightTurnTracker.run r.tracker
          (r.turn.events.take (i + 1))) e).2
      have opens (now : Bool) : AgentEvent.opens now e = now := by simp [AgentEvent.opens, main]
      refine al.quiet from_j pos at_i (fun kind => .inr (silent kind)) ?_ ?_ ?_
        (al.gapless.frame reports quiet) <;> rw [next]
      · exact same.symm ▸ al.wf
      · exact same.symm ▸ .refl _
      · rw [opens]
        exact congrArg (fun s : ProjectorState => s.currentAssistantMsgId.isSome) same

end step

/-! ### Whole runs -/

theorem aligned_of_right (r : Reseed) {i : ℕ} (from_j : r.j ≤ i)
    (inside : i ≤ r.turn.events.length)
    (right : ∀ m kind, r.j ≤ m → m < i → ¬ r.Misplaced kind m ∧ ¬ r.Reported kind m) :
    r.Aligned i := by
  induction i with
  | zero => exact Nat.le_zero.1 from_j ▸ r.aligned_seed
  | succ i ih =>
    rcases Nat.lt_or_ge i r.j with before | from_j'
    · have start : r.j = i + 1 := by omega
      exact start ▸ r.aligned_seed
    · exact (ih from_j' (by omega) fun m kind lo hi => right m kind lo (by omega)).step from_j'
        inside (fun kind => (right i kind from_j' (Nat.lt_succ_self i)).1)
        fun kind => (right i kind from_j' (Nat.lt_succ_self i)).2

theorem Gapless.earlier {r : Reseed} {m i : ℕ} (gapless : r.Gapless i) (from_j : r.j ≤ m)
    (le : m ≤ i) (inside : i ≤ r.turn.events.length) : r.Gapless m := by
  induction i with
  | zero => exact Nat.le_zero.1 le ▸ gapless
  | succ i ih =>
    rcases Nat.eq_or_lt_of_le le with rfl | below
    · exact gapless
    · refine ih (fun out mem => gapless out ?_) (by omega) (by omega)
      rw [client_succ (by omega) (List.getElem?_eq_getElem inside)]
      exact List.mem_append_left _ mem

/-- Until a `delta_gap` is reported, the client shows exactly the streams of the turn after every
frame, if and only if every misplaced delta comes after one that the client reported. -/
theorem shown_iff (r : Reseed) :
    (∀ i, r.j ≤ i → i ≤ r.turn.events.length → r.Gapless i →
      ∀ kind, (r.client i).1.shown kind = r.sofar kind i) ↔
    ∀ i kind, r.j ≤ i → r.Misplaced kind i → ∃ m < i, r.j ≤ m ∧ ∃ kind', r.Reported kind' m := by
  classical
  constructor
  · intro faithful i kind from_j mis
    by_contra unreported
    -- The first misplaced frame; everything before it leaves the client aligned.
    have exists_mis : ∃ m, r.j ≤ m ∧ ∃ kind, r.Misplaced kind m := ⟨i, from_j, kind, mis⟩
    obtain ⟨lo, kind', first⟩ := Nat.find_spec exists_mis
    have le : Nat.find exists_mis ≤ i := Nat.find_min' exists_mis ⟨from_j, kind, mis⟩
    obtain ⟨e, at_m, -⟩ := first.1
    have inside := (List.getElem?_eq_some_iff.1 at_m).1
    have al : r.Aligned (Nat.find exists_mis) :=
      r.aligned_of_right lo (Nat.le_of_lt inside) fun m kind lo hi =>
        ⟨fun earlier => Nat.find_min exists_mis hi ⟨lo, kind, earlier⟩,
          fun rep => unreported ⟨m, Nat.lt_of_lt_of_le hi le, lo, kind, rep⟩⟩
    obtain ⟨gapless, wrong⟩ := al.misplaced lo first
    exact wrong (faithful _ (by omega) inside gapless kind')
  · intro reported i from_j inside gapless
    refine (r.aligned_of_right from_j inside ?_).shown
    by_contra bad
    have exists_bad : ∃ m, r.j ≤ m ∧ m < i ∧ ∃ kind, r.Misplaced kind m ∨ r.Reported kind m := by
      by_contra none
      exact bad fun m kind lo hi =>
        ⟨fun mis => none ⟨m, lo, hi, kind, .inl mis⟩, fun rep => none ⟨m, lo, hi, kind, .inr rep⟩⟩
    obtain ⟨lo, hi, kind, first⟩ := Nat.find_spec exists_bad
    have al : r.Aligned (Nat.find exists_bad) :=
      r.aligned_of_right lo (by omega) fun m kind lo' hi' =>
        ⟨fun mis => Nat.find_min exists_bad hi' ⟨lo', by omega, kind, .inl mis⟩,
          fun rep => Nat.find_min exists_bad hi' ⟨lo', by omega, kind, .inr rep⟩⟩
    rcases first with mis | rep
    · obtain ⟨m, hi', lo', kind', rep⟩ := reported _ kind lo mis
      exact Nat.find_min exists_bad hi' ⟨lo', by omega, kind', .inr rep⟩
    · exact al.reported lo rep (gapless.earlier (by omega) hi inside)

/-- A turn that has streamed one delta; the client loads the snapshot before that delta's frame
reaches it. -/
def reloaded : Reseed where
  turn :=
    { turnId := 1
      rest := [⟨MAIN_AGENT_ID, .stepStarted 1⟩, ⟨MAIN_AGENT_ID, .delta .text 1 [72, 105]⟩]
      inTurn := by simp [AgentEvent.InTurn] }
  k := 3
  j := 2
  begun := by decide
  inside := by decide
  overlap := by decide
  tracker := none
  projector := {}
  sideChannel := fun _ => false
  promptId := none

/-- The delta is appended to the message that already shows it, and nothing is reported. -/
theorem reloaded_shownTwice :
    ¬ ∀ i, reloaded.j ≤ i → i ≤ reloaded.turn.events.length → reloaded.Gapless i →
      ∀ kind, (reloaded.client i).1.shown kind = reloaded.sofar kind i := by
  intro faithful
  have told : reloaded.sofar .text 3 = [72, 105] := by decide
  have shown : (reloaded.client 3).1.shown .text = [72, 105, 72, 105] := by decide
  have gapless : ((reloaded.client 3).2.all fun out => !out.isDeltaGap) = true := by decide
  have same := faithful 3 (by decide) (by decide)
    (fun out mem => by simpa using List.all_eq_true.1 gapless out mem) .text
  exact absurd same (by decide)

end Reseed

end KimiCli
