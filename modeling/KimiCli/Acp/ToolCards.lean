import KimiCli.Acp.PromptTurn

/-!
# The tool cards of a prompt

What the listener of `runTurnBody` sends the client about tool calls.  A call is known on the wire
by its turn and its raw id.  The listener creates the card on the first delta or started event of
the call and keeps the text of the arguments under the raw id; `argsText` is that text as the
call's own events give it, where a started event replaces what the deltas have built.
-/

namespace KimiCli.Acp

/-! ## Events and notifications about calls -/

/-- The call of a tool event of the main agent. -/
def Event.toolCall? (event : Event) : Option (ℕ × String) :=
  if isFromMainAgent event then
    match event.body with
    | .toolCallStarted turnId toolCallId _ _ _ _ | .toolCallDelta turnId toolCallId _ _
    | .toolProgress turnId toolCallId _ _ | .toolResult turnId toolCallId _ _ =>
      some (turnId, toolCallId)
    | _ => none
  else none

/-- The call that a delta or a started event of the main agent announces. -/
def Event.announces (event : Event) : Option (ℕ × String) :=
  if isFromMainAgent event then
    match event.body with
    | .toolCallStarted turnId toolCallId _ _ _ _ | .toolCallDelta turnId toolCallId _ _ =>
      some (turnId, toolCallId)
    | _ => none
  else none

def wireId (call : ℕ × String) : String := acpToolCallId call.1 call.2

variable {call : ℕ × String} {events : List Event} {current : Option ℕ} {event : Event}

theorem wireId_inj {other : ℕ × String} : wireId call = wireId other ↔ call = other := by
  rw [wireId, wireId, acpToolCallId_inj_iff, Prod.ext_iff]

def SessionUpdate.creates : SessionUpdate → Option String
  | .tool_call call => some call.toolCallId
  | _ => none

def SessionUpdate.updates : SessionUpdate → Option String
  | .tool_call_update call => some call.toolCallId
  | _ => none

/-- The arguments a card shows: the last entry of its content. -/
def ToolCall.argsShown (card : ToolCall) : Option String :=
  match card.content.bind List.getLast? with
  | some (.text text) => some text
  | _ => none

/-! ## The text of a call's arguments -/

/-- The text of the call's arguments after one more event. -/
def hearArgs (call : ℕ × String) (text : String) (event : Event) : String :=
  if event.announces = some call then
    match event.body with
    | .toolCallStarted _ _ _ args _ _ => stringifyArgs args
    | .toolCallDelta _ _ _ argumentsPart => text ++ argumentsPart.getD ""
    | _ => text
  else text

def argsText (call : ℕ × String) (events : List Event) : String := events.foldl (hearArgs call) ""

/-- The call's argument part in a delta. -/
def argumentPart (call : ℕ × String) (event : Event) : Option String :=
  if event.announces = some call then
    match event.body with
    | .toolCallDelta _ _ _ argumentsPart => argumentsPart
    | _ => none
  else none

def Starts (call : ℕ × String) (event : Event) : Prop :=
  event.announces = some call ∧ ∃ turnId toolCallId name args description display,
    event.body = .toolCallStarted turnId toolCallId name args description display

theorem argsText_append (call : ℕ × String) (events : List Event) (event : Event) :
    argsText call (events ++ [event]) = hearArgs call (argsText call events) event := by
  simp [argsText]

theorem argsText_of_not_announced (silent : ∀ event ∈ events, event.announces ≠ some call) :
    argsText call events = "" := by
  induction events using List.reverseRecOn with
  | nil => rfl
  | append_singleton events event ih =>
    rw [argsText_append, hearArgs, if_neg (silent event (by simp))]
    exact ih fun e mem => silent e (List.mem_append_left _ mem)

theorem argsText_of_not_started (waiting : ∀ event ∈ events, ¬ Starts call event) :
    argsText call events = String.join (events.filterMap (argumentPart call)) := by
  induction events using List.reverseRecOn with
  | nil => rfl
  | append_singleton events event ih =>
    have before := ih fun e mem => waiting e (List.mem_append_left _ mem)
    rw [argsText_append, List.filterMap_append, before, hearArgs]
    by_cases mine : event.announces = some call
    · rw [if_pos mine]
      cases body : event.body with
      | toolCallDelta turnId toolCallId name argumentsPart =>
        cases argumentsPart <;> simp [argumentPart, mine, body, String.join]
      | toolCallStarted =>
        exact absurd ⟨mine, _, _, _, _, _, _, body⟩ (waiting event (by simp))
      | _ => simp [argumentPart, body]
    · rw [if_neg mine]
      simp [argumentPart, mine]

/-! ## One event -/

namespace PromptTurn

/-- What an event does to the cards of a prompt that goes on listening. -/
inductive Shows (p q : PromptTurn) (event : Event) : Prop
  | quiet (new : List SessionUpdate) (unannounced : event.announces = none)
      (started : q.startedToolCalls = p.startedToolCalls)
      (args : q.argsByToolCall = p.argsByToolCall) (sent : q.sent = p.sent ++ new)
      (creates : new.filterMap SessionUpdate.creates = [])
      (concerns : ∀ update ∈ new, ∀ id, update.updates = some id →
        ∃ call, event.toolCall? = some call ∧ wireId call = id)
  | create (call : ℕ × String) (card : ToolCall) (plan : List SessionUpdate)
      (announces : event.announces = some call) (fresh : wireId call ∉ p.startedToolCalls)
      (started : q.startedToolCalls = p.startedToolCalls ++ [wireId call])
      (args : q.argsByToolCall =
        Function.update p.argsByToolCall call.2 (some (hearArgs call "" event)))
      (sent : q.sent = p.sent ++ .tool_call card :: plan)
      (id : card.toolCallId = wireId call) (shown : card.argsShown = some (hearArgs call "" event))
      (noCard : ∀ update ∈ plan, update.creates = none ∧ update.updates = none)
  | update (call : ℕ × String) (card : ToolCall) (plan : List SessionUpdate)
      (announces : event.announces = some call) (known : wireId call ∈ p.startedToolCalls)
      (started : q.startedToolCalls = p.startedToolCalls)
      (args : q.argsByToolCall = Function.update p.argsByToolCall call.2
        (some (hearArgs call ((p.argsByToolCall call.2).getD "") event)))
      (sent : q.sent = p.sent ++ .tool_call_update card :: plan)
      (id : card.toolCallId = wireId call)
      (shown : card.argsShown = some (hearArgs call ((p.argsByToolCall call.2).getD "") event))
      (noCard : ∀ update ∈ plan, update.creates = none ∧ update.updates = none)

theorem argsShown_started (turnId : ℕ) (toolCallId name : String) (args : Option Json)
    (description : Option String) (display : Option ToolInputDisplay) :
    (startedFields turnId toolCallId name args description display).argsShown =
      some (stringifyArgs args) := by
  simp [ToolCall.argsShown, startedFields]

theorem planFromDisplayBlock_noCard {display : ToolInputDisplay} {note : SessionUpdate}
    (plan : planFromDisplayBlock display = some note) :
    note.creates = none ∧ note.updates = none := by
  cases display with
  | todoList =>
    rw [planFromDisplayBlock, todoListToSessionUpdate] at plan
    split at plan
    · cases plan
    · cases plan
      exact ⟨rfl, rfl⟩
  | fileIo | diff | planReview | other => cases plan

theorem pushPlan_eq (p : PromptTurn) (display : Option ToolInputDisplay) :
    ∃ plan, p.pushPlan display = { p with sent := p.sent ++ plan } ∧
      ∀ update ∈ plan, update.creates = none ∧ update.updates = none := by
  rw [pushPlan]
  split
  case h_1 note found =>
    obtain ⟨block, -, isPlan⟩ := Option.bind_eq_some_iff.1 found
    refine ⟨[note], rfl, fun update mem => ?_⟩
    obtain rfl := List.mem_singleton.1 mem
    exact planFromDisplayBlock_noCard isPlan
  case h_2 => exact ⟨[], by simp, List.forall_mem_nil _⟩

variable {turnId : ℕ} {toolCallId : String}

theorem shows_toolCallStarted (p : PromptTurn) {event : Event} {name : String} {args : Option Json}
    {description : Option String} {display : Option ToolInputDisplay}
    (main : isFromMainAgent event = true)
    (body : event.body = .toolCallStarted turnId toolCallId name args description display) :
    Shows p (p.toolCallStarted turnId toolCallId name args description display) event := by
  have announces : event.announces = some (turnId, toolCallId) := by
    simp [Event.announces, main, body]
  have text (before : String) :
      hearArgs (turnId, toolCallId) before event = stringifyArgs args := by
    simp [hearArgs, announces, body]
  rw [PromptTurn.toolCallStarted]
  simp only []
  by_cases known : acpToolCallId turnId toolCallId ∈ p.startedToolCalls
  · rw [if_pos known]
    obtain ⟨notes, now, noCard⟩ := pushPlan_eq _ display
    rw [now]
    refine .update (turnId, toolCallId)
      (startedFields turnId toolCallId name args description display) notes announces known rfl
      (by rw [text]; rfl) ?_ rfl (by rw [text, argsShown_started]) noCard
    simp [PromptTurn.sessionUpdate, toolCallStartedUpgradeToSessionUpdate]
  · rw [if_neg known]
    obtain ⟨notes, now, noCard⟩ := pushPlan_eq _ display
    rw [now]
    refine .create (turnId, toolCallId)
      (startedFields turnId toolCallId name args description display) notes announces known rfl
      (by rw [text]; rfl) ?_ rfl (by rw [text, argsShown_started]) noCard
    simp [PromptTurn.sessionUpdate, toolCallStartToSessionUpdate]

theorem shows_toolCallDelta (p : PromptTurn) {event : Event} {name argumentsPart : Option String}
    (main : isFromMainAgent event = true)
    (body : event.body = .toolCallDelta turnId toolCallId name argumentsPart) :
    Shows p (p.toolCallDelta turnId toolCallId name argumentsPart) event := by
  have announces : event.announces = some (turnId, toolCallId) := by
    simp [Event.announces, main, body]
  have text (before : String) :
      hearArgs (turnId, toolCallId) before event = before ++ argumentsPart.getD "" := by
    simp [hearArgs, announces, body]
  rw [PromptTurn.toolCallDelta]
  simp only []
  by_cases known : acpToolCallId turnId toolCallId ∈ p.startedToolCalls
  · rw [if_neg (not_not.2 known)]
    exact .update (turnId, toolCallId) _ [] announces known rfl (by rw [text]; rfl) rfl rfl
      (by rw [text]; rfl) (List.forall_mem_nil _)
  · rw [if_pos known]
    exact .create (turnId, toolCallId) _ [] announces known rfl
      (by rw [text, String.empty_append]; rfl) rfl rfl (by rw [text, String.empty_append]; rfl)
      (List.forall_mem_nil _)

theorem shows_nothing (p : PromptTurn) {event : Event} (unannounced : event.announces = none) :
    Shows p p event :=
  .quiet [] unannounced rfl rfl (List.append_nil _).symm rfl (List.forall_mem_nil _)

theorem shows_sessionUpdate (p : PromptTurn) {event : Event} {note : SessionUpdate}
    (unannounced : event.announces = none) (noCreation : note.creates = none)
    (concerns : ∀ id, note.updates = some id →
      ∃ call, event.toolCall? = some call ∧ wireId call = id) :
    Shows p (p.sessionUpdate note) event := by
  refine .quiet [note] unannounced rfl rfl rfl (by simp [noCreation]) ?_
  intro update mem
  rw [List.mem_singleton.1 mem]
  exact concerns

theorem toolProgress_note {kind : ToolUpdateKind} {text : Option String} {note : SessionUpdate}
    (sends : toolProgressToSessionUpdate turnId toolCallId kind text = some note) :
    note.creates = none ∧ note.updates = some (acpToolCallId turnId toolCallId) := by
  cases text with
  | none => cases sends
  | some =>
    rw [toolProgressToSessionUpdate] at sends
    split at sends
    · cases sends
      exact ⟨rfl, rfl⟩
    · cases sends

theorem shows_onEvent {p : PromptTurn} {event : Event} {current : Option ℕ}
    (unsettled : p.settled = false) (on : (p.onEvent current event).2.subscribed = true) :
    Shows p (p.onEvent current event).2 event := by
  by_cases main : isFromMainAgent event = true
  case neg =>
    have foreign : isFromMainAgent event = false := by simpa using main
    have heard : (p.onEvent current event).2 = p := by
      rw [onEvent, dispatch]
      cases body : event.body <;> simp [trackStart, body, foreign]
    rw [heard]
    exact shows_nothing p (by simp [Event.announces, foreign])
  cases body : event.body with
  | turnStarted =>
    have unannounced : event.announces = none := by simp [Event.announces, main, body]
    refine .quiet [] unannounced ?_ ?_ ?_ rfl (List.forall_mem_nil _) <;>
      simp [onEvent, dispatch, trackStart, body, main]
  | turnEnded =>
    simp [onEvent, dispatch, trackStart, body, unsettled, main, settle] at on
  | error =>
    have heard : (p.onEvent current event).2 = p := by
      simp only [onEvent, dispatch, trackStart, body, unsettled, main, Bool.false_eq_true, if_false,
        Bool.not_true] at on ⊢
      split
      · rfl
      split
      · rfl
      case isFalse code started =>
        rw [if_neg code, if_neg started] at on
        cases on
    rw [heard]
    exact shows_nothing p (by simp [Event.announces, main, body])
  | assistantDelta turnId delta =>
    have heard : (p.onEvent current event).2 =
        p.sessionUpdate (assistantDeltaToSessionUpdate delta) := by
      simp [onEvent, dispatch, trackStart, body, main]
    rw [heard]
    exact shows_sessionUpdate p (by simp [Event.announces, main, body]) rfl
      fun _ no => by cases no
  | thinkingDelta turnId delta =>
    have heard : (p.onEvent current event).2 =
        p.sessionUpdate (thinkingDeltaToSessionUpdate delta) := by
      simp [onEvent, dispatch, trackStart, body, main]
    rw [heard]
    exact shows_sessionUpdate p (by simp [Event.announces, main, body]) rfl
      fun _ no => by cases no
  | toolCallStarted turnId toolCallId name args description display =>
    have heard : (p.onEvent current event).2 =
        p.toolCallStarted turnId toolCallId name args description display := by
      simp [onEvent, dispatch, trackStart, body, main]
    rw [heard]
    exact shows_toolCallStarted p main body
  | toolCallDelta turnId toolCallId name argumentsPart =>
    have heard : (p.onEvent current event).2 =
        p.toolCallDelta turnId toolCallId name argumentsPart := by
      simp [onEvent, dispatch, trackStart, body, main]
    rw [heard]
    exact shows_toolCallDelta p main body
  | toolProgress turnId toolCallId kind text =>
    have heard : (p.onEvent current event).2 = p.toolProgress turnId toolCallId kind text := by
      simp [onEvent, dispatch, trackStart, body, main]
    have unannounced : event.announces = none := by simp [Event.announces, main, body]
    have call : event.toolCall? = some (turnId, toolCallId) := by
      simp [Event.toolCall?, main, body]
    rw [heard, toolProgress]
    split
    case h_1 note sends =>
      obtain ⟨noCreation, updated⟩ := toolProgress_note sends
      exact shows_sessionUpdate p unannounced noCreation fun id updates =>
        ⟨_, call, Option.some.inj (updated.symm.trans updates)⟩
    case h_2 => exact shows_nothing p unannounced
  | toolResult turnId toolCallId output isError =>
    have heard : (p.onEvent current event).2 =
        p.sessionUpdate (toolResultToSessionUpdate turnId toolCallId output isError) := by
      simp [onEvent, dispatch, trackStart, body, main, toolResult]
    have call : event.toolCall? = some (turnId, toolCallId) := by
      simp [Event.toolCall?, main, body]
    rw [heard]
    have unannounced : event.announces = none := by simp [Event.announces, main, body]
    exact shows_sessionUpdate p unannounced rfl fun id updates =>
      ⟨_, call, Option.some.inj updates⟩
  | ofTurn turnId | other =>
    have heard : (p.onEvent current event).2 = p := by
      simp [onEvent, dispatch, trackStart, body, main]
    rw [heard]
    exact shows_nothing p (by simp [Event.announces, main, body])

theorem sent_of_unsubscribed {p : PromptTurn} {event : Event} {current : Option ℕ}
    (books : p.Books) (unsettled : p.settled = false)
    (off : (p.onEvent current event).2.subscribed = false) :
    (p.onEvent current event).2.sent = p.sent := by
  have before := trackStart_settled p event
  rw [unsettled] at before
  obtain ⟨-, same⟩ | ⟨outcome, ends, now⟩ :=
    dispatch_cases before (trackCurrent current event) event
  · have on := same.subscribed
    rw [(books.trackStart event).subscribed, before] at on
    rw [onEvent, on] at off
    cases off
  · rw [onEvent, now, trackStart_of_ends ends]
    rfl

end PromptTurn

/-! ## The events of one prompt -/

/-- A prompt submitted while `current` is the session's turn hears the events in order. -/
def listen (current : Option ℕ) (events : List Event) : Option ℕ × PromptTurn :=
  events.foldl
    (fun heard event => if heard.2.subscribed then heard.2.onEvent heard.1 event else heard)
    (current, { initialActiveTurnId := current })

/-- What the prompt has sent. -/
def sentAfter (current : Option ℕ) (events : List Event) : List SessionUpdate :=
  (listen current events).2.sent

theorem listen_append (current : Option ℕ) (events : List Event) (event : Event) :
    listen current (events ++ [event]) =
      if (listen current events).2.subscribed then
        (listen current events).2.onEvent (listen current events).1 event
      else listen current events := by
  rw [listen, List.foldl_append, List.foldl_cons, List.foldl_nil]
  rfl

theorem listen_books (current : Option ℕ) (events : List Event) :
    (listen current events).2.Books := by
  induction events using List.reverseRecOn with
  | nil => exact ⟨rfl, by simp [listen], by simp [listen], by simp [listen]⟩
  | append_singleton events event ih =>
    rw [listen_append]
    split
    case isTrue on => exact ih.onEvent (by simpa [ih.subscribed] using on) _ _
    case isFalse => exact ih

theorem listen_shows (on : (listen current (events ++ [event])).2.subscribed = true) :
    (listen current events).2.subscribed = true ∧
      (listen current events).2.Shows (listen current (events ++ [event])).2 event := by
  have books := listen_books current events
  rw [listen_append] at on ⊢
  split at on
  case isTrue before =>
    rw [if_pos before]
    exact ⟨before, PromptTurn.shows_onEvent (by simpa [books.subscribed] using before) on⟩
  case isFalse before => exact absurd on before

/-- The cards created are those of the calls announced, each once. -/
structure Cards (p : PromptTurn) (announced : List (ℕ × String)) : Prop where
  started : ∀ call, wireId call ∈ p.startedToolCalls ↔ call ∈ announced
  created : p.sent.filterMap SessionUpdate.creates = p.startedToolCalls
  nodup : p.startedToolCalls.Nodup

theorem Cards.shows {p q : PromptTurn} {announced : List (ℕ × String)} (cards : Cards p announced)
    (seen : p.Shows q event) :
    Cards q (announced ++ event.announces.toList) := by
  cases seen with
  | quiet new unannounced started args sent creates =>
    rw [unannounced, Option.toList_none, List.append_nil]
    refine ⟨?_, ?_, ?_⟩
    · rw [started]
      exact cards.started
    · rw [sent, started, List.filterMap_append, creates, List.append_nil]
      exact cards.created
    · rw [started]
      exact cards.nodup
  | create call card plan announces fresh started args sent id shown noCard =>
    rw [announces, Option.toList_some]
    refine ⟨?_, ?_, ?_⟩
    · intro other
      rw [started, List.mem_append, List.mem_append, cards.started, List.mem_singleton,
        List.mem_singleton, wireId_inj]
    · have noCreation : plan.filterMap SessionUpdate.creates = [] :=
        List.filterMap_eq_nil_iff.2 fun update mem => (noCard update mem).1
      rw [sent, started, List.filterMap_append, cards.created,
        List.filterMap_cons_some (b := wireId call) (by rw [SessionUpdate.creates, id]), noCreation]
    · rw [started]
      exact cards.nodup.append (List.nodup_singleton _) (by simpa using fresh)
  | update call card plan announces known started args sent id shown noCard =>
    rw [announces, Option.toList_some]
    refine ⟨?_, ?_, ?_⟩
    · intro other
      rw [started, List.mem_append, cards.started, List.mem_singleton]
      refine ⟨.inl, ?_⟩
      rintro (old | rfl)
      · exact old
      · exact (cards.started other).1 known
    · have noCreation : plan.filterMap SessionUpdate.creates = [] :=
        List.filterMap_eq_nil_iff.2 fun update mem => (noCard update mem).1
      rw [sent, started, List.filterMap_append, cards.created, List.filterMap_cons_none rfl,
        noCreation, List.append_nil]
    · rw [started]
      exact cards.nodup

theorem filterMap_announces_append (events : List Event) (event : Event) :
    (events ++ [event]).filterMap Event.announces =
      events.filterMap Event.announces ++ event.announces.toList := by
  rw [List.filterMap_append]
  cases announces : event.announces <;> simp [announces]

theorem listen_cards (on : (listen current events).2.subscribed = true) :
    Cards (listen current events).2 (events.filterMap Event.announces) := by
  induction events using List.reverseRecOn with
  | nil => exact ⟨by simp [listen], rfl, by simp [listen]⟩
  | append_singleton events event ih =>
    obtain ⟨before, seen⟩ := listen_shows on
    rw [filterMap_announces_append]
    exact (ih before).shows seen

/-! ## The accumulated text -/

/-- From a call's first announcement on, and as long as no other turn announces a call with its
raw id, the accumulator holds the text of the call's own events. -/
theorem listen_args {before since : List Event}
    (on : (listen current (before ++ since)).2.subscribed = true)
    (first : call ∉ before.filterMap Event.announces)
    (alone : ∀ other ∈ since.filterMap Event.announces, other.2 = call.2 → other = call)
    (announced : call ∈ since.filterMap Event.announces) :
    (listen current (before ++ since)).2.argsByToolCall call.2 = some (argsText call since) := by
  induction since using List.reverseRecOn with
  | nil => cases announced
  | append_singleton since event ih =>
    rw [← List.append_assoc] at on ⊢
    obtain ⟨earlier, seen⟩ := listen_shows on
    rw [filterMap_announces_append] at alone announced
    have ih := ih earlier fun other mem => alone other (List.mem_append_left _ mem)
    have cards := listen_cards earlier
    have known : wireId call ∈ (listen current (before ++ since)).2.startedToolCalls ↔
        call ∈ since.filterMap Event.announces := by
      rw [cards.started, List.filterMap_append, List.mem_append, or_iff_right first]
    rw [argsText_append]
    cases seen with
    | quiet new unannounced started args =>
      rw [unannounced, Option.toList_none, List.append_nil] at announced
      rw [args, ih announced, hearArgs, if_neg (by simp [unannounced])]
    | create other card plan announces fresh started args =>
      rw [announces, Option.toList_some] at alone announced
      by_cases mine : other = call
      · subst mine
        have silent : argsText other since = "" := by
          refine argsText_of_not_announced fun e mem here => ?_
          exact (known.not.1 fresh) (List.mem_filterMap.2 ⟨e, mem, here⟩)
        rw [args, Function.update_self, silent]
      · have otherId : call.2 ≠ other.2 := fun same =>
          mine (alone other (by simp) same.symm)
        have old := List.mem_append.1 announced |>.resolve_right
          (by simpa using fun same => mine same.symm)
        rw [args, Function.update_of_ne otherId, ih old, hearArgs,
          if_neg (by simpa [announces] using mine)]
    | update other card plan announces isKnown started args =>
      rw [announces, Option.toList_some] at alone announced
      by_cases mine : other = call
      · subst mine
        rw [args, Function.update_self, ih (known.1 isKnown), Option.getD_some]
      · have otherId : call.2 ≠ other.2 := fun same =>
          mine (alone other (by simp) same.symm)
        have old := List.mem_append.1 announced |>.resolve_right
          (by simpa using fun same => mine same.symm)
        rw [args, Function.update_of_ne otherId, ih old, hearArgs,
          if_neg (by simpa [announces] using mine)]

/-! ## Cards and texts -/

/-- What the client has been sent about tool calls when the prompt has heard `events`, and what it
is sent upon the next one. -/
structure CardsInOrder (current : Option ℕ) (events : List Event) : Prop where
  /-- One creation for a call that was announced, none for any other. -/
  created : ∀ call,
    ((sentAfter current events).filterMap SessionUpdate.creates).count (wireId call) =
      if call ∈ events.filterMap Event.announces then 1 else 0
  /-- The next event sends updates for its own call only, after the creation if the call was
  announced. -/
  next : ∀ event, ∃ new, sentAfter current (events ++ [event]) = sentAfter current events ++ new ∧
    ∀ update ∈ new, ∀ id, update.updates = some id →
      ∃ call, event.toolCall? = some call ∧ wireId call = id ∧
        (call ∈ (events ++ [event]).filterMap Event.announces →
          id ∈ (sentAfter current events).filterMap SessionUpdate.creates)
  /-- An announcement sends the text of the call's own events, as long as no other turn has
  announced a call with its raw id since the call's first. -/
  text : ∀ before since call, events = before ++ since →
    call ∉ before.filterMap Event.announces →
    (∀ other ∈ since.filterMap Event.announces, other.2 = call.2 → other = call) →
    ∀ event, event.announces = some call →
      ∃ card plan, card.toolCallId = wireId call ∧
        (sentAfter current (events ++ [event]) =
            sentAfter current events ++ .tool_call card :: plan ∨
          sentAfter current (events ++ [event]) =
            sentAfter current events ++ .tool_call_update card :: plan) ∧
        card.argsShown = some (argsText call (since ++ [event])) ∧
        ((∀ e ∈ since ++ [event], ¬ Starts call e) →
          card.argsShown =
            some (String.join ((since ++ [event]).filterMap (argumentPart call))))

theorem Event.toolCall?_of_announces (announces : event.announces = some call) :
    event.toolCall? = some call := by
  rw [Event.announces] at announces
  split at announces
  case isFalse => cases announces
  case isTrue main =>
    rw [Event.toolCall?, if_pos main]
    split at announces <;> simp_all

theorem on_of_announces (on : (listen current events).2.subscribed = true)
    (announces : event.announces = some call) :
    (listen current (events ++ [event])).2.subscribed = true := by
  have books := listen_books current events
  have unsettled : (listen current events).2.settled = false := by
    simpa [books.subscribed] using on
  rw [listen_append, if_pos on, PromptTurn.onEvent]
  have before := PromptTurn.trackStart_settled (listen current events).2 event
  rw [unsettled] at before
  obtain ⟨-, same⟩ | ⟨outcome, ends, -⟩ := PromptTurn.dispatch_cases before
    (PromptTurn.trackCurrent (listen current events).1 event) event
  · rw [same.subscribed, (books.trackStart event).subscribed, before]
    rfl
  · cases ends with
    | busy body main | turn body main => simp [Event.announces, body] at announces

theorem cards_next (on : (listen current events).2.subscribed = true) (event : Event) :
    ∃ new, sentAfter current (events ++ [event]) = sentAfter current events ++ new ∧
      ∀ update ∈ new, ∀ id, update.updates = some id →
        ∃ call, event.toolCall? = some call ∧ wireId call = id ∧
          (call ∈ (events ++ [event]).filterMap Event.announces →
            id ∈ (sentAfter current events).filterMap SessionUpdate.creates) := by
  have books := listen_books current events
  have cards := listen_cards on
  by_cases after : (listen current (events ++ [event])).2.subscribed = true
  case neg =>
    refine ⟨[], ?_, List.forall_mem_nil _⟩
    rw [listen_append, if_pos on] at after
    rw [List.append_nil, sentAfter, listen_append, if_pos on]
    exact PromptTurn.sent_of_unsubscribed books (by simpa [books.subscribed] using on)
      (by simpa using after)
  obtain ⟨-, seen⟩ := listen_shows after
  cases seen with
  | quiet new unannounced started args sent creates concerns =>
    refine ⟨new, sent, fun update mem id updates => ?_⟩
    obtain ⟨call, here, wire⟩ := concerns update mem id updates
    refine ⟨call, here, wire, fun announced => ?_⟩
    rw [filterMap_announces_append, unannounced, Option.toList_none, List.append_nil] at announced
    rw [sentAfter, cards.created, ← wire]
    exact (cards.started call).2 announced
  | create call card plan announces fresh started args sent id shown noCard =>
    refine ⟨_, sent, fun update mem id' updates => ?_⟩
    obtain rfl | later := List.mem_cons.1 mem
    · cases updates
    · rw [(noCard update later).2] at updates
      cases updates
  | update call card plan announces known started args sent id shown noCard =>
    refine ⟨_, sent, fun update mem id' updates => ?_⟩
    obtain rfl | later := List.mem_cons.1 mem
    · have wire : wireId call = id' := id.symm.trans (Option.some.inj updates)
      refine ⟨call, Event.toolCall?_of_announces announces, wire, fun _ => ?_⟩
      rw [sentAfter, cards.created, ← wire]
      exact known
    · rw [(noCard update later).2] at updates
      cases updates

theorem cards_text {before since : List Event}
    (on : (listen current (before ++ since)).2.subscribed = true)
    (first : call ∉ before.filterMap Event.announces)
    (alone : ∀ other ∈ since.filterMap Event.announces, other.2 = call.2 → other = call)
    (announces : event.announces = some call) :
    ∃ card plan, card.toolCallId = wireId call ∧
      (sentAfter current (before ++ since ++ [event]) =
          sentAfter current (before ++ since) ++ .tool_call card :: plan ∨
        sentAfter current (before ++ since ++ [event]) =
          sentAfter current (before ++ since) ++ .tool_call_update card :: plan) ∧
      card.argsShown = some (argsText call (since ++ [event])) := by
  have cards := listen_cards on
  have known : wireId call ∈ (listen current (before ++ since)).2.startedToolCalls ↔
      call ∈ since.filterMap Event.announces := by
    rw [cards.started, List.filterMap_append, List.mem_append, or_iff_right first]
  obtain ⟨-, seen⟩ := listen_shows (on_of_announces on announces)
  cases seen with
  | quiet new unannounced => rw [unannounced] at announces; cases announces
  | create other card plan announces' fresh started args sent id shown =>
    obtain rfl := Option.some.inj (announces'.symm.trans announces)
    refine ⟨card, plan, id, .inl sent, ?_⟩
    have silent : argsText other since = "" := by
      refine argsText_of_not_announced fun e mem here => ?_
      exact (known.not.1 fresh) (List.mem_filterMap.2 ⟨e, mem, here⟩)
    rw [shown, argsText_append, silent]
  | update other card plan announces' isKnown started args sent id shown =>
    cases announces'.symm.trans announces
    refine ⟨card, plan, id, .inr sent, ?_⟩
    rw [shown, argsText_append, listen_args on first alone (known.1 isKnown), Option.getD_some]

/-- While the prompt listens, cards are created once and before their updates, and an update
carries the arguments of its own call. -/
theorem toolCards_inOrder (on : (listen current events).2.subscribed = true) :
    CardsInOrder current events where
  created call := by
    have cards := listen_cards on
    rw [sentAfter, cards.created, List.Nodup.count cards.nodup]
    simp only [cards.started]
  next := cards_next on
  text := by
    rintro before since call rfl first alone event announces
    obtain ⟨card, plan, id, sent, shown⟩ := cards_text on first alone announces
    refine ⟨card, plan, id, sent, shown, fun waiting => ?_⟩
    rw [shown, argsText_of_not_started waiting]

/-- An event of the main agent. -/
def mainEvent (body : EventBody) : Event := ⟨some MAIN_AGENT_ID, body⟩

/-- A call streamed before it starts, and its raw id used again in the next turn. -/
theorem toolCards_inOrder_reused : CardsInOrder none
    [mainEvent (.toolCallDelta 1 "call_0" (some "Read") (some "\x7b")),
      mainEvent (.toolCallDelta 1 "call_0" none (some "\x7d")),
      mainEvent (.toolCallStarted 1 "call_0" "Read" (some (.object [])) none none),
      mainEvent (.toolResult 1 "call_0" (some (.string "ok")) none),
      mainEvent (.toolCallDelta 2 "call_0" (some "Bash") (some "\x7b"))] :=
  toolCards_inOrder rfl

/-- A started event before the deltas: the text begins with the event's arguments. -/
theorem startedFirst_text : ¬ ∀ current events event turnId toolCallId name argumentsPart,
    (listen current events).2.subscribed = true → isFromMainAgent event = true →
    event.body = .toolCallDelta turnId toolCallId name argumentsPart →
    ∀ card, sentAfter current (events ++ [event]) =
        sentAfter current events ++ [.tool_call_update card] →
      card.argsShown = some
        (String.join ((events ++ [event]).filterMap (argumentPart (turnId, toolCallId)))) := by
  intro all
  have same := all none
    [mainEvent (.toolCallStarted 1 "call_0" "Read" (some (.object [])) none none)]
    (mainEvent (.toolCallDelta 1 "call_0" none (some ","))) 1 "call_0" none (some ",")
    rfl rfl rfl _ rfl
  revert same
  decide

end KimiCli.Acp
