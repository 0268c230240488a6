import KimiCli.Js.Json

/-!
# The in-flight turn

`services/gateway/inFlightTurnTracker.ts`: what the server accumulates of the main agent's current
turn, and the offset it gives every text delta.  The tracker keeps one accumulation a session; the
model is that of one session.  Streamed text is given by its UTF-16 code units, in which the source
counts its offsets.
-/

namespace KimiCli

def MAIN_AGENT_ID : String := "main"

/-- The code units of a JavaScript string. -/
abbrev CodeUnits := List UInt16

inductive ToolUpdateKind
  | stdout | stderr | progress | status | custom
  deriving DecidableEq

structure ToolUpdate where
  kind : ToolUpdateKind
  text : Option CodeUnits := none
  percent : Option NumberToken := none

/-- The two text streams of a turn: `assistant.delta` and `thinking.delta`. -/
inductive DeltaKind
  | text | thinking
  deriving DecidableEq

/-- The token counts of a step, under either of the two sets of names. -/
structure RawUsage where
  inputOther : Option ℕ := none
  input_tokens : Option ℕ := none
  output : Option ℕ := none
  output_tokens : Option ℕ := none
  inputCacheRead : Option ℕ := none
  cache_read_input_tokens : Option ℕ := none
  inputCacheCreation : Option ℕ := none
  cache_creation_input_tokens : Option ℕ := none

/-- The events of a turn. -/
inductive TurnEvent
  | turnStarted (turnId : ℕ)
  | turnEnded (turnId : ℕ) (reason : String) (durationMs : Option ℕ)
  | stepStarted (turnId : ℕ)
  | stepCompleted (turnId : ℕ) (usage : RawUsage)
  | stepRetrying (turnId : ℕ)
  | stepInterrupted (turnId : ℕ)
  /-- `assistant.delta` or `thinking.delta`. -/
  | delta (kind : DeltaKind) (turnId : ℕ) (delta : CodeUnits)
  | toolCallStarted (turnId : ℕ) (toolCallId name : String) (args : Option Json)
      (description : Option String) (display : Option Json)
  | toolCallDelta (turnId : ℕ) (toolCallId : String)
  | toolProgress (turnId : ℕ) (toolCallId : String) (update : ToolUpdate)
  | toolResult (turnId : ℕ) (toolCallId : String) (output : Json) (isError : Option Bool)
  | statusUpdated (model : Option String) (contextTokens maxContextTokens : Option ℕ)
      (swarmMode planMode : Option Bool)
  | promptCompleted

structure AgentEvent where
  agentId : String
  event : TurnEvent

structure ToolAccum where
  tool_call_id : String
  name : String
  args : Option Json
  description : Option String := none
  display : Option Json := none
  last_progress : Option ToolUpdate := none

structure TurnAccum where
  turnId : ℕ
  assistantText : CodeUnits := []
  thinkingText : CodeUnits := []
  /-- The entries of the map in insertion order. -/
  tools : List (String × ToolAccum) := []

/-- `Map.prototype.set` on the entries of a map. -/
def mapSet {α : Type} (entries : List (String × α)) (key : String) (value : α) :
    List (String × α) :=
  if entries.any (·.1 == key) then
    entries.map fun entry => if entry.1 == key then (key, value) else entry
  else entries ++ [(key, value)]

namespace TurnAccum

def stream (turn : TurnAccum) : DeltaKind → CodeUnits
  | .text => turn.assistantText
  | .thinking => turn.thinkingText

def append (turn : TurnAccum) (kind : DeltaKind) (delta : CodeUnits) : TurnAccum :=
  match kind with
  | .text => { turn with assistantText := turn.assistantText ++ delta }
  | .thinking => { turn with thinkingText := turn.thinkingText ++ delta }

@[simp] theorem stream_append (turn : TurnAccum) (kind : DeltaKind) (delta : CodeUnits) :
    (turn.append kind delta).stream kind = turn.stream kind ++ delta := by
  cases kind <;> rfl

theorem stream_append_ne (turn : TurnAccum) {kind other : DeltaKind} (ne : other ≠ kind)
    (delta : CodeUnits) : (turn.append kind delta).stream other = turn.stream other := by
  cases kind <;> cases other <;> first | rfl | exact absurd rfl ne

@[simp] theorem turnId_append (turn : TurnAccum) (kind : DeltaKind) (delta : CodeUnits) :
    (turn.append kind delta).turnId = turn.turnId := by
  cases kind <;> rfl

end TurnAccum

structure InFlightTurn where
  turn_id : ℕ
  assistant_text : CodeUnits
  thinking_text : CodeUnits
  running_tools : List ToolAccum

namespace InFlightTurnTracker

/-- `apply`: the accumulation afterwards and the offset of a text delta. -/
def apply (state : Option TurnAccum) (e : AgentEvent) : Option TurnAccum × Option ℕ :=
  if e.agentId ≠ MAIN_AGENT_ID then (state, none)
  else
    match e.event with
    | .turnStarted turnId => (some { turnId := turnId }, none)
    | .turnEnded _ _ _ => (none, none)
    | .delta kind turnId delta =>
      match state with
      | none => (state, none)
      | some turn =>
        if turn.turnId ≠ turnId then (state, none)
        else (some (turn.append kind delta), some (turn.stream kind).length)
    | .toolCallStarted turnId toolCallId name args description display =>
      match state with
      | none => (state, none)
      | some turn =>
        if turn.turnId ≠ turnId then (state, none)
        else
          let tool : ToolAccum :=
            { tool_call_id := toolCallId, name := name, args := args,
              description := description, display := display }
          (some { turn with tools := mapSet turn.tools toolCallId tool }, none)
    | .toolProgress _ toolCallId update =>
      match state with
      | none => (state, none)
      | some turn =>
        match turn.tools.lookup toolCallId with
        | none => (state, none)
        | some tool =>
          if update.kind = .custom then (state, none)
          else
            let tool := { tool with last_progress := some update }
            (some { turn with tools := mapSet turn.tools toolCallId tool }, none)
    | .toolResult _ toolCallId _ _ =>
      (state.map fun turn =>
        { turn with tools := turn.tools.filter fun entry => entry.1 != toolCallId }, none)
    | _ => (state, none)

/-- `get`: the part of the snapshot that the client is seeded with. -/
def get (state : Option TurnAccum) : Option InFlightTurn :=
  state.map fun turn =>
    { turn_id := turn.turnId
      assistant_text := turn.assistantText
      thinking_text := turn.thinkingText
      running_tools := turn.tools.map (·.2) }

/-- The accumulation after the events. -/
def run (state : Option TurnAccum) (events : List AgentEvent) : Option TurnAccum :=
  events.foldl (fun s e => (apply s e).1) state

/-- The events, each with the offset that the broadcast stamps on it. -/
def stamp : Option TurnAccum → List AgentEvent → List (AgentEvent × Option ℕ)
  | _, [] => []
  | state, e :: rest => (e, (apply state e).2) :: stamp (apply state e).1 rest

@[simp] theorem length_stamp (state : Option TurnAccum) (events : List AgentEvent) :
    (stamp state events).length = events.length := by
  induction events generalizing state with
  | nil => rfl
  | cons e rest ih => exact congrArg Nat.succ (ih _)

theorem stamp_getElem? (state : Option TurnAccum) (events : List AgentEvent) {i : ℕ}
    {e : AgentEvent} (at_i : events[i]? = some e) :
    (stamp state events)[i]? = some (e, (apply (run state (events.take i)) e).2) := by
  induction events generalizing state i with
  | nil => simp at at_i
  | cons first rest ih =>
    cases i with
    | zero =>
      obtain rfl : first = e := by simpa using at_i
      rfl
    | succ => exact ih _ (by simpa using at_i)

end InFlightTurnTracker

/-! ## The streams of a turn -/

/-- What an event adds to a stream of the main agent. -/
def AgentEvent.adds (kind : DeltaKind) (e : AgentEvent) : CodeUnits :=
  if e.agentId ≠ MAIN_AGENT_ID then []
  else
    match e.event with
    | .delta k _ delta => if k = kind then delta else []
    | _ => []

/-- The text of a stream of the main agent after the events. -/
def streamed (kind : DeltaKind) (events : List AgentEvent) : CodeUnits :=
  events.flatMap (AgentEvent.adds kind)

@[simp] theorem streamed_nil (kind : DeltaKind) : streamed kind [] = [] := rfl

@[simp] theorem streamed_append (kind : DeltaKind) (xs ys : List AgentEvent) :
    streamed kind (xs ++ ys) = streamed kind xs ++ streamed kind ys := List.flatMap_append

@[simp] theorem streamed_singleton (kind : DeltaKind) (e : AgentEvent) :
    streamed kind [e] = e.adds kind := by
  simp [streamed]

/-- An event that may stand inside turn `turnId`: an event of another agent, or one of the main
agent's that neither starts nor ends a turn and whose delta is the turn's. -/
def AgentEvent.InTurn (turnId : ℕ) (e : AgentEvent) : Prop :=
  e.agentId = MAIN_AGENT_ID →
    match e.event with
    | .turnStarted _ => False
    | .turnEnded _ _ _ => False
    | .delta _ t _ => t = turnId
    | _ => True

/-- A turn of the main agent up to some moment. -/
structure MainTurn where
  turnId : ℕ
  rest : List AgentEvent
  inTurn : ∀ e ∈ rest, e.InTurn turnId

namespace MainTurn

def started (turn : MainTurn) : AgentEvent := ⟨MAIN_AGENT_ID, .turnStarted turn.turnId⟩

/-- The events of the turn, `turn.started` first. -/
def events (turn : MainTurn) : List AgentEvent := turn.started :: turn.rest

end MainTurn

namespace InFlightTurnTracker

theorem apply_tools (turn : TurnAccum) (event : TurnEvent)
    (started : ∀ turnId, event ≠ .turnStarted turnId)
    (ended : ∀ turnId reason durationMs, event ≠ .turnEnded turnId reason durationMs)
    (delta : ∀ kind turnId delta, event ≠ .delta kind turnId delta) :
    ∃ tools, (apply (some turn) ⟨MAIN_AGENT_ID, event⟩).1 = some { turn with tools := tools } := by
  cases event with
  | turnStarted turnId => exact absurd rfl (started turnId)
  | turnEnded turnId reason durationMs => exact absurd rfl (ended turnId reason durationMs)
  | delta kind turnId text => exact absurd rfl (delta kind turnId text)
  | toolCallStarted turnId toolCallId name args description display =>
    by_cases same : turn.turnId = turnId
    · let tool : ToolAccum :=
        { tool_call_id := toolCallId, name := name, args := args,
          description := description, display := display }
      exact ⟨mapSet turn.tools toolCallId tool, by simp [apply, same, tool]⟩
    · exact ⟨turn.tools, by simp [apply, same]⟩
  | toolProgress turnId toolCallId update =>
    cases found : turn.tools.lookup toolCallId with
    | none => exact ⟨turn.tools, by simp [apply, found]⟩
    | some tool =>
      by_cases custom : update.kind = .custom
      · exact ⟨turn.tools, by simp [apply, found, custom]⟩
      · let updated : ToolAccum := { tool with last_progress := some update }
        exact ⟨mapSet turn.tools toolCallId updated, by simp [apply, found, custom, updated]⟩
  | toolResult => exact ⟨_, rfl⟩
  | stepStarted _ | stepCompleted _ _ | stepRetrying _ | stepInterrupted _ | toolCallDelta _ _
  | statusUpdated _ _ _ _ _ | promptCompleted => exact ⟨turn.tools, rfl⟩

theorem apply_inTurn {turn : TurnAccum} {e : AgentEvent} (inTurn : e.InTurn turn.turnId) :
    ∃ next, (apply (some turn) e).1 = some next ∧ next.turnId = turn.turnId ∧
      ∀ kind, next.stream kind = turn.stream kind ++ e.adds kind := by
  obtain ⟨agentId, event⟩ := e
  by_cases main : agentId = MAIN_AGENT_ID
  case neg => exact ⟨turn, by simp [apply, main], rfl, fun kind => by simp [AgentEvent.adds, main]⟩
  subst main
  have allowed := inTurn rfl
  by_cases text : ∃ kind turnId delta, event = .delta kind turnId delta
  · obtain ⟨kind, turnId, delta, rfl⟩ := text
    obtain rfl : turnId = turn.turnId := allowed
    refine ⟨turn.append kind delta, by simp [apply], by simp, fun other => ?_⟩
    by_cases same : kind = other
    · subst same
      simp [AgentEvent.adds]
    · simp [AgentEvent.adds, same, turn.stream_append_ne (Ne.symm same)]
  · obtain ⟨tools, eq⟩ := apply_tools turn event
      (fun turnId h => by subst h; exact allowed)
      (fun turnId reason durationMs h => by subst h; exact allowed)
      (fun kind turnId delta h => text ⟨kind, turnId, delta, h⟩)
    refine ⟨_, eq, rfl, fun kind => ?_⟩
    have silent : AgentEvent.adds kind ⟨MAIN_AGENT_ID, event⟩ = [] := by
      cases event <;> first | rfl | exact absurd ⟨_, _, _, rfl⟩ text
    rw [silent, List.append_nil]
    cases kind <;> rfl

/-- Inside a turn the accumulated streams are those of the events seen. -/
theorem run_rest (turn : TurnAccum) (events : List AgentEvent)
    (inTurn : ∀ e ∈ events, e.InTurn turn.turnId) :
    ∃ next, run (some turn) events = some next ∧ next.turnId = turn.turnId ∧
      ∀ kind, next.stream kind = turn.stream kind ++ streamed kind events := by
  induction events generalizing turn with
  | nil => exact ⟨turn, rfl, rfl, fun kind => by simp⟩
  | cons e rest ih =>
    obtain ⟨mid, eq, sameTurn, grown⟩ := apply_inTurn (inTurn e (by simp))
    obtain ⟨next, run_eq, sameTurn', grown'⟩ :=
      ih mid fun e' mem => sameTurn ▸ inTurn e' (List.mem_cons_of_mem _ mem)
    refine ⟨next, ?_, sameTurn'.trans sameTurn, fun kind => ?_⟩
    · rw [run, List.foldl_cons, eq]
      exact run_eq
    · rw [grown', grown, List.append_assoc]
      rfl

/-- After the first events of a turn, `turn.started` among them, the tracker holds their streams. -/
theorem run_turn (turn : MainTurn) (state : Option TurnAccum) (k : ℕ) :
    ∃ next, run state (turn.events.take (k + 1)) = some next ∧ next.turnId = turn.turnId ∧
      ∀ kind, next.stream kind = streamed kind (turn.events.take (k + 1)) := by
  obtain ⟨next, eq, sameTurn, grown⟩ := run_rest { turnId := turn.turnId }
    (turn.rest.take k) fun e mem => turn.inTurn e (List.mem_of_mem_take mem)
  refine ⟨next, eq, sameTurn, fun kind => ?_⟩
  rw [grown]
  cases kind <;> rfl

theorem apply_offset {turn : TurnAccum} {turnId : ℕ} (same : turn.turnId = turnId)
    (kind : DeltaKind) (delta : CodeUnits) :
    (apply (some turn) ⟨MAIN_AGENT_ID, .delta kind turnId delta⟩).2 =
      some (turn.stream kind).length := by
  simp [apply, same]

end InFlightTurnTracker

end KimiCli
