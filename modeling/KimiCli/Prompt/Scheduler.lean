import KimiCli.Lib.Run
import Mathlib.Logic.Function.Basic
import Mathlib.Data.List.Nodup

/-!
# The prompt scheduler

The active prompt and the queue of one agent in `services/prompt/promptService.ts`, with the turns
of the agent (`agent/turn/index.ts`).  An operation runs up to its next await in one step; what it
waits for there is in the state.  The awaits before the first such step (the session check, the
resume and the auth gate) come before anything is read, so that a step can be taken at any time.
-/

namespace KimiCli

/-! ## Turns -/

inductive TurnEndReason
  | completed | cancelled | failed | filtered
  deriving DecidableEq

inductive TurnFlowEvent
  | started (turnId : ℕ)
  | ended (turnId : ℕ) (reason : TurnEndReason)

/-- `TurnFlow`, with the events of its turns that are still to be delivered. -/
structure TurnFlow where
  /-- The number of turns launched so far; `turnId` is one less. -/
  turnCount : ℕ := 0
  activeTurn : Option ℕ := none
  /-- The turns whose end is to come; a cancelled one is no longer active. -/
  running : List ℕ := []
  /-- The prompt whose `core.prompt` has launched the turn. -/
  launchedBy : ℕ → Option ℕ := fun _ => none
  outbox : List TurnFlowEvent := []

namespace TurnFlow

/-- `launch` for a prompt, or for anything else. -/
def launch (core : TurnFlow) (promptId : Option ℕ) : TurnFlow :=
  if core.activeTurn.isSome then core
  else
    { turnCount := core.turnCount + 1
      activeTurn := some core.turnCount
      running := core.running ++ [core.turnCount]
      launchedBy := Function.update core.launchedBy core.turnCount promptId
      outbox := core.outbox ++ [.started core.turnCount] }

def cancel (core : TurnFlow) (turnId : Option ℕ) : TurnFlow :=
  if turnId.any fun turn => turn + 1 ≠ core.turnCount then core
  else { core with activeTurn := none }

/-- The end of `runOneTurn`. -/
def endTurn (core : TurnFlow) (turnId : ℕ) (reason : TurnEndReason) : TurnFlow :=
  { core with
    activeTurn := if core.activeTurn = some turnId then none else core.activeTurn
    running := core.running.erase turnId
    outbox := core.outbox ++ [.ended turnId reason] }

end TurnFlow

/-! ## Prompts -/

structure PromptState where
  /-- The body carries runtime controls, and the agent is the main agent. -/
  hasOverride : Bool := false
  turnId : Option ℕ := none
  completed : Bool := false
  aborted : Bool := false

inductive PromptStatus
  | running | queued
  deriving DecidableEq

inductive CompletionReason
  | completed | failed
  deriving DecidableEq

def TurnEndReason.completion : TurnEndReason → CompletionReason
  | .failed | .filtered => .failed
  | .completed | .cancelled => .completed

/-- The events that the service publishes. -/
inductive PromptEvent
  | submitted (promptId : ℕ) (status : PromptStatus)
  | completed (promptId : ℕ) (reason : CompletionReason)
  | aborted (promptId : ℕ)
  | steered (activePromptId : ℕ) (promptIds : List ℕ)
  deriving DecidableEq

inductive StartCaller
  | submit | startNextQueued
  deriving DecidableEq

/-- A call of `_startPrompt`. -/
structure Start where
  promptId : ℕ
  caller : StartCaller
  deriving DecidableEq

/-- A call of `abort` that waits for `core.cancel`. -/
structure Abort where
  promptId : ℕ
  turnId : Option ℕ
  /-- The cancellation has reached the agent. -/
  handled : Bool := false

/-- A call of `steer` that waits for `core.steer`. -/
structure Steer where
  activePromptId : ℕ
  promptIds : List ℕ
  /-- The input has reached the agent. -/
  handled : Bool := false

structure PromptWorld where
  created : ℕ := 0
  entry : ℕ → PromptState := fun _ => {}
  active : Option ℕ := none
  queued : List ℕ := []
  /-- The starts that wait for the bootstrap and the setters. -/
  starting : List Start := []
  /-- The starts whose `core.prompt` has not reached the agent. -/
  prompting : List Start := []
  aborting : List Abort := []
  steering : List Steer := []
  /-- The cancellations of `abortBySession` that have not reached the agent. -/
  cancelling : ℕ := 0
  published : List PromptEvent := []
  /-- All calls of `_startPrompt` so far. -/
  started : List Start := []
  core : TurnFlow := {}

namespace PromptWorld

variable (w : PromptWorld)

def publish (event : PromptEvent) : PromptWorld := { w with published := w.published ++ [event] }

def setEntry (promptId : ℕ) (state : PromptState) : PromptWorld :=
  { w with entry := Function.update w.entry promptId state }

/-- There is an active prompt that is neither completed nor aborted. -/
def activeLive : Bool :=
  w.active.any fun promptId => !(w.entry promptId).completed && !(w.entry promptId).aborted

/-- `_startPrompt` from where the prompt becomes active to the call of `core.prompt`. -/
def callPrompt (start : Start) : PromptWorld :=
  { w with
    active := some start.promptId
    published := w.published ++
      (if start.caller = .submit then [.submitted start.promptId .running] else [])
    prompting := w.prompting ++ [start] }

def startPrompt (start : Start) : PromptWorld :=
  let w := { w with started := w.started ++ [start] }
  if (w.entry start.promptId).hasOverride then { w with starting := w.starting ++ [start] }
  else w.callPrompt start

def startNextQueued : PromptWorld :=
  if w.activeLive then w
  else
    match w.queued with
    | [] => w
    | next :: rest =>
      { w with queued := rest }.startPrompt { promptId := next, caller := .startNextQueued }

/-- What the caller of `_startPrompt` does when it throws. -/
def startFailed (start : Start) : PromptWorld :=
  match start.caller with
  | .submit => w
  | .startNextQueued => w.startNextQueued

def submit (hasOverride : Bool) : PromptWorld :=
  let promptId := w.created
  let w := { w with created := promptId + 1 }.setEntry promptId { hasOverride }
  if w.activeLive then
    { w with queued := w.queued ++ [promptId] }.publish (.submitted promptId .queued)
  else w.startPrompt { promptId, caller := .submit }

def abort (promptId : ℕ) : Option PromptWorld :=
  let state := w.entry promptId
  if w.active = some promptId then
    if state.completed || state.aborted then none
    else
      some { w.setEntry promptId { state with aborted := true } with
        aborting := w.aborting ++ [{ promptId, turnId := state.turnId }] }
  else if promptId ∈ w.queued then
    some ({ w with queued := w.queued.erase promptId }.publish (.aborted promptId))
  else none

def abortBySession : Option PromptWorld :=
  match w.active with
  | some promptId =>
    if w.activeLive then w.abort promptId else some { w with cancelling := w.cancelling + 1 }
  | none => some { w with cancelling := w.cancelling + 1 }

def steer (promptIds : List ℕ) : Option PromptWorld :=
  match w.active with
  | some activePromptId =>
    if promptIds ≠ [] ∧ w.activeLive ∧ ∀ promptId ∈ promptIds, promptId ∈ w.queued then
      some { w with
        queued := w.queued.filter (· ∉ promptIds)
        steering := w.steering ++ [{ activePromptId, promptIds }] }
    else none
  | none => none

/-- `_restoreSteeredQueueItems`. -/
def restoreSteered (selected : List ℕ) : PromptWorld :=
  { w with queued := selected.filter (· ∉ w.queued) ++ w.queued }

/-- `_handleBusEvent`. -/
def handleBusEvent (event : TurnFlowEvent) : PromptWorld :=
  match w.active with
  | none => w
  | some promptId =>
    let state := w.entry promptId
    match event with
    | .started turnId =>
      w.setEntry promptId { state with turnId := state.turnId <|> some turnId }
    | .ended turnId reason =>
      if state.turnId ≠ some turnId then w
      else if state.aborted then { w with active := none }.startNextQueued
      else if reason = .cancelled then
        ({ w.setEntry promptId { state with aborted := true } with active := none }.publish
          (.aborted promptId)).startNextQueued
      else
        ({ w.setEntry promptId { state with completed := true } with active := none }.publish
          (.completed promptId reason.completion)).startNextQueued

end PromptWorld

/-! ## Steps -/

inductive PromptStep
  | submit (hasOverride : Bool)
  /-- The setters of a start have all returned. -/
  | settersDone (i : ℕ)
  | settersReject (i : ℕ)
  | promptHandled (i : ℕ)
  | promptRejects (i : ℕ)
  | abort (promptId : ℕ)
  | cancelHandled (i : ℕ)
  | cancelResolves (i : ℕ)
  | cancelRejects (i : ℕ)
  | abortBySession
  | sessionCancelHandled
  | steer (promptIds : List ℕ)
  | steerHandled (i : ℕ)
  | steerResolves (i : ℕ)
  | steerRejects (i : ℕ)
  /-- The agent launches a turn for something else than a prompt. -/
  | ownTurn
  | endTurn (turnId : ℕ) (reason : TurnEndReason)
  /-- The oldest event of the agent is delivered. -/
  | deliver

namespace PromptWorld

def step (w : PromptWorld) : PromptStep → Option PromptWorld
  | .submit hasOverride => some (w.submit hasOverride)
  | .settersDone i =>
    w.starting[i]?.map fun start => { w with starting := w.starting.eraseIdx i }.callPrompt start
  | .settersReject i =>
    w.starting[i]?.map fun start => { w with starting := w.starting.eraseIdx i }.startFailed start
  | .promptHandled i =>
    w.prompting[i]?.map fun start =>
      { w with prompting := w.prompting.eraseIdx i, core := w.core.launch (some start.promptId) }
  | .promptRejects i =>
    w.prompting[i]?.map fun start =>
      { w with
        prompting := w.prompting.eraseIdx i
        active := if w.active = some start.promptId then none else w.active }.startFailed start
  | .abort promptId => w.abort promptId
  | .cancelHandled i =>
    match w.aborting[i]? with
    | some { promptId, turnId, handled := false } =>
      some { w with
        aborting := w.aborting.set i { promptId, turnId, handled := true }
        core := w.core.cancel turnId }
    | _ => none
  | .cancelResolves i =>
    match w.aborting[i]? with
    | some { promptId, handled := true, .. } =>
      some ({ w with aborting := w.aborting.eraseIdx i }.publish (.aborted promptId))
    | _ => none
  | .cancelRejects i =>
    w.aborting[i]?.map fun call =>
      { w with aborting := w.aborting.eraseIdx i }.setEntry call.promptId
        { w.entry call.promptId with aborted := false }
  | .abortBySession => w.abortBySession
  | .sessionCancelHandled =>
    if w.cancelling = 0 then none
    else some { w with cancelling := w.cancelling - 1, core := w.core.cancel none }
  | .steer promptIds => w.steer promptIds
  | .steerHandled i =>
    match w.steering[i]? with
    | some { activePromptId, promptIds, handled := false } =>
      -- a running turn takes the input over, else it launches one
      some { w with
        steering := w.steering.set i { activePromptId, promptIds, handled := true }
        core := w.core.launch none }
    | _ => none
  | .steerResolves i =>
    match w.steering[i]? with
    | some { activePromptId, promptIds, handled := true } =>
      some ({ w with steering := w.steering.eraseIdx i }.publish
        (.steered activePromptId promptIds))
    | _ => none
  | .steerRejects i =>
    w.steering[i]?.map fun call =>
      { w with steering := w.steering.eraseIdx i }.restoreSteered call.promptIds
  | .ownTurn =>
    if w.core.activeTurn = none then some { w with core := w.core.launch none } else none
  | .endTurn turnId reason =>
    if turnId ∈ w.core.running then some { w with core := w.core.endTurn turnId reason } else none
  | .deliver =>
    match w.core.outbox with
    | [] => none
    | event :: rest => some ({ w with core := { w.core with outbox := rest } }.handleBusEvent event)

end PromptWorld

/-! ## The invariant of turns -/

/-- The turn of the event, if it is an end. -/
def TurnFlowEvent.ends : TurnFlowEvent → Option ℕ
  | .started _ => none
  | .ended turnId _ => some turnId

/-- The turn of the event, if it is a start. -/
def TurnFlowEvent.starts : TurnFlowEvent → Option ℕ
  | .started turnId => some turnId
  | .ended _ _ => none

namespace TurnFlow

/-- The turns whose end has not been delivered. -/
def pending (core : TurnFlow) : List ℕ := core.running ++ core.outbox.filterMap (·.ends)

/-- No turn that was launched for something else than a prompt is running, or will be reported. -/
def PromptsOnly (core : TurnFlow) : Prop :=
  (∀ turn ∈ core.running, core.launchedBy turn ≠ none) ∧
    ∀ event ∈ core.outbox, ∀ turn ∈ event.starts, core.launchedBy turn ≠ none

/-- Turns are numbered and reported in order, and each prompt launches at most one. -/
structure Inv (core : TurnFlow) : Prop where
  active : ∀ turn, core.activeTurn = some turn → turn ∈ core.running
  nodup : core.pending.Nodup
  counted : ∀ turn ∈ core.pending, turn < core.turnCount
  launched : ∀ turn promptId, core.launchedBy turn = some promptId → turn < core.turnCount
  once : ∀ turn turn' promptId, core.launchedBy turn = some promptId →
    core.launchedBy turn' = some promptId → turn = turn'
  started : ∀ event ∈ core.outbox, ∀ turn ∈ event.starts, turn ∈ core.pending
  ordered : core.outbox.Pairwise fun event later => ∀ turn ∈ later.starts, event.ends ≠ some turn

variable {core : TurnFlow} {turn promptId : ℕ} {launcher : Option ℕ} {reason : TurnEndReason}

theorem launch_eq (idle : core.activeTurn = none) (launcher : Option ℕ) :
    core.launch launcher =
      { turnCount := core.turnCount + 1
        activeTurn := some core.turnCount
        running := core.running ++ [core.turnCount]
        launchedBy := Function.update core.launchedBy core.turnCount launcher
        outbox := core.outbox ++ [.started core.turnCount] } := by
  rw [launch, if_neg (by simp [idle])]

theorem mem_pending_launch (idle : core.activeTurn = none) :
    turn ∈ (core.launch launcher).pending ↔ turn ∈ core.pending ∨ turn = core.turnCount := by
  rw [launch_eq idle, pending, pending]
  simp only [List.filterMap_append, List.mem_append, List.mem_singleton]
  simp only [List.filterMap_cons, TurnFlowEvent.ends, List.filterMap_nil, List.not_mem_nil]
  tauto

theorem mem_pending_of_ends {event : TurnFlowEvent} (mem : event ∈ core.outbox)
    (ends : event.ends = some turn) : turn ∈ core.pending :=
  List.mem_append_right _ (List.mem_filterMap.2 ⟨event, mem, ends⟩)

theorem Inv.launch (inv : core.Inv) (fresh : ∀ turn promptId, launcher = some promptId →
    core.launchedBy turn ≠ some promptId) : (core.launch launcher).Inv := by
  cases idle : core.activeTurn with
  | some => rwa [TurnFlow.launch, if_pos (by simp [idle])]
  | none =>
    have unknown : core.turnCount ∉ core.pending := fun mem =>
      Nat.lt_irrefl _ (inv.counted _ mem)
    have launchedBy {turn promptId : ℕ}
        (by_ : (core.launch launcher).launchedBy turn = some promptId) :
        turn = core.turnCount ∧ launcher = some promptId ∨
          core.launchedBy turn = some promptId := by
      rw [launch_eq idle] at by_
      by_cases new : turn = core.turnCount
      · subst new
        exact .inl ⟨rfl, by simpa using by_⟩
      · exact .inr (by simpa [new] using by_)
    have count : (core.launch launcher).turnCount = core.turnCount + 1 := by rw [launch_eq idle]
    refine ⟨fun turn active => ?_, ?_, fun turn mem => ?_, fun turn p by_ => ?_,
      fun turn turn' p by_ by' => ?_, fun event mem turn starts => ?_, ?_⟩
    · rw [launch_eq idle] at active ⊢
      cases active
      exact List.mem_append_right _ (List.mem_singleton_self _)
    · have eq : (core.launch launcher).pending.Perm (core.turnCount :: core.pending) := by
        rw [launch_eq idle, pending, pending]
        simp only [List.filterMap_append, List.filterMap_cons, TurnFlowEvent.ends,
          List.filterMap_nil, List.append_nil]
        rw [List.append_assoc, List.singleton_append]
        exact List.perm_middle
      exact eq.nodup_iff.2 (List.nodup_cons.2 ⟨unknown, inv.nodup⟩)
    · rw [count]
      rcases (mem_pending_launch idle).1 mem with old | rfl
      · exact Nat.lt_succ_of_lt (inv.counted _ old)
      · exact Nat.lt_succ_self _
    · rw [count]
      rcases launchedBy by_ with ⟨rfl, -⟩ | old
      · exact Nat.lt_succ_self _
      · exact Nat.lt_succ_of_lt (inv.launched _ _ old)
    · rcases launchedBy by_ with ⟨rfl, new⟩ | old
      · rcases launchedBy by' with ⟨rfl, -⟩ | old'
        · rfl
        · exact absurd old' (fresh _ _ new)
      · rcases launchedBy by' with ⟨rfl, new'⟩ | old'
        · exact absurd old (fresh _ _ new')
        · exact inv.once _ _ _ old old'
    · rw [mem_pending_launch idle]
      rw [launch_eq idle] at mem
      rcases List.mem_append.1 mem with old | new
      · exact .inl (inv.started event old turn starts)
      · obtain rfl := List.mem_singleton.1 new
        exact .inr (Option.some.inj starts).symm
    · rw [launch_eq idle]
      refine List.pairwise_append.2 ⟨inv.ordered, List.pairwise_singleton _ _, ?_⟩
      intro event mem later new turn starts ends
      obtain rfl := List.mem_singleton.1 new
      cases starts
      exact unknown (mem_pending_of_ends mem ends)

theorem Inv.cancel (inv : core.Inv) (turnId : Option ℕ) : (core.cancel turnId).Inv := by
  unfold TurnFlow.cancel
  split
  · exact inv
  · exact { inv with active := fun _ none => nomatch none }

theorem pending_endTurn (mem : turn ∈ core.running) (reason : TurnEndReason) :
    (core.endTurn turn reason).pending.Perm core.pending := by
  unfold endTurn pending
  simp only [List.filterMap_append, List.filterMap_cons, TurnFlowEvent.ends, List.filterMap_nil]
  rw [← List.append_assoc]
  refine List.perm_append_comm.trans ?_
  rw [← List.append_assoc, List.singleton_append]
  exact (List.perm_cons_erase mem).symm.append_right _

theorem Inv.endTurn (inv : core.Inv) (mem : turn ∈ core.running) (reason : TurnEndReason) :
    (core.endTurn turn reason).Inv := by
  have perm := pending_endTurn mem reason
  have running : core.running.Nodup := (List.nodup_append.1 inv.nodup).1
  refine ⟨fun turn' active => ?_, perm.nodup_iff.2 inv.nodup,
    fun turn' mem' => inv.counted _ (perm.subset mem'), inv.launched, inv.once,
    fun event mem' turn' starts => ?_, ?_⟩
  · unfold TurnFlow.endTurn at active ⊢
    dsimp only at active ⊢
    split at active
    · cases active
    case isFalse other =>
      rw [running.mem_erase_iff]
      exact ⟨fun same => other (same ▸ active), inv.active _ active⟩
  · rcases List.mem_append.1 mem' with old | new
    · exact perm.symm.subset (inv.started event old turn' starts)
    · obtain rfl := List.mem_singleton.1 new
      cases starts
  · refine List.pairwise_append.2 ⟨inv.ordered, List.pairwise_singleton _ _, ?_⟩
    intro event _ later new turn' starts
    obtain rfl := List.mem_singleton.1 new
    cases starts

theorem Inv.deliver {event : TurnFlowEvent} {rest : List TurnFlowEvent} (inv : core.Inv)
    (outbox : core.outbox = event :: rest) : ({ core with outbox := rest } : TurnFlow).Inv := by
  have sublist : ({ core with outbox := rest } : TurnFlow).pending.Sublist core.pending := by
    unfold pending
    rw [outbox]
    exact List.Sublist.append_left ((List.sublist_cons_self _ _).filterMap _) _
  have ordered := inv.ordered
  rw [outbox, List.pairwise_cons] at ordered
  refine ⟨inv.active, sublist.nodup inv.nodup, fun turn mem => inv.counted _ (sublist.subset mem),
    inv.launched, inv.once, fun later mem turn starts => ?_, ordered.2⟩
  have known := inv.started later (outbox ▸ List.mem_cons_of_mem _ mem) turn starts
  rcases List.mem_append.1 known with running | ended
  · exact List.mem_append_left _ running
  · obtain ⟨event', mem', ends⟩ := List.mem_filterMap.1 ended
    rw [outbox] at mem'
    rcases List.mem_cons.1 mem' with rfl | mem'
    · exact absurd ends (ordered.1 later mem turn starts)
    · exact List.mem_append_right _ (List.mem_filterMap.2 ⟨event', mem', ends⟩)

end TurnFlow

/-! ## The invariant of prompts -/

/-- The prompts that were put into the queue, in order. -/
def queuedIds (published : List PromptEvent) : List ℕ :=
  published.filterMap fun
    | .submitted promptId .queued => some promptId
    | _ => none

/-- The prompts that were started out of the queue, in order. -/
def drainedIds (started : List Start) : List ℕ :=
  (started.filter (·.caller = .startNextQueued)).map (·.promptId)

namespace PromptWorld

/-- The end of the prompt's turn will be delivered to it: its `core.prompt` is on the way, or its
turn is pending and known to it, or will be. -/
def EndToCome (w : PromptWorld) (promptId : ℕ) : Prop :=
  (∃ start ∈ w.prompting, start.promptId = promptId) ∨
    ∃ turn ∈ w.core.pending, w.core.launchedBy turn = some promptId ∧
      ((w.entry promptId).turnId = some turn ∨
        (w.entry promptId).turnId = none ∧ .started turn ∈ w.core.outbox)

/-- The prompt has launched no turn. -/
def Unlaunched (w : PromptWorld) (promptId : ℕ) : Prop :=
  ∀ turn, w.core.launchedBy turn ≠ some promptId

/-- Prompts leave the queue in the order in which they came, except for those that are taken out. -/
def InOrder (w : PromptWorld) : Prop :=
  (drainedIds w.started ++ w.queued).Sublist (queuedIds w.published)

/-- What holds of the queue and the turns, whatever the active prompt. -/
structure QueueInv (w : PromptWorld) : Prop where
  core : w.core.Inv
  nodup : w.queued.Nodup
  created : ∀ p ∈ w.queued, p < w.created
  incomplete : ∀ p ∈ w.queued, (w.entry p).completed = false
  unlaunched : ∀ p ∈ w.queued, w.Unlaunched p
  fresh : ∀ p, w.created ≤ p → w.Unlaunched p
  turnIds : ∀ p turn, (w.entry p).turnId = some turn → w.core.launchedBy turn = some p
  order : w.InOrder

/-- What `_startPrompt` is called for: a prompt that is nowhere yet. -/
structure Startable (w : PromptWorld) (start : Start) : Prop where
  unqueued : start.promptId ∉ w.queued
  known : start.promptId < w.created
  incomplete : (w.entry start.promptId).completed = false
  unlaunched : w.Unlaunched start.promptId
  submitted : start.caller = .submit → w.queued = []

/-- The service has no active prompt and starts none, and no turn of a prompt is pending. -/
structure Idle (w : PromptWorld) : Prop extends QueueInv w where
  active : w.active = none
  starting : w.starting = []
  prompting : w.prompting = []
  turns : ∀ turn ∈ w.core.pending, w.core.launchedBy turn = none

/-- One prompt waits for its setters. -/
structure Waiting (w : PromptWorld) : Prop extends QueueInv w where
  active : w.active = none
  prompting : w.prompting = []
  turns : ∀ turn ∈ w.core.pending, w.core.launchedBy turn = none
  promptsOnly : w.core.PromptsOnly
  starting : ∃ start, w.starting = [start] ∧ w.Startable start

/-- One prompt is active, and the only one with a pending turn. -/
structure Running (w : PromptWorld) (promptId : ℕ) : Prop extends QueueInv w where
  active : w.active = some promptId
  starting : w.starting = []
  prompting : w.prompting = [] ∨
    ∃ caller, w.prompting = [{ promptId, caller }] ∧ w.Unlaunched promptId
  unqueued : promptId ∉ w.queued
  known : promptId < w.created
  running : (w.entry promptId).completed = false
  turns : ∀ turn ∈ w.core.pending, ∀ p, w.core.launchedBy turn = some p → p = promptId
  promptsOnly : w.core.PromptsOnly
  toCome : w.EndToCome promptId

/-- The queue is empty when the service is idle. -/
def Inv (w : PromptWorld) : Prop :=
  w.Idle ∧ w.queued = [] ∨ w.Waiting ∨ ∃ promptId, w.Running promptId

/-- What keeps the queue in order. A prompt that finds no live active prompt finds none at all:
neither an aborted one whose turn has not ended, nor one that waits for its setters, nor a turn
that the agent has launched on its own. `core.prompt` of a submission rejects only while nothing is
queued, and `core.steer` does not reject. The agent launches turns of its own only while no prompt
is active or being started. -/
def Orderly (w : PromptWorld) : PromptStep → Prop
  | .submit _ => (∀ p ∈ w.active, (w.entry p).aborted = false) ∧
      (w.active = none → w.starting = [] ∧ w.core.PromptsOnly)
  | .promptRejects i => ∀ start ∈ w.prompting[i]?, start.caller = .submit → w.queued = []
  | .steerHandled _ | .ownTurn => w.core.activeTurn = none → w.active = none ∧ w.starting = []
  | .steerRejects _ => False
  | _ => True

/-! ## Starting a prompt -/

section

variable {w : PromptWorld} {start : Start}

theorem drainedIds_concat (started : List Start) (start : Start) :
    drainedIds (started ++ [start]) =
      drainedIds started ++ if start.caller = .startNextQueued then [start.promptId] else [] := by
  unfold drainedIds
  rw [List.filter_append, List.map_append]
  congr 1
  by_cases drained : start.caller = .startNextQueued <;> simp [drained]

theorem Idle.callPrompt (idle : w.Idle) (only : w.core.PromptsOnly) (able : w.Startable start) :
    (w.callPrompt start).Running start.promptId := by
  have order : (w.callPrompt start).InOrder := by
    have same : queuedIds (w.callPrompt start).published = queuedIds w.published := by
      unfold PromptWorld.callPrompt queuedIds
      rw [List.filterMap_append]
      by_cases submitted : start.caller = .submit <;> simp [submitted]
    rw [InOrder, same]
    exact idle.order
  have prompting : (w.callPrompt start).prompting = [start] := by
    rw [PromptWorld.callPrompt, idle.prompting, List.nil_append]
  refine
    { idle.toQueueInv with
      order
      active := rfl
      starting := idle.starting
      prompting := .inr ⟨start.caller, prompting, able.unlaunched⟩
      unqueued := able.unqueued
      known := able.known
      running := able.incomplete
      turns := fun turn mem p by_ => ?_
      promptsOnly := only
      toCome := .inl ⟨start, prompting ▸ List.mem_singleton_self _, rfl⟩ }
  rw [show (w.callPrompt start).core = w.core from rfl, idle.turns turn mem] at by_
  cases by_

theorem Idle.startPrompt (idle : w.Idle) (only : w.core.PromptsOnly) (able : w.Startable start)
    (order : ({ w with started := w.started ++ [start] } : PromptWorld).InOrder) :
    (w.startPrompt start).Inv := by
  have idle' : ({ w with started := w.started ++ [start] } : PromptWorld).Idle :=
    { idle with order }
  have able' : ({ w with started := w.started ++ [start] } : PromptWorld).Startable start :=
    { able with }
  unfold PromptWorld.startPrompt
  dsimp only
  split
  · have starting : w.starting ++ [start] = [start] := by rw [idle.starting, List.nil_append]
    exact .inr (.inl { idle' with
      promptsOnly := only
      starting := ⟨start, starting, { able with }⟩ })
  · exact .inr (.inr ⟨_, idle'.callPrompt only able'⟩)

theorem Idle.startNextQueued (idle : w.Idle) (only : w.core.PromptsOnly) :
    w.startNextQueued.Inv := by
  have dead : w.activeLive = false := by simp [activeLive, idle.active]
  unfold PromptWorld.startNextQueued
  rw [dead, if_neg Bool.false_ne_true]
  cases queued : w.queued with
  | nil => exact .inl ⟨idle, queued⟩
  | cons next rest =>
    have mem {p : ℕ} (inside : p ∈ rest) : p ∈ w.queued := queued ▸ List.mem_cons_of_mem _ inside
    have first : next ∈ w.queued := queued ▸ List.mem_cons_self ..
    have nodup := idle.nodup
    rw [queued, List.nodup_cons] at nodup
    have order := idle.order
    rw [InOrder, queued] at order
    have idle' : ({ w with queued := rest } : PromptWorld).Idle :=
      { idle with
        nodup := nodup.2
        created := fun p inside => idle.created p (mem inside)
        incomplete := fun p inside => idle.incomplete p (mem inside)
        unlaunched := fun p inside => idle.unlaunched p (mem inside)
        order := ((List.sublist_cons_self _ _).append_left _).trans order }
    refine idle'.startPrompt only ⟨nodup.1, idle.created _ first, idle.incomplete _ first,
      idle.unlaunched _ first, fun no => nomatch no⟩ ?_
    rw [InOrder, drainedIds_concat, if_pos rfl, List.append_assoc]
    exact order

end

/-! ## Steps of the service -/

section

variable {w : PromptWorld} {p : ℕ}

theorem entry_setEntry (state : PromptState) : (w.setEntry p state).entry p = state :=
  Function.update_self ..

theorem entry_setEntry_ne {q : ℕ} (ne : q ≠ p) (state : PromptState) :
    (w.setEntry p state).entry q = w.entry q :=
  Function.update_of_ne ne ..

variable {event : PromptEvent} {i : ℕ} {w' : PromptWorld}

theorem QueueInv.publish (inv : w.QueueInv) (plain : queuedIds [event] = []) :
    (w.publish event).QueueInv := by
  have same : queuedIds (w.publish event).published = queuedIds w.published := by
    rw [queuedIds] at plain ⊢
    rw [PromptWorld.publish, List.filterMap_append, plain, List.append_nil]
    rfl
  refine { inv with order := ?_ }
  rw [InOrder, same]
  exact inv.order

theorem QueueInv.dequeue {queue : List ℕ} (inv : w.QueueInv) (sublist : queue.Sublist w.queued) :
    ({ w with queued := queue } : PromptWorld).QueueInv :=
  { inv with
    nodup := sublist.nodup inv.nodup
    created := fun p mem => inv.created p (sublist.subset mem)
    incomplete := fun p mem => inv.incomplete p (sublist.subset mem)
    unlaunched := fun p mem => inv.unlaunched p (sublist.subset mem)
    order := (sublist.append_left _).trans inv.order }

theorem QueueInv.setEntry {state : PromptState} (inv : w.QueueInv)
    (turnId : state.turnId = (w.entry p).turnId)
    (running : p ∈ w.queued → state.completed = false) : (w.setEntry p state).QueueInv := by
  refine { inv with incomplete := fun q mem => ?_, turnIds := fun q turn eq => ?_ }
  · by_cases same : q = p
    · subst same
      rw [entry_setEntry]
      exact running mem
    · rw [entry_setEntry_ne same]
      exact inv.incomplete q mem
  · refine inv.turnIds q turn ?_
    by_cases same : q = p
    · subst same
      rwa [entry_setEntry, turnId] at eq
    · rwa [entry_setEntry_ne same] at eq

theorem Idle.publish (idle : w.Idle) (plain : queuedIds [event] = []) :
    (w.publish event).Idle :=
  { idle with toQueueInv := idle.toQueueInv.publish plain }

theorem Inv.publish (inv : w.Inv) (plain : queuedIds [event] = []) :
    (w.publish event).Inv := by
  rcases inv with ⟨idle, empty⟩ | waiting | ⟨p, run⟩
  · exact .inl ⟨idle.publish plain, empty⟩
  · obtain ⟨start, starting, able⟩ := waiting.starting
    exact .inr (.inl { waiting with
      toQueueInv := waiting.toQueueInv.publish plain
      starting := ⟨start, starting, { able with }⟩ })
  · exact .inr (.inr ⟨p, { run with toQueueInv := run.toQueueInv.publish plain }⟩)

theorem Inv.dequeue {queue : List ℕ} (inv : w.Inv) (sublist : queue.Sublist w.queued) :
    ({ w with queued := queue } : PromptWorld).Inv := by
  rcases inv with ⟨idle, empty⟩ | waiting | ⟨p, run⟩
  · exact .inl ⟨{ idle with toQueueInv := idle.toQueueInv.dequeue sublist },
      List.sublist_nil.1 (empty ▸ sublist)⟩
  · obtain ⟨start, starting, able⟩ := waiting.starting
    refine .inr (.inl { waiting with
      toQueueInv := waiting.toQueueInv.dequeue sublist
      starting := ⟨start, starting, { able with
        unqueued := fun mem => able.unqueued (sublist.subset mem)
        submitted := fun submitted => ?_ }⟩ })
    exact List.sublist_nil.1 (able.submitted submitted ▸ sublist)
  · exact .inr (.inr ⟨p, { run with
      toQueueInv := run.toQueueInv.dequeue sublist
      unqueued := fun mem => run.unqueued (sublist.subset mem) }⟩)

theorem Inv.setAborted (inv : w.Inv) (p : ℕ) (aborted : Bool) :
    (w.setEntry p { w.entry p with aborted }).Inv := by
  have flags (q : ℕ) : ((w.setEntry p { w.entry p with aborted }).entry q).turnId =
      (w.entry q).turnId ∧ ((w.setEntry p { w.entry p with aborted }).entry q).completed =
        (w.entry q).completed := by
    by_cases same : q = p
    · subst same
      rw [entry_setEntry]
      exact ⟨rfl, rfl⟩
    · rw [entry_setEntry_ne same]
      exact ⟨rfl, rfl⟩
  have queue (inv : w.QueueInv) : (w.setEntry p { w.entry p with aborted }).QueueInv :=
    inv.setEntry rfl fun mem => inv.incomplete p mem
  rcases inv with ⟨idle, empty⟩ | waiting | ⟨q, run⟩
  · exact .inl ⟨{ idle with toQueueInv := queue idle.toQueueInv }, empty⟩
  · obtain ⟨start, starting, able⟩ := waiting.starting
    exact .inr (.inl { waiting with
      toQueueInv := queue waiting.toQueueInv
      starting := ⟨start, starting,
        { able with incomplete := (flags _).2.trans able.incomplete }⟩ })
  · refine .inr (.inr ⟨q, { run with
      toQueueInv := queue run.toQueueInv
      running := (flags q).2.trans run.running
      toCome := ?_ }⟩)
    rcases run.toCome with unsent | ⟨turn, mem, by_, known⟩
    · exact .inl unsent
    · exact .inr ⟨turn, mem, by_, (flags q).1.symm ▸ known⟩

theorem QueueInv.create (inv : w.QueueInv) (hasOverride : Bool) :
    (({ w with created := w.created + 1 } : PromptWorld).setEntry w.created
      { hasOverride }).QueueInv := by
  have other {q : ℕ} (mem : q ∈ w.queued) : q ≠ w.created := Nat.ne_of_lt (inv.created q mem)
  refine { inv with
    created := fun q mem => Nat.lt_succ_of_lt (inv.created q mem)
    incomplete := fun q mem => ?_
    fresh := fun q le => inv.fresh q (Nat.le_of_succ_le le)
    turnIds := fun q turn eq => ?_ }
  · rw [entry_setEntry_ne (other mem)]
    exact inv.incomplete q mem
  · by_cases same : q = w.created
    · subst same
      rw [entry_setEntry] at eq
      cases eq
    · rw [entry_setEntry_ne same] at eq
      exact inv.turnIds q turn eq

theorem Inv.submit (inv : w.Inv) {hasOverride : Bool} (orderly : w.Orderly (.submit hasOverride)) :
    (w.submit hasOverride).Inv := by
  let w' := ({ w with created := w.created + 1 } : PromptWorld).setEntry w.created { hasOverride }
  rcases inv with ⟨idle, empty⟩ | waiting | ⟨p, run⟩
  · have idle' : w'.Idle := { idle with toQueueInv := idle.toQueueInv.create hasOverride }
    have dead : w'.activeLive = false := by simp [activeLive, idle'.active]
    have entry : w'.entry w.created = { hasOverride } := entry_setEntry _
    have result : (w'.startPrompt { promptId := w.created, caller := .submit }).Inv := by
      refine idle'.startPrompt (orderly.2 idle.active).2 ⟨?_, Nat.lt_succ_self _, ?_, ?_, ?_⟩ ?_
      · exact fun mem => absurd (idle.created _ mem) (Nat.lt_irrefl _)
      · rw [entry]
      · exact idle.fresh _ (Nat.le_refl _)
      · exact fun _ => empty
      · rw [InOrder, drainedIds_concat, if_neg (by simp), List.append_nil]
        exact idle.order
    unfold PromptWorld.submit
    dsimp only
    rw [dead, if_neg Bool.false_ne_true]
    exact result
  · obtain ⟨start, starting, -⟩ := waiting.starting
    have none := (orderly.2 waiting.active).1
    rw [starting] at none
    cases none
  · have entry : w'.entry p = w.entry p := entry_setEntry_ne (Nat.ne_of_lt run.known) _
    have live : w'.activeLive = true := by
      have active : w'.active = some p := run.active
      simp [activeLive, active, entry, run.running, orderly.1 p run.active]
    have queue := run.toQueueInv.create hasOverride
    have unqueued : w.created ∉ w.queued := fun mem =>
      absurd (run.created _ mem) (Nat.lt_irrefl _)
    have order : InOrder (({ w' with queued := w'.queued ++ [w.created] } : PromptWorld).publish
        (.submitted w.created .queued)) := by
      unfold InOrder queuedIds PromptWorld.publish
      rw [List.filterMap_append, ← List.append_assoc]
      exact run.order.append_right _
    have cases {q : ℕ} (mem : q ∈ w.queued ++ [w.created]) : q ∈ w.queued ∨ q = w.created := by
      simpa using mem
    unfold PromptWorld.submit
    dsimp only
    rw [live, if_pos rfl]
    refine .inr (.inr ⟨p, { run with
      toQueueInv := { queue with
        nodup := List.nodup_append.2 ⟨queue.nodup, List.nodup_singleton _, ?_⟩
        created := fun q mem => ?_
        incomplete := fun q mem => ?_
        unlaunched := fun q mem => ?_
        order := order }
      unqueued := fun mem => ?_
      known := Nat.lt_succ_of_lt run.known
      running := ?_
      toCome := ?_ }⟩)
    · intro q mem r new same
      obtain rfl := List.mem_singleton.1 new
      exact unqueued (same ▸ mem)
    · rcases cases mem with old | rfl
      · exact queue.created q old
      · exact Nat.lt_succ_self _
    · rcases cases mem with old | rfl
      · exact queue.incomplete q old
      · exact congrArg PromptState.completed (entry_setEntry _)
    · rcases cases mem with old | rfl
      · exact queue.unlaunched q old
      · exact run.fresh _ (Nat.le_refl _)
    · rcases cases mem with old | same
      · exact run.unqueued old
      · exact absurd same (Nat.ne_of_lt run.known)
    · exact (congrArg PromptState.completed entry).trans run.running
    · rcases run.toCome with unsent | ⟨turn, mem, by_, known⟩
      · exact .inl unsent
      · exact .inr ⟨turn, mem, by_, (congrArg PromptState.turnId entry).symm ▸ known⟩

theorem Inv.starting {start : Start} (inv : w.Inv) (found : w.starting[i]? = some start) :
    w.starting.eraseIdx i = [] ∧ w.Startable start ∧ w.core.PromptsOnly ∧
      ({ w with starting := w.starting.eraseIdx i } : PromptWorld).Idle := by
  rcases inv with ⟨idle, -⟩ | waiting | ⟨p, run⟩
  · rw [idle.starting] at found
    cases found
  · obtain ⟨start', starting, able⟩ := waiting.starting
    rw [starting] at found
    obtain ⟨rfl, rfl⟩ : i = 0 ∧ start' = start := by
      cases i with
      | zero => exact ⟨rfl, Option.some.inj found⟩
      | succ => cases found
    have none : w.starting.eraseIdx 0 = [] := by rw [starting]; rfl
    exact ⟨none, able, waiting.promptsOnly, { waiting with starting := none }⟩
  · rw [run.starting] at found
    cases found

theorem Inv.settersDone (inv : w.Inv) (next : w.step (.settersDone i) = some w') : w'.Inv := by
  obtain ⟨start, found, rfl⟩ := Option.map_eq_some_iff.1 next
  obtain ⟨-, able, only, idle⟩ := inv.starting found
  exact .inr (.inr ⟨_, idle.callPrompt only { able with }⟩)

theorem Inv.settersReject (inv : w.Inv) (next : w.step (.settersReject i) = some w') : w'.Inv := by
  obtain ⟨start, found, rfl⟩ := Option.map_eq_some_iff.1 next
  obtain ⟨-, able, only, idle⟩ := inv.starting found
  unfold startFailed
  split
  case h_1 submitted => exact .inl ⟨idle, able.submitted submitted⟩
  case h_2 => exact idle.startNextQueued only

theorem Inv.prompting {start : Start} (inv : w.Inv) (found : w.prompting[i]? = some start) :
    w.prompting.eraseIdx i = [] ∧ w.Running start.promptId ∧ w.Unlaunched start.promptId := by
  rcases inv with ⟨idle, -⟩ | waiting | ⟨p, run⟩
  · rw [idle.prompting] at found
    cases found
  · rw [waiting.prompting] at found
    cases found
  · rcases run.prompting with none | ⟨caller, prompting, unlaunched⟩
    · rw [none] at found
      cases found
    · rw [prompting] at found ⊢
      cases i with
      | zero =>
        cases found
        exact ⟨rfl, run, unlaunched⟩
      | succ => cases found

theorem Running.idle (run : w.Running p) (unlaunched : w.Unlaunched p) :
    w.core.activeTurn = none := by
  refine Option.eq_none_iff_forall_ne_some.2 fun turn active => ?_
  have running := run.core.active turn active
  obtain ⟨q, by_⟩ := Option.ne_none_iff_exists'.1 (run.promptsOnly.1 turn running)
  obtain rfl := run.turns turn (List.mem_append_left _ running) q by_
  exact unlaunched turn by_

theorem Inv.promptHandled (inv : w.Inv) (next : w.step (.promptHandled i) = some w') : w'.Inv := by
  obtain ⟨⟨p, caller⟩, found, rfl⟩ := Option.map_eq_some_iff.1 next
  obtain ⟨none, run, unlaunched⟩ := inv.prompting found
  have idle := run.idle unlaunched
  have core : (w.core.launch (some p)).Inv :=
    run.core.launch fun turn q eq => Option.some.inj eq ▸ unlaunched turn
  have launchedBy (turn : ℕ) : (w.core.launch (some p)).launchedBy turn =
      if turn = w.core.turnCount then some p else w.core.launchedBy turn := by
    rw [TurnFlow.launch_eq idle]
    exact Function.update_apply ..
  have others {q : ℕ} (ne : q ≠ p) (free : w.Unlaunched q) (turn : ℕ) :
      (w.core.launch (some p)).launchedBy turn ≠ some q := by
    rw [launchedBy]
    split
    · exact fun eq => ne (Option.some.inj eq).symm
    · exact free turn
  have kept {q turn : ℕ} (by_ : w.core.launchedBy turn = some q) :
      (w.core.launch (some p)).launchedBy turn = some q := by
    rw [launchedBy, if_neg (Nat.ne_of_lt (run.core.launched _ _ by_))]
    exact by_
  refine .inr (.inr ⟨p, { run with
    core
    unlaunched := fun q mem => others (fun same => run.unqueued (same ▸ mem)) (run.unlaunched q mem)
    fresh := fun q le => others (Nat.ne_of_gt (Nat.lt_of_lt_of_le run.known le)) (run.fresh q le)
    turnIds := fun q turn eq => kept (run.turnIds q turn eq)
    prompting := .inl none
    turns := fun turn mem q by_ => ?_
    promptsOnly := ⟨fun turn mem => ?_, fun event mem turn starts => ?_⟩
    toCome := .inr ⟨w.core.turnCount, (TurnFlow.mem_pending_launch idle).2 (.inr rfl), ?_,
      .inr ⟨?_, ?_⟩⟩ }⟩)
  · dsimp only at by_
    rw [launchedBy] at by_
    rcases (TurnFlow.mem_pending_launch idle).1 mem with old | rfl
    · rw [if_neg (Nat.ne_of_lt (run.core.counted _ old))] at by_
      exact run.turns turn old q by_
    · rw [if_pos rfl] at by_
      exact (Option.some.inj by_).symm
  · rw [launchedBy]
    split
    · exact Option.some_ne_none p
    · rw [TurnFlow.launch_eq idle] at mem
      refine run.promptsOnly.1 turn ((List.mem_append.1 mem).resolve_right fun new => ?_)
      exact absurd (List.mem_singleton.1 new) ‹_›
  · rw [launchedBy]
    split
    · exact Option.some_ne_none p
    · rw [TurnFlow.launch_eq idle] at mem
      rcases List.mem_append.1 mem with old | new
      · exact run.promptsOnly.2 event old turn starts
      · obtain rfl := List.mem_singleton.1 new
        exact absurd (Option.some.inj starts).symm ‹_›
  · exact (launchedBy _).trans (if_pos rfl)
  · refine Option.eq_none_iff_forall_ne_some.2 fun turn eq => unlaunched turn ?_
    exact run.turnIds p turn eq
  · rw [show (w.core.launch (some p)).outbox = w.core.outbox ++ [.started w.core.turnCount] by
      rw [TurnFlow.launch_eq idle]]
    exact List.mem_append_right _ (List.mem_singleton_self _)

theorem Inv.promptRejects (inv : w.Inv) (orderly : w.Orderly (.promptRejects i))
    (next : w.step (.promptRejects i) = some w') :
    w'.Inv := by
  obtain ⟨start, found, rfl⟩ := Option.map_eq_some_iff.1 next
  obtain ⟨none, run, unlaunched⟩ := inv.prompting found
  rw [if_pos run.active]
  have idle : ({ w with prompting := w.prompting.eraseIdx i, active := Option.none } :
      PromptWorld).Idle := by
    refine { run with active := rfl, prompting := none, turns := fun turn mem => ?_ }
    refine Option.eq_none_iff_forall_ne_some.2 fun q by_ => unlaunched turn ?_
    rw [← run.turns turn mem q by_]
    exact by_
  unfold startFailed
  split
  case h_1 submitted => exact .inl ⟨idle, orderly start found submitted⟩
  case h_2 => exact idle.startNextQueued run.promptsOnly

theorem Inv.calls (inv : w.Inv) (aborting : List Abort) (steering : List Steer) (cancelling : ℕ) :
    ({ w with aborting, steering, cancelling } : PromptWorld).Inv := by
  rcases inv with ⟨idle, empty⟩ | waiting | ⟨p, run⟩
  · exact .inl ⟨{ idle with }, empty⟩
  · obtain ⟨start, starting, able⟩ := waiting.starting
    exact .inr (.inl { waiting with starting := ⟨start, starting, { able with }⟩ })
  · exact .inr (.inr ⟨p, { run with }⟩)

theorem Inv.abort (inv : w.Inv) (next : w.abort p = some w') : w'.Inv := by
  unfold PromptWorld.abort at next
  dsimp only at next
  split at next
  · split at next
    · cases next
    · cases next
      exact (inv.setAborted p true).calls _ _ _
  · split at next
    · cases next
      exact (inv.dequeue List.erase_sublist).publish rfl
    · cases next

theorem Inv.abortBySession (inv : w.Inv) (next : w.abortBySession = some w') :
    w'.Inv := by
  unfold PromptWorld.abortBySession at next
  split at next
  · split at next
    · exact inv.abort next
    · cases next
      exact inv.calls _ _ _
  · cases next
    exact inv.calls _ _ _

theorem Inv.steer {promptIds : List ℕ} (inv : w.Inv) (next : w.steer promptIds = some w') :
    w'.Inv := by
  unfold PromptWorld.steer at next
  split at next
  · split at next
    · cases next
      exact (inv.dequeue List.filter_sublist).calls _ _ _
    · cases next
  · cases next

/-! ## Steps of the agent -/

theorem Inv.queue (inv : w.Inv) : w.QueueInv := by
  rcases inv with ⟨idle, -⟩ | waiting | ⟨p, run⟩
  · exact idle.toQueueInv
  · exact waiting.toQueueInv
  · exact run.toQueueInv

theorem Inv.setCore {core : TurnFlow} (inv : w.Inv) (sound : core.Inv)
    (launchedBy : ∀ turn p, core.launchedBy turn = some p ↔ w.core.launchedBy turn = some p)
    (pending : ∀ turn ∈ core.pending, turn ∈ w.core.pending ∨ core.launchedBy turn = none)
    (only : w.active ≠ none ∨ w.starting ≠ [] → w.core.PromptsOnly → core.PromptsOnly)
    (toCome : ∀ p, w.Running p → ({ w with core } : PromptWorld).EndToCome p) :
    ({ w with core } : PromptWorld).Inv := by
  have free {q : ℕ} (unlaunched : w.Unlaunched q) :
      ({ w with core } : PromptWorld).Unlaunched q :=
    fun turn by_ => unlaunched turn ((launchedBy turn q).1 by_)
  have queue (inv : w.QueueInv) : ({ w with core } : PromptWorld).QueueInv :=
    { inv with
      core := sound
      unlaunched := fun q mem => free (inv.unlaunched q mem)
      fresh := fun q le => free (inv.fresh q le)
      turnIds := fun q turn eq => (launchedBy turn q).2 (inv.turnIds q turn eq) }
  have none (turns : ∀ turn ∈ w.core.pending, w.core.launchedBy turn = none) :
      ∀ turn ∈ core.pending, core.launchedBy turn = none := by
    intro turn mem
    rcases pending turn mem with old | own
    · refine Option.eq_none_iff_forall_ne_some.2 fun q by_ => ?_
      rw [launchedBy, turns turn old] at by_
      cases by_
    · exact own
  rcases inv with ⟨idle, empty⟩ | waiting | ⟨p, run⟩
  · exact .inl ⟨{ idle with toQueueInv := queue idle.toQueueInv, turns := none idle.turns }, empty⟩
  · obtain ⟨start, starting, able⟩ := waiting.starting
    exact .inr (.inl { waiting with
      toQueueInv := queue waiting.toQueueInv
      turns := none waiting.turns
      promptsOnly := only (.inr (by simp [starting])) waiting.promptsOnly
      starting := ⟨start, starting, { able with unlaunched := free able.unlaunched }⟩ })
  · refine .inr (.inr ⟨p, { run with
      toQueueInv := queue run.toQueueInv
      prompting := run.prompting.imp id fun ⟨caller, eq, unlaunched⟩ =>
        ⟨caller, eq, free unlaunched⟩
      turns := fun turn mem q by_ => ?_
      promptsOnly := only (.inl (by simp [run.active])) run.promptsOnly
      toCome := toCome p run }⟩)
    rcases pending turn mem with old | own
    · exact run.turns turn old q ((launchedBy turn q).1 by_)
    · rw [show ({ w with core } : PromptWorld).core = core from rfl, own] at by_
      cases by_

theorem Inv.cancel (inv : w.Inv) (turnId : Option ℕ) :
    ({ w with core := w.core.cancel turnId } : PromptWorld).Inv := by
  by_cases other : turnId.any (fun turn => turn + 1 ≠ w.core.turnCount) = true
  · rw [TurnFlow.cancel, if_pos other]
    exact inv
  · have sound := inv.queue.core.cancel turnId
    rw [TurnFlow.cancel, if_neg other] at sound ⊢
    exact inv.setCore sound (fun _ _ => Iff.rfl) (fun _ mem => .inl mem) (fun _ only => only)
      fun _ run => run.toCome

theorem Inv.launch (inv : w.Inv)
    (orderly : w.core.activeTurn = none → w.active = none ∧ w.starting = []) :
    ({ w with core := w.core.launch none } : PromptWorld).Inv := by
  cases idle : w.core.activeTurn with
  | some =>
    rw [TurnFlow.launch, if_pos (by simp [idle])]
    exact inv
  | none =>
    obtain ⟨active, starting⟩ := orderly idle
    have quiet : w.Idle ∧ w.queued = [] := by
      rcases inv with quiet | waiting | ⟨p, run⟩
      · exact quiet
      · obtain ⟨start, eq, -⟩ := waiting.starting
        rw [starting] at eq
        cases eq
      · rw [run.active] at active
        cases active
    have launchedBy (turn : ℕ) : (w.core.launch none).launchedBy turn =
        if turn = w.core.turnCount then none else w.core.launchedBy turn := by
      rw [TurnFlow.launch_eq idle]
      exact Function.update_apply ..
    refine inv.setCore (quiet.1.core.launch fun _ _ no => nomatch no) (fun turn q => ?_)
      (fun turn mem => ?_) (fun busy => ?_) fun q run => ?_
    · rw [launchedBy]
      split
      case isTrue new =>
        refine iff_of_false (fun no => nomatch no) fun by_ => ?_
        exact Nat.lt_irrefl _ (new ▸ quiet.1.core.launched turn q by_)
      case isFalse => exact Iff.rfl
    · rcases (TurnFlow.mem_pending_launch idle).1 mem with old | rfl
      · exact .inl old
      · exact .inr ((launchedBy _).trans (if_pos rfl))
    · exact absurd busy (by simp [active, starting])
    · rw [run.active] at active
      cases active

theorem Inv.endTurn {turn : ℕ} (inv : w.Inv) (mem : turn ∈ w.core.running)
    (reason : TurnEndReason) :
    ({ w with core := w.core.endTurn turn reason } : PromptWorld).Inv := by
  have perm := TurnFlow.pending_endTurn mem reason
  refine inv.setCore (inv.queue.core.endTurn mem reason) (fun _ _ => Iff.rfl)
    (fun turn' mem' => .inl (perm.subset mem')) (fun _ only => ⟨fun turn' mem' => ?_,
      fun event mem' turn' starts => ?_⟩) fun p run => ?_
  · exact only.1 turn' (List.mem_of_mem_erase mem')
  · rcases List.mem_append.1 mem' with old | new
    · exact only.2 event old turn' starts
    · obtain rfl := List.mem_singleton.1 new
      cases starts
  · rcases run.toCome with unsent | ⟨turn', mem', by_, known⟩
    · exact .inl unsent
    · exact .inr ⟨turn', perm.symm.subset mem', by_,
        known.imp id fun ⟨unknown, later⟩ => ⟨unknown, List.mem_append_left _ later⟩⟩

end

/-! ## Delivery -/

section

variable {w w' : PromptWorld} {p turn : ℕ} {event : TurnFlowEvent} {rest : List TurnFlowEvent}

theorem pending_deliver {core : TurnFlow} (outbox : core.outbox = event :: rest) :
    (({ core with outbox := rest } : TurnFlow).pending).Sublist core.pending ∧
      ∀ turn ∈ core.pending, event.ends ≠ some turn →
        turn ∈ ({ core with outbox := rest } : TurnFlow).pending := by
  unfold TurnFlow.pending
  rw [outbox]
  refine ⟨List.Sublist.append_left ((List.sublist_cons_self _ _).filterMap _) _,
    fun turn mem other => ?_⟩
  rcases List.mem_append.1 mem with running | ended
  · exact List.mem_append_left _ running
  · obtain ⟨event', mem', ends⟩ := List.mem_filterMap.1 ended
    rcases List.mem_cons.1 mem' with rfl | mem'
    · exact absurd ends other
    · exact List.mem_append_right _ (List.mem_filterMap.2 ⟨event', mem', ends⟩)

theorem promptsOnly_deliver {core : TurnFlow} (only : core.PromptsOnly)
    (outbox : core.outbox = event :: rest) :
    ({ core with outbox := rest } : TurnFlow).PromptsOnly :=
  ⟨only.1, fun e mem => only.2 e (outbox ▸ List.mem_cons_of_mem _ mem)⟩

theorem Inv.running (inv : w.Inv) (active : w.active = some p) : w.Running p := by
  rcases inv with ⟨idle, -⟩ | waiting | ⟨q, run⟩
  · exact absurd (idle.active.symm.trans active) (by simp)
  · exact absurd (waiting.active.symm.trans active) (by simp)
  · cases run.active.symm.trans active
    exact run

theorem Inv.drop (inv : w.Inv) (outbox : w.core.outbox = event :: rest)
    (toCome : ∀ p, w.Running p →
      ({ w with core := { w.core with outbox := rest } } : PromptWorld).EndToCome p) :
    ({ w with core := { w.core with outbox := rest } } : PromptWorld).Inv :=
  inv.setCore (inv.queue.core.deliver outbox) (fun _ _ => Iff.rfl)
    (fun _ mem => .inl ((pending_deliver outbox).1.subset mem))
    (fun _ only => promptsOnly_deliver only outbox) toCome

theorem Running.started (run : w.Running p) (outbox : w.core.outbox = .started turn :: rest) :
    (({ w with core := { w.core with outbox := rest } } : PromptWorld).setEntry p
      { w.entry p with turnId := (w.entry p).turnId <|> some turn }).Running p := by
  have first : .started turn ∈ w.core.outbox := outbox ▸ List.mem_cons_self ..
  obtain ⟨sublist, kept⟩ := pending_deliver outbox
  have pending := run.core.started _ first turn rfl
  have own : w.core.launchedBy turn = some p := by
    obtain ⟨q, by_⟩ := Option.ne_none_iff_exists'.1 (run.promptsOnly.2 _ first turn rfl)
    rwa [← run.turns turn pending q by_]
  have known : ((w.entry p).turnId <|> some turn) = some turn := by
    cases turnId : (w.entry p).turnId with
    | none => rfl
    | some turn' => exact congrArg some (run.core.once _ _ _ (run.turnIds p turn' turnId) own)
  rw [known]
  let state : PromptState := { w.entry p with turnId := some turn }
  have entry : (({ w with core := { w.core with outbox := rest } } : PromptWorld).setEntry p
      state).entry p = state := entry_setEntry _
  refine { run with
    core := run.core.deliver outbox
    incomplete := fun q mem => ?_
    turnIds := fun q turn' eq => ?_
    running := (congrArg PromptState.completed entry).trans run.running
    turns := fun turn' mem => run.turns turn' (sublist.subset mem)
    promptsOnly := promptsOnly_deliver run.promptsOnly outbox
    toCome := .inr ⟨turn, kept turn pending (fun no => nomatch no), own,
      .inl (congrArg PromptState.turnId entry)⟩ }
  · have ne : q ≠ p := fun same => run.unqueued (same ▸ mem)
    rw [entry_setEntry_ne ne]
    exact run.incomplete q mem
  · by_cases same : q = p
    · subst same
      rw [entry] at eq
      exact Option.some.inj eq ▸ own
    · rw [entry_setEntry_ne same] at eq
      exact run.turnIds q turn' eq

theorem Running.otherEnd {reason : TurnEndReason} (run : w.Running p)
    (outbox : w.core.outbox = .ended turn reason :: rest)
    (other : (w.entry p).turnId ≠ some turn) :
    ({ w with core := { w.core with outbox := rest } } : PromptWorld).EndToCome p := by
  have ordered := run.core.ordered
  rw [outbox, List.pairwise_cons] at ordered
  rcases run.toCome with unsent | ⟨turn', mem, by_, known⟩
  · exact .inl unsent
  · have later (unknown : (w.entry p).turnId = none ∧ .started turn' ∈ w.core.outbox) :
        .started turn' ∈ rest := by
      have mem := unknown.2
      rw [outbox] at mem
      exact (List.mem_cons.1 mem).resolve_left fun no => nomatch no
    have differs : TurnFlowEvent.ends (.ended turn reason) ≠ some turn' := by
      intro same
      cases same
      rcases known with known | unknown
      · exact other known
      · exact ordered.1 _ (later unknown) turn rfl rfl
    exact .inr ⟨turn', (pending_deliver outbox).2 turn' mem differs, by_,
      known.imp id fun unknown => ⟨unknown.1, later unknown⟩⟩

theorem Running.ended {reason : TurnEndReason} {state : PromptState} (run : w.Running p)
    (outbox : w.core.outbox = .ended turn reason :: rest)
    (own : (w.entry p).turnId = some turn) (same : state.turnId = (w.entry p).turnId) :
    ({ ({ w with core := { w.core with outbox := rest } } : PromptWorld).setEntry p state with
      active := none } : PromptWorld).Idle := by
  have by_ := run.turnIds p turn own
  obtain ⟨sublist, -⟩ := pending_deliver outbox
  have gone : turn ∉ ({ w.core with outbox := rest } : TurnFlow).pending := by
    have nodup := run.core.nodup
    unfold TurnFlow.pending at nodup ⊢
    rw [outbox] at nodup
    exact (List.nodup_cons.1 (List.perm_middle.nodup_iff.1 nodup)).1
  have prompting : w.prompting = [] := by
    rcases run.prompting with none | ⟨caller, -, unlaunched⟩
    · exact none
    · exact absurd by_ (unlaunched turn)
  have queue : ({ w with core := { w.core with outbox := rest } } : PromptWorld).QueueInv :=
    { run.toQueueInv with core := run.core.deliver outbox }
  have queue' := queue.setEntry (p := p) same fun mem => absurd mem run.unqueued
  refine { queue' with
    active := rfl
    starting := run.starting
    prompting := prompting
    turns := fun turn' mem => ?_ }
  refine Option.eq_none_iff_forall_ne_some.2 fun q by' => gone ?_
  obtain rfl := run.turns turn' (sublist.subset mem) q by'
  rwa [← run.core.once _ _ _ by' by_]

theorem Inv.deliver (inv : w.Inv) (next : w.step .deliver = some w') : w'.Inv := by
  simp only [step] at next
  split at next
  · cases next
  case h_2 event rest outbox =>
  cases next
  unfold handleBusEvent
  split
  case h_1 inactive =>
    exact inv.drop outbox fun p run => absurd (run.active.symm.trans inactive) (by simp)
  case h_2 p active =>
    have run := inv.running active
    cases event with
    | started => exact .inr (.inr ⟨p, run.started outbox⟩)
    | ended =>
      dsimp only
      have only := promptsOnly_deliver run.promptsOnly outbox
      split
      case isTrue other =>
        refine inv.drop outbox fun q run' => ?_
        cases run'.active.symm.trans active
        exact run.otherEnd outbox other
      case isFalse own =>
        have own := not_not.1 own
        split
        case isTrue =>
          have idle := run.ended outbox own (rfl : (w.entry p).turnId = _)
          rw [setEntry, Function.update_eq_self] at idle
          exact idle.startNextQueued only
        split
        · refine Idle.startNextQueued (Idle.publish (run.ended outbox own ?_) ?_) only
          · rfl
          · rfl
        · refine Idle.startNextQueued (Idle.publish (run.ended outbox own ?_) ?_) only
          · rfl
          · rfl

theorem step_inv {label : PromptStep} (inv : w.Inv) (orderly : w.Orderly label)
    (next : w.step label = some w') : w'.Inv := by
  cases label with
  | submit => exact Option.some.inj next ▸ inv.submit orderly
  | settersDone => exact inv.settersDone next
  | settersReject => exact inv.settersReject next
  | promptHandled => exact inv.promptHandled next
  | promptRejects => exact inv.promptRejects orderly next
  | abort => exact inv.abort next
  | abortBySession => exact inv.abortBySession next
  | steer => exact inv.steer next
  | steerRejects => exact orderly.elim
  | deliver => exact inv.deliver next
  | cancelHandled =>
    simp only [step] at next
    split at next
    case h_2 => cases next
    case h_1 =>
      cases next
      exact (inv.cancel _).calls _ _ _
  | cancelResolves | steerResolves =>
    simp only [step] at next
    split at next
    case h_2 => cases next
    case h_1 =>
      cases next
      exact (inv.calls _ _ _).publish rfl
  | cancelRejects =>
    obtain ⟨call, -, rfl⟩ := Option.map_eq_some_iff.1 next
    exact (inv.calls _ _ _).setAborted call.promptId false
  | sessionCancelHandled =>
    simp only [step] at next
    split at next
    · cases next
    · cases next
      exact (inv.cancel none).calls _ _ _
  | steerHandled =>
    simp only [step] at next
    split at next
    case h_2 => cases next
    case h_1 =>
      cases next
      exact (inv.launch orderly).calls _ _ _
  | ownTurn =>
    simp only [step] at next
    split at next
    case isFalse => cases next
    case isTrue =>
      cases next
      exact inv.launch orderly
  | endTurn turn reason =>
    simp only [step] at next
    split at next
    case isFalse => cases next
    case isTrue running =>
      cases next
      exact inv.endTurn running reason

theorem inv_initial : Inv {} := by
  refine .inl ⟨?_, rfl⟩
  have core : TurnFlow.Inv {} := by
    constructor <;> simp [TurnFlow.pending]
  constructor
  · constructor <;> first | exact core | simp [Unlaunched, InOrder, drainedIds, queuedIds]
  all_goals simp [TurnFlow.pending]

/-- A run of the service and the agent in which the queue is kept in order. -/
abbrev OrderlyRun : List PromptStep → PromptWorld → Prop := Transition.Run step Orderly {}

theorem inv_run {labels : List PromptStep} (run : OrderlyRun labels w) : w.Inv :=
  run.invariant Inv inv_initial fun _ _ _ => step_inv

/-- The prompt is active, and neither completed nor aborted, or aborted with the end of its turn
still to come. -/
def LiveActive (w : PromptWorld) (promptId : ℕ) : Prop :=
  w.active = some promptId ∧
    ((w.entry promptId).completed = false ∧ (w.entry promptId).aborted = false ∨
      (w.entry promptId).aborted = true ∧ w.EndToCome promptId)

/-- A `_startPrompt` is in progress. -/
def StartInProgress (w : PromptWorld) : Prop := w.starting ≠ [] ∨ w.prompting ≠ []

/-- In every orderly run: with neither a live active prompt nor a start in progress the queue is
empty, and prompts are started out of the queue in the order in which they came into it. -/
theorem never_stranded {labels : List PromptStep} (run : OrderlyRun labels w) :
    ((¬ ∃ p, w.LiveActive p) → ¬ w.StartInProgress → w.queued = []) ∧
      (drainedIds w.started).Sublist (queuedIds w.published) := by
  have order (inv : w.QueueInv) : (drainedIds w.started).Sublist (queuedIds w.published) :=
    (List.sublist_append_left _ _).trans inv.order
  rcases inv_run run with ⟨idle, empty⟩ | waiting | ⟨p, active⟩
  · exact ⟨fun _ _ => empty, order idle.toQueueInv⟩
  · refine ⟨fun _ none => absurd (.inl ?_) none, order waiting.toQueueInv⟩
    obtain ⟨start, starting, -⟩ := waiting.starting
    simp [starting]
  · refine ⟨fun dead => absurd ⟨p, active.active, ?_⟩ dead, order active.toQueueInv⟩
    cases aborted : (w.entry p).aborted with
    | false => exact .inl ⟨active.running, rfl⟩
    | true => exact .inr ⟨rfl, active.toCome⟩

end

/-! ## Sample runs -/

instance (core : TurnFlow) : Decidable core.PromptsOnly :=
  inferInstanceAs (Decidable ((∀ turn ∈ core.running, core.launchedBy turn ≠ none) ∧
    ∀ event ∈ core.outbox, ∀ turn ∈ event.starts, core.launchedBy turn ≠ none))

instance (w : PromptWorld) : ∀ label, Decidable (w.Orderly label)
  | .submit _ => inferInstanceAs (Decidable ((∀ p ∈ w.active, (w.entry p).aborted = false) ∧
      (w.active = none → w.starting = [] ∧ w.core.PromptsOnly)))
  | .promptRejects i => inferInstanceAs (Decidable (∀ start ∈ w.prompting[i]?, _ → w.queued = []))
  | .steerHandled _ | .ownTurn =>
    inferInstanceAs (Decidable (w.core.activeTurn = none → w.active = none ∧ w.starting = []))
  | .steerRejects _ => isFalse id
  | .settersDone _ | .settersReject _ | .promptHandled _ | .abort _ | .cancelHandled _
  | .cancelResolves _ | .cancelRejects _ | .abortBySession | .sessionCancelHandled | .steer _
  | .steerResolves _ | .endTurn _ _ | .deliver => isTrue trivial

/-- The second prompt, with a model of its own, is queued behind the first one, and so is a third
one, which is aborted. -/
def twoPrompts : List PromptStep :=
  [.submit false, .submit true, .submit false, .promptHandled 0, .deliver, .abort 2,
    .endTurn 0 .completed, .deliver, .settersDone 0, .promptHandled 0, .deliver, .endTurn 1 .failed,
    .deliver]

theorem twoPrompts_drained : ∃ w, OrderlyRun twoPrompts w ∧ w.queued = [] ∧
    drainedIds w.started = [1] ∧ (drainedIds w.started).Sublist (queuedIds w.published) := by
  have reached : ((Transition.exec (Transition.guarded step Orderly) {} twoPrompts).map fun w =>
      (w.active, w.starting, w.prompting, drainedIds w.started)) = some (none, [], [], [1]) := by
    decide +kernel
  obtain ⟨w, exec, eq⟩ := Option.map_eq_some_iff.1 reached
  simp only [Prod.mk.injEq] at eq
  obtain ⟨active, starting, prompting, drained⟩ := eq
  have run := Transition.Run.of_exec exec
  obtain ⟨empty, order⟩ := never_stranded run
  refine ⟨w, run, empty ?_ ?_, drained, order⟩
  · rintro ⟨p, live, -⟩
    rw [active] at live
    cases live
  · exact fun busy => busy.elim (absurd starting) (absurd prompting)

/-- The `core.prompt` of the first prompt rejects after a second one was queued behind it. -/
def rejectedStart : List PromptStep := [.submit false, .submit false, .promptRejects 0]

/-- The second prompt stays in the queue, and nothing is under way that would start it. -/
theorem rejectedStart_strands : ∃ w, Transition.exec step {} rejectedStart = some w ∧
    (¬ ∃ p, w.LiveActive p) ∧ ¬ w.StartInProgress ∧ w.queued = [1] := by
  have reached : ((Transition.exec step {} rejectedStart).map fun w =>
      (w.active, w.starting, w.prompting, w.queued)) = some (none, [], [], [1]) := by
    decide +kernel
  obtain ⟨w, exec, eq⟩ := Option.map_eq_some_iff.1 reached
  simp only [Prod.mk.injEq] at eq
  obtain ⟨active, starting, prompting, queued⟩ := eq
  refine ⟨w, exec, ?_, fun busy => busy.elim (absurd starting) (absurd prompting), queued⟩
  rintro ⟨p, live, -⟩
  rw [active] at live
  cases live

end PromptWorld

end KimiCli
