import KimiCli.Lib.Run
import Mathlib.Data.Sigma.Basic

/-!
# Runtime controls

The part of `services/prompt/promptService.ts` that applies a patch of runtime controls to the main
agent of a session and skips what its shadow says is so already, with the setters of the agent
(`agent/index.ts` and its `config`, `permission`, `plan` and `swarm`) and the status events that
the agents of the session publish.
-/

namespace KimiCli

/-! ## Controls -/

/-- The values that both `promptThinkingSchema` and `resolveThinkingEffort` take as they are. -/
inductive PromptThinking
  | off | low | medium | high | xhigh | max
  deriving DecidableEq

inductive PermissionMode
  | manual | yolo | auto
  deriving DecidableEq

inductive SwarmModeTrigger
  | manual | task | tool
  deriving DecidableEq

inductive GoalControl
  | pause | resume | cancel
  deriving DecidableEq

/-- The five controls that the shadow has, in the order in which a patch is applied. -/
inductive ControlField
  | model | thinking | permissionMode | planMode | swarmMode
  deriving DecidableEq

namespace ControlField

abbrev Value : ControlField → Type
  | model => String
  | thinking => PromptThinking
  | permissionMode => PermissionMode
  | planMode | swarmMode => Bool

instance : ∀ field : ControlField, DecidableEq field.Value
  | model => inferInstanceAs (DecidableEq String)
  | thinking => inferInstanceAs (DecidableEq PromptThinking)
  | permissionMode => inferInstanceAs (DecidableEq PermissionMode)
  | planMode | swarmMode => inferInstanceAs (DecidableEq Bool)

def order : List ControlField := [model, thinking, permissionMode, planMode, swarmMode]

/-- The fields that `_handleBusEvent` copies from a status event. -/
def isMirrored : ControlField → Bool
  | model | permissionMode | planMode => true
  | thinking | swarmMode => false

end ControlField

/-- A field and the value asked for. -/
abbrev Control := (field : ControlField) × field.Value

/-- No caller passes an empty model: the schema of a submission forbids it, and the session service
leaves it out. -/
structure AgentStatePatch where
  model : Option String := none
  thinking : Option PromptThinking := none
  permission_mode : Option PermissionMode := none
  plan_mode : Option Bool := none
  swarm_mode : Option Bool := none
  goal_objective : Option String := none
  goal_control : Option GoalControl := none
  model_ne : model ≠ some "" := by decide
  deriving DecidableEq

structure AgentStateSnapshot where
  model : Option String := none
  thinking : Option PromptThinking := none
  permissionMode : Option PermissionMode := none
  planMode : Option Bool := none
  swarmMode : Option Bool := none
  deriving DecidableEq

structure AgentStatusUpdated where
  agentId : String
  model : Option String
  permission : Option PermissionMode
  planMode : Option Bool
  swarmMode : Option Bool
  deriving DecidableEq

def PromptService.MAIN_AGENT_ID : String := "main"

def AgentStatePatch.get (patch : AgentStatePatch) : (field : ControlField) → Option field.Value
  | .model => patch.model
  | .thinking => patch.thinking
  | .permissionMode => patch.permission_mode
  | .planMode => patch.plan_mode
  | .swarmMode => patch.swarm_mode

def AgentStatePatch.controls (patch : AgentStatePatch) : List Control :=
  ControlField.order.filterMap fun field => (patch.get field).map (Sigma.mk field)

namespace AgentStateSnapshot

def get (shadow : AgentStateSnapshot) : (field : ControlField) → Option field.Value
  | .model => shadow.model
  | .thinking => shadow.thinking
  | .permissionMode => shadow.permissionMode
  | .planMode => shadow.planMode
  | .swarmMode => shadow.swarmMode

def set (shadow : AgentStateSnapshot) : (field : ControlField) → field.Value → AgentStateSnapshot
  | .model, model => { shadow with model := some model }
  | .thinking, level => { shadow with thinking := some level }
  | .permissionMode, mode => { shadow with permissionMode := some mode }
  | .planMode, on => { shadow with planMode := some on }
  | .swarmMode, on => { shadow with swarmMode := some on }

/-- `_handleBusEvent` on `agent.status.updated`, which looks at no `agentId`. -/
def mirror (shadow : AgentStateSnapshot) (event : AgentStatusUpdated) : AgentStateSnapshot :=
  { shadow with
    model := event.model <|> shadow.model
    permissionMode := event.permission <|> shadow.permissionMode
    planMode := event.planMode <|> shadow.planMode }

end AgentStateSnapshot

/-! ## The main agent -/

/-- What `resolveProviderConfig` and the thinking configuration say of models. -/
structure ModelProvider where
  resolves : String → Bool
  alwaysThinking : String → Bool
  effort : PromptThinking

structure MainAgent where
  modelAlias : Option String
  /-- `_thinkingLevel`. -/
  thinkingLevel : PromptThinking
  mode : PermissionMode
  /-- `planMode.isActive`, which is also when `getPlan` returns a plan. -/
  planMode : Bool
  swarmMode : Option SwarmModeTrigger
  deriving DecidableEq

inductive AgentCall
  | setModel (model : String)
  | setThinking (level : PromptThinking)
  | setPermission (mode : PermissionMode)
  | enterPlan
  | cancelPlan
  | enterSwarm
  | exitSwarm
  | createGoal (objective : String)
  | pauseGoal
  | resumeGoal
  | cancelGoal
  deriving DecidableEq

namespace MainAgent

def get (agent : MainAgent) : (field : ControlField) → Option field.Value
  | .model => agent.modelAlias
  | .thinking => some agent.thinkingLevel
  | .permissionMode => some agent.mode
  | .planMode => some agent.planMode
  | .swarmMode => some agent.swarmMode.isSome

/-- The getter `thinkingLevel`, which clamps for models that cannot stop thinking. -/
def reportedThinkingLevel (provider : ModelProvider) (agent : MainAgent) : PromptThinking :=
  let alwaysThinkingModel := agent.modelAlias.any fun model =>
    provider.resolves model && provider.alwaysThinking model
  if agent.thinkingLevel = .off ∧ alwaysThinkingModel then provider.effort
  else agent.thinkingLevel

/-- `emitStatusUpdated`; without a model there is no event. -/
def status (agent : MainAgent) : Option AgentStatusUpdated :=
  agent.modelAlias.map fun model =>
    { agentId := PromptService.MAIN_AGENT_ID
      model := some model
      permission := some agent.mode
      planMode := some agent.planMode
      swarmMode := some agent.swarmMode.isSome }

/-- A setter: the agent after it and whether it calls `emitStatusUpdated`, or `none` if it throws.
The calls about goals change none of the controls. -/
def run (provider : ModelProvider) (agent : MainAgent) : AgentCall → Option (MainAgent × Bool)
  | .setModel model =>
    if !provider.resolves model then none
    else if agent.modelAlias = some model then some (agent, false)
    else
      some ({ agent with modelAlias := if model = "" then agent.modelAlias else some model }, true)
  | .setThinking level => some ({ agent with thinkingLevel := level }, true)
  | .setPermission mode => some ({ agent with mode }, true)
  | .enterPlan => if agent.planMode then none else some ({ agent with planMode := true }, true)
  | .cancelPlan => some ({ agent with planMode := false }, true)
  | .enterSwarm =>
    if agent.swarmMode.isSome then some (agent, false)
    else some ({ agent with swarmMode := some .manual }, true)
  | .exitSwarm =>
    if agent.swarmMode.isSome then some ({ agent with swarmMode := none }, true)
    else some (agent, false)
  | .createGoal _ | .pauseGoal | .resumeGoal | .cancelGoal => some (agent, false)

end MainAgent

/-! ## Applying a patch -/

/-- `profile` is the source `'meta'`. -/
inductive AgentStateSource
  | prompt | profile
  deriving DecidableEq

structure PromptDispatchLogEntry where
  /-- `kind` with its `payload`. -/
  call : AgentCall
  promptId : String
  source : AgentStateSource

def DISPATCH_LOG_CAP : ℕ := 100

def recordDispatch (log : List PromptDispatchLogEntry) (entry : PromptDispatchLogEntry) :
    List PromptDispatchLogEntry :=
  (log ++ [entry]).drop ((log ++ [entry]).length - DISPATCH_LOG_CAP)

def hasAnyAgentStateField (patch : AgentStatePatch) : Bool :=
  patch.model.isSome || patch.thinking.isSome || patch.permission_mode.isSome ||
    patch.plan_mode.isSome || patch.swarm_mode.isSome || patch.goal_objective.isSome ||
    patch.goal_control.isSome

/-- The setter for a control. -/
def Control.call : Control → AgentCall
  | ⟨.model, model⟩ => .setModel model
  | ⟨.thinking, level⟩ => .setThinking level
  | ⟨.permissionMode, mode⟩ => .setPermission mode
  | ⟨.planMode, on⟩ => if on then .enterPlan else .cancelPlan
  | ⟨.swarmMode, on⟩ => if on then .enterSwarm else .exitSwarm

/-- The calls about goals, which come behind the setters and are never skipped. -/
def AgentStatePatch.goalCalls (patch : AgentStatePatch) : List AgentCall :=
  (patch.goal_objective.map AgentCall.createGoal).toList ++
    (patch.goal_control.map fun
      | .pause => AgentCall.pauseGoal
      | .resume => .resumeGoal
      | .cancel => .cancelGoal).toList

/-- A call of `applyAgentState`, or of the override step of `submit`. -/
structure ApplyCall where
  patch : AgentStatePatch
  source : AgentStateSource
  promptId : String
  deriving DecidableEq

inductive BootstrapQuery
  | getConfig | getPermission | getPlan | getSwarmMode

/-- The answers that `_ensureAgentStateBootstrapped` has so far. -/
structure BootstrapAnswers where
  config : Option (Option String × PromptThinking) := none
  permission : Option PermissionMode := none
  plan : Option Bool := none
  swarmMode : Option Bool := none
  deriving DecidableEq

namespace BootstrapAnswers

def answer (provider : ModelProvider) (agent : MainAgent) (answers : BootstrapAnswers) :
    BootstrapQuery → BootstrapAnswers
  | .getConfig =>
    { answers with config := some (agent.modelAlias, agent.reportedThinkingLevel provider) }
  | .getPermission => { answers with permission := some agent.mode }
  | .getPlan => { answers with plan := some agent.planMode }
  | .getSwarmMode => { answers with swarmMode := some agent.swarmMode.isSome }

/-- The snapshot, when all four have answered. -/
def snapshot (answers : BootstrapAnswers) : Option AgentStateSnapshot := do
  let config ← answers.config
  let mode ← answers.permission
  let plan ← answers.plan
  let swarmMode ← answers.swarmMode
  return { model := config.1, thinking := some config.2, permissionMode := some mode,
           planMode := some plan, swarmMode := some swarmMode }

end BootstrapAnswers

/-- Where the running call is: it waits for the answers of the bootstrap, has controls and goal
calls to go through, waits for a setter, or the setter has run and its answer is on the way. -/
inductive ApplyPhase
  | idle
  | bootstrapping (call : ApplyCall) (answers : BootstrapAnswers)
  | applying (call : ApplyCall) (controls : List Control) (goals : List AgentCall)
  | calling (call : ApplyCall) (control : Control) (controls : List Control)
      (goals : List AgentCall)
  | called (call : ApplyCall) (control : Control) (controls : List Control)
      (goals : List AgentCall)
  deriving DecidableEq

structure ControlsWorld where
  main : MainAgent
  shadow : Option AgentStateSnapshot := none
  dispatchLog : List PromptDispatchLogEntry := []
  /-- The status events of the main agent that are still to be delivered, the oldest first. -/
  inFlight : List AgentStatusUpdated := []
  phase : ApplyPhase := .idle
  /-- The patch of the last call, if it returned without an error and the agent has not changed on
  its own since. -/
  returned : Option AgentStatePatch := none

inductive ControlsStep
  | apply (call : ApplyCall)
  | answer (query : BootstrapQuery)
  | seed
  | compare
  | execute
  | respond
  | goal
  | finish
  /-- An RPC of the running call rejects, and the call with it. -/
  | fail
  /-- The main agent goes on with what it does, or is changed by another client, and publishes its
  status. -/
  | own (main : MainAgent)
  | deliver
  /-- A status event of another agent of the session is delivered. -/
  | subagent (event : AgentStatusUpdated)

namespace ControlsWorld

def step (provider : ModelProvider) (w : ControlsWorld) : ControlsStep → Option ControlsWorld
  | .apply call =>
    match w.phase with
    | .idle =>
      if !hasAnyAgentStateField call.patch then some { w with returned := some call.patch }
      else if w.shadow.isSome then
        some { w with
          phase := .applying call call.patch.controls call.patch.goalCalls
          returned := none }
      else some { w with phase := .bootstrapping call {}, returned := none }
    | _ => none
  | .answer query =>
    match w.phase with
    | .bootstrapping call answers =>
      some { w with phase := .bootstrapping call (answers.answer provider w.main query) }
    | _ => none
  | .seed =>
    match w.phase with
    | .bootstrapping call answers =>
      answers.snapshot.map fun snapshot =>
        { w with
          shadow := some snapshot
          phase := .applying call call.patch.controls call.patch.goalCalls }
    | _ => none
  | .compare =>
    match w.phase, w.shadow with
    | .applying call (control :: controls) goals, some shadow =>
      if shadow.get control.1 = some control.2 then
        some { w with phase := .applying call controls goals }
      else some { w with phase := .calling call control controls goals }
    | _, _ => none
  | .execute =>
    match w.phase with
    | .calling call control controls goals =>
      (w.main.run provider control.call).map fun (main, emits) =>
        { w with
          main
          inFlight := w.inFlight ++ (if emits then main.status.toList else [])
          phase := .called call control controls goals }
    | _ => none
  | .respond =>
    match w.phase, w.shadow with
    | .called call control controls goals, some shadow =>
      some { w with
        shadow := some (shadow.set control.1 control.2)
        dispatchLog := recordDispatch w.dispatchLog
          { call := control.call, promptId := call.promptId, source := call.source }
        phase := .applying call controls goals }
    | _, _ => none
  | .goal =>
    match w.phase with
    | .applying call [] (goal :: goals) =>
      some { w with
        dispatchLog := recordDispatch w.dispatchLog
          { call := goal, promptId := call.promptId, source := call.source }
        phase := .applying call [] goals }
    | _ => none
  | .finish =>
    match w.phase with
    | .applying call [] [] => some { w with phase := .idle, returned := some call.patch }
    | _ => none
  | .fail =>
    match w.phase with
    | .bootstrapping .. | .calling .. | .applying _ [] (_ :: _) => some { w with phase := .idle }
    | _ => none
  | .own main =>
    -- a model once set is only ever replaced
    if w.main.modelAlias.isSome ∧ main.modelAlias = none then none
    else
      some { w with
        main
        inFlight := w.inFlight ++ main.status.toList
        returned := if main = w.main then w.returned else none }
  | .deliver =>
    match w.inFlight with
    | event :: rest => some { w with inFlight := rest, shadow := w.shadow.map (·.mirror event) }
    | [] => none
  | .subagent event =>
    if event.agentId = PromptService.MAIN_AGENT_ID then none
    else some { w with shadow := w.shadow.map (·.mirror event) }

end ControlsWorld

/-! ## One control at a time -/

section

variable {provider : ModelProvider} {main main' : MainAgent} {shadow : AgentStateSnapshot}
  {event : AgentStatusUpdated} {f g : ControlField}

theorem AgentStateSnapshot.get_set (shadow : AgentStateSnapshot) (v : f.Value) :
    (shadow.set f v).get f = some v := by
  cases f <;> rfl

theorem AgentStateSnapshot.get_set_ne (shadow : AgentStateSnapshot) (v : f.Value) (ne : g ≠ f) :
    (shadow.set f v).get g = shadow.get g := by
  cases f <;> cases g <;> first | rfl | exact absurd rfl ne

/-- What the handler takes from an event. -/
def AgentStatusUpdated.get (event : AgentStatusUpdated) :
    (field : ControlField) → Option field.Value
  | .model => event.model
  | .permissionMode => event.permission
  | .planMode => event.planMode
  | .thinking | .swarmMode => none

theorem AgentStateSnapshot.get_mirror (shadow : AgentStateSnapshot) (event : AgentStatusUpdated)
    (f : ControlField) : (shadow.mirror event).get f = (event.get f <|> shadow.get f) := by
  cases f <;> rfl

theorem AgentStatusUpdated.get_unmirrored (event : AgentStatusUpdated) (un : f.isMirrored = false) :
    event.get f = none := by
  cases f <;> first | rfl | cases un

/-- The event says what is so. -/
def AgentStatusUpdated.Current (event : AgentStatusUpdated) (main : MainAgent) : Prop :=
  ∀ f : ControlField, f.isMirrored = true → event.get f = main.get f

/-- The event says what is so of the fields it has. -/
def AgentStatusUpdated.Harmless (event : AgentStatusUpdated) (main : MainAgent) : Prop :=
  ∀ f : ControlField, event.get f = none ∨ event.get f = main.get f

theorem AgentStatusUpdated.Current.harmless (current : event.Current main) :
    event.Harmless main := by
  intro f
  cases mirrored : f.isMirrored with
  | true => exact .inr (current f mirrored)
  | false => exact .inl (event.get_unmirrored mirrored)

theorem AgentStatusUpdated.Harmless.get_mirror (harmless : event.Harmless main)
    (agrees : shadow.get f = main.get f) : (shadow.mirror event).get f = main.get f := by
  rw [shadow.get_mirror]
  rcases harmless f with none | same
  · rw [none]
    exact agrees
  · rw [same, agrees]
    cases main.get f <;> rfl

theorem MainAgent.status_current (status : main.status = some event) : event.Current main := by
  obtain ⟨model, eq, rfl⟩ := Option.map_eq_some_iff.1 status
  intro f mirrored
  cases f with
  | model => exact eq.symm
  | permissionMode => rfl
  | planMode => rfl
  | thinking => cases mirrored
  | swarmMode => cases mirrored

theorem AgentStatusUpdated.Current.isSome (current : event.Current main)
    (model : main.modelAlias.isSome = true) (mirrored : f.isMirrored = true) :
    (event.get f).isSome = true := by
  rw [current f mirrored]
  cases f with
  | model => exact model
  | permissionMode => rfl
  | planMode => rfl
  | thinking => cases mirrored
  | swarmMode => cases mirrored

/-- A setter that does not throw sets its control and nothing else; if it is silent, nothing has
changed. -/
theorem MainAgent.run_control {control : Control} {emits : Bool}
    (valid : control ≠ ⟨.model, ""⟩) (ran : main.run provider control.call = some (main', emits)) :
    main'.get control.1 = some control.2 ∧ (∀ g, g ≠ control.1 → main'.get g = main.get g) ∧
      (emits = false → main' = main) ∧
      (main.modelAlias.isSome = true → main'.modelAlias.isSome = true) := by
  have kept : ∀ g, g ≠ control.1 → main.get g = main.get g := fun g _ => rfl
  obtain ⟨f, v⟩ := control
  cases f with
  | model =>
    simp only [Control.call, run] at ran
    split at ran
    · cases ran
    split at ran
    case isTrue same =>
      cases ran
      exact ⟨same, kept, fun _ => rfl, id⟩
    case isFalse =>
      cases ran
      have named : v ≠ "" := fun same => valid (by rw [same])
      refine ⟨if_neg named, fun g ne => ?_, (by simp), fun _ => ?_⟩
      · cases g <;> first | rfl | exact absurd rfl ne
      · rw [if_neg named]
        rfl
  | thinking | permissionMode =>
    cases ran
    refine ⟨rfl, fun g ne => ?_, (by simp), id⟩
    cases g <;> first | rfl | exact absurd rfl ne
  | planMode =>
    have ran' : main' = { main with planMode := v } ∧ emits = true := by
      cases v with
      | true =>
        simp only [Control.call, run, if_true] at ran
        split at ran
        · cases ran
        · cases ran
          exact ⟨rfl, rfl⟩
      | false =>
        cases ran
        exact ⟨rfl, rfl⟩
    obtain ⟨rfl, rfl⟩ := ran'
    refine ⟨rfl, fun g ne => ?_, (by simp), id⟩
    cases g <;> first | rfl | exact absurd rfl ne
  | swarmMode =>
    have ran' : main' = main ∧ main.swarmMode.isSome = v ∧ emits = false ∨
        ∃ swarmMode, swarmMode.isSome = v ∧ main' = { main with swarmMode } ∧ emits = true := by
      cases v with
      | true =>
        simp only [Control.call, run, if_true] at ran
        split at ran
        case isTrue active =>
          cases ran
          exact .inl ⟨rfl, active, rfl⟩
        case isFalse =>
          cases ran
          exact .inr ⟨_, rfl, rfl, rfl⟩
      | false =>
        simp only [Control.call, run, Bool.false_eq_true, if_false] at ran
        split at ran
        case isTrue =>
          cases ran
          exact .inr ⟨_, rfl, rfl, rfl⟩
        case isFalse inactive =>
          cases ran
          exact .inl ⟨rfl, Bool.eq_false_iff.2 inactive, rfl⟩
    rcases ran' with ⟨rfl, active, rfl⟩ | ⟨swarmMode, active, rfl, rfl⟩
    · exact ⟨congrArg some active, kept, fun _ => rfl, id⟩
    · refine ⟨congrArg some active, fun g ne => ?_, (by simp), id⟩
      cases g <;> first | rfl | exact absurd rfl ne

end

/-! ## What is on the way -/

/-- The status events of the main agent that are on the way: there are none without a model, each
has all the mirrored fields, and the last says what is so. -/
structure EventsInv (main : MainAgent) (inFlight : List AgentStatusUpdated) : Prop where
  model : inFlight ≠ [] → main.modelAlias.isSome = true
  full : ∀ event ∈ inFlight, ∀ f : ControlField, f.isMirrored = true → (event.get f).isSome = true
  last : ∀ event ∈ inFlight.getLast?, event.Current main

/-- The shadow agrees on the control, and no event that is on the way changes that. -/
structure Settled (shadow : AgentStateSnapshot) (main : MainAgent)
    (inFlight : List AgentStatusUpdated) (f : ControlField) : Prop where
  agrees : shadow.get f = main.get f
  events : ∀ event ∈ inFlight, event.get f = none ∨ event.get f = main.get f

/-- The shadow agrees on the control when all events are delivered. -/
def Fresh (shadow : AgentStateSnapshot) (main : MainAgent) (inFlight : List AgentStatusUpdated)
    (f : ControlField) : Prop :=
  (f.isMirrored = true → inFlight = []) → shadow.get f = main.get f

section

variable {main main' : MainAgent} {shadow : AgentStateSnapshot} {event : AgentStatusUpdated}
  {inFlight : List AgentStatusUpdated} {f : ControlField}

theorem EventsInv.publish (inv : EventsInv main inFlight)
    (keeps : main.modelAlias.isSome = true → main'.modelAlias.isSome = true) :
    EventsInv main' (inFlight ++ main'.status.toList) := by
  cases status : main'.status with
  | none =>
    have unset : main'.modelAlias = none := Option.map_eq_none_iff.1 status
    have empty : inFlight = [] := by
      by_contra some
      have known := keeps (inv.model some)
      rw [unset] at known
      cases known
    subst empty
    exact ⟨fun some => absurd rfl some, fun _ mem => (nomatch mem), fun _ mem => (nomatch mem)⟩
  | some =>
    have current := MainAgent.status_current status
    have model : main'.modelAlias.isSome = true := by
      rw [← Option.isSome_map, ← MainAgent.status, status]
      rfl
    refine ⟨fun _ => model, fun e mem f mirrored => ?_, fun e mem => ?_⟩
    · rcases List.mem_append.1 mem with old | new
      · exact inv.full e old f mirrored
      · obtain rfl := List.mem_singleton.1 new
        exact current.isSome model mirrored
    · rw [Option.toList_some, List.getLast?_concat] at mem
      cases mem
      exact current

theorem EventsInv.tail (inv : EventsInv main (event :: inFlight)) : EventsInv main inFlight := by
  refine ⟨fun _ => inv.model (List.cons_ne_nil _ _),
    fun e mem => inv.full e (List.mem_cons_of_mem _ mem), fun e mem => inv.last e ?_⟩
  cases inFlight with
  | nil => cases mem
  | cons => exact mem

theorem Settled.publish (settled : Settled shadow main inFlight f)
    (kept : main'.get f = main.get f) :
    Settled shadow main' (inFlight ++ main'.status.toList) f := by
  refine ⟨settled.agrees.trans kept.symm, fun e mem => ?_⟩
  rcases List.mem_append.1 mem with old | new
  · rw [kept]
    exact settled.events e old
  · exact (MainAgent.status_current (Option.mem_toList.1 new)).harmless f

theorem Settled.deliver (settled : Settled shadow main (event :: inFlight) f) :
    Settled (shadow.mirror event) main inFlight f := by
  refine ⟨?_, fun e mem => settled.events e (List.mem_cons_of_mem _ mem)⟩
  rw [shadow.get_mirror]
  rcases settled.events event (List.mem_cons_self ..) with none | same
  · rw [none]
    exact settled.agrees
  · rw [same, settled.agrees]
    cases main.get f <;> rfl

theorem Settled.mirror (settled : Settled shadow main inFlight f) (harmless : event.Harmless main) :
    Settled (shadow.mirror event) main inFlight f :=
  ⟨harmless.get_mirror settled.agrees, settled.events⟩

theorem Fresh.deliver (fresh : Fresh shadow main (event :: inFlight) f)
    (events : EventsInv main (event :: inFlight)) :
    Fresh (shadow.mirror event) main inFlight f := by
  intro delivered
  rw [shadow.get_mirror]
  cases mirrored : f.isMirrored with
  | false =>
    rw [event.get_unmirrored mirrored]
    exact fresh fun yes => absurd (mirrored.symm.trans yes) Bool.false_ne_true
  | true =>
    obtain rfl := delivered mirrored
    have current := events.last event rfl f mirrored
    obtain ⟨v, eq⟩ := Option.isSome_iff_exists.1
      (events.full event (List.mem_cons_self ..) f mirrored)
    rw [← current, eq]
    rfl

theorem Fresh.mirror (fresh : Fresh shadow main inFlight f) (harmless : event.Harmless main) :
    Fresh (shadow.mirror event) main inFlight f :=
  fun delivered => harmless.get_mirror (fresh delivered)

theorem Fresh.settled (fresh : Fresh shadow main inFlight f) (events : EventsInv main inFlight)
    (unchanged : ∀ event ∈ inFlight, shadow.mirror event = shadow) :
    Settled shadow main inFlight f := by
  have same (event : AgentStatusUpdated) (mem : event ∈ inFlight) (mirrored : f.isMirrored = true) :
      event.get f = shadow.get f := by
    have get := shadow.get_mirror event f
    rw [unchanged event mem] at get
    obtain ⟨v, eq⟩ := Option.isSome_iff_exists.1 (events.full event mem f mirrored)
    rw [get, eq]
    rfl
  have agrees : shadow.get f = main.get f := by
    cases mirrored : f.isMirrored with
    | false => exact fresh fun yes => absurd (mirrored.symm.trans yes) Bool.false_ne_true
    | true =>
      cases last : inFlight.getLast? with
      | none => exact fresh fun _ => List.getLast?_eq_none_iff.1 last
      | some event =>
        rw [← same event (List.mem_of_getLast? last) mirrored]
        exact events.last event last f mirrored
  refine ⟨agrees, fun event mem => ?_⟩
  cases mirrored : f.isMirrored with
  | false => exact .inl (event.get_unmirrored mirrored)
  | true => exact .inr ((same event mem mirrored).trans agrees)

end

/-! ## The invariant -/

/-- `todo` is what is left of the patch: the shadow is settled there, and what was passed is so. -/
structure Applying (main : MainAgent) (shadow : AgentStateSnapshot)
    (inFlight : List AgentStatusUpdated) (patch : AgentStatePatch) (todo : List Control) :
    Prop where
  rest : todo <:+ patch.controls
  settled : ∀ control ∈ todo, Settled shadow main inFlight control.1
  passed : ∀ control ∈ patch.controls, control ∈ todo ∨ main.get control.1 = some control.2

/-- The answers are still so. -/
structure BootstrapAnswers.Current (answers : BootstrapAnswers) (main : MainAgent) : Prop where
  config : ∀ config ∈ answers.config, config = (main.modelAlias, main.thinkingLevel)
  permission : ∀ mode ∈ answers.permission, mode = main.mode
  plan : ∀ on ∈ answers.plan, on = main.planMode
  swarmMode : ∀ on ∈ answers.swarmMode, on = main.swarmMode.isSome

namespace ControlsWorld

def PhaseInv (w : ControlsWorld) : Prop :=
  match w.phase with
  | .idle => True
  | .bootstrapping _ answers => w.shadow = none ∧ answers.Current w.main
  | .applying call controls _ =>
    ∃ shadow, w.shadow = some shadow ∧ Applying w.main shadow w.inFlight call.patch controls
  | .calling call control controls _ => ∃ shadow, w.shadow = some shadow ∧
      Applying w.main shadow w.inFlight call.patch (control :: controls)
  | .called call control controls _ => w.main.get control.1 = some control.2 ∧
      ∃ shadow, w.shadow = some shadow ∧ control.1 ∉ controls.map (·.1) ∧
        Applying w.main shadow w.inFlight call.patch controls

/-- The control whose setter has run, but has not been answered. -/
def pending (w : ControlsWorld) : Option ControlField :=
  match w.phase with
  | .called _ control _ _ => some control.1
  | _ => none

structure Inv (w : ControlsWorld) : Prop where
  events : EventsInv w.main w.inFlight
  fresh : ∀ shadow ∈ w.shadow, ∀ f, w.pending ≠ some f → Fresh shadow w.main w.inFlight f
  phase : w.PhaseInv
  running : w.phase ≠ .idle → w.returned = none
  returned : ∀ patch ∈ w.returned, ∀ control ∈ patch.controls,
    w.main.get control.1 = some control.2

/-- What does not confuse the shadow. A call begins when nothing is on the way that would change
the shadow, and its bootstrap is told the level that the agent has and ends when nothing else is
on the way. The agent changes on its own only between calls, when it has a model, and in model,
permission mode and plan mode only. The status of another agent says of these what is so of the
main agent. Without a shadow, nothing can confuse it. -/
def Tracked (provider : ModelProvider) (w : ControlsWorld) : ControlsStep → Prop
  | .apply _ => ∀ shadow ∈ w.shadow, ∀ event ∈ w.inFlight, shadow.mirror event = shadow
  | .answer .getConfig => w.main.reportedThinkingLevel provider = w.main.thinkingLevel
  | .seed => ∀ event ∈ w.inFlight, event.model = w.main.modelAlias ∧
      event.permission = some w.main.mode ∧ event.planMode = some w.main.planMode
  | .own main => main = w.main ∨ w.phase = .idle ∧ (w.shadow = none ∨
      main.modelAlias.isSome = true ∧ main.thinkingLevel = w.main.thinkingLevel ∧
        main.swarmMode.isSome = w.main.swarmMode.isSome)
  | .subagent event => w.shadow = none ∨
      (event.model = none ∨ event.model = w.main.modelAlias) ∧
      (event.permission = none ∨ event.permission = some w.main.mode) ∧
      (event.planMode = none ∨ event.planMode = some w.main.planMode)
  | _ => True

abbrev TrackedRun (provider : ModelProvider) (main : MainAgent) :
    List ControlsStep → ControlsWorld → Prop :=
  Transition.Run (step provider) (Tracked provider) { main }

end ControlsWorld

theorem AgentStatePatch.get_of_mem {patch : AgentStatePatch} {control : Control}
    (mem : control ∈ patch.controls) : patch.get control.1 = some control.2 := by
  obtain ⟨f, -, found⟩ := List.mem_filterMap.1 mem
  obtain ⟨v, eq, rfl⟩ := Option.map_eq_some_iff.1 found
  exact eq

theorem AgentStatePatch.controls_nodup (patch : AgentStatePatch) :
    (patch.controls.map (·.1)).Nodup := by
  have sublist (fields : List ControlField) : ((fields.filterMap fun field =>
      (patch.get field).map (Sigma.mk field) : List Control).map (·.1)).Sublist fields := by
    induction fields with
    | nil => exact List.Sublist.slnil
    | cons f fields ih =>
      cases eq : patch.get f with
      | none => simpa [eq] using ih.cons f
      | some => simpa [eq] using ih.cons_cons f
  exact (sublist ControlField.order).nodup (by decide)

theorem AgentStatePatch.controls_eq_nil {patch : AgentStatePatch}
    (none : hasAnyAgentStateField patch = false) : patch.controls = [] := by
  obtain ⟨model, thinking, permission, plan, swarm, objective, control⟩ := patch
  simp only [hasAnyAgentStateField, Bool.or_eq_false_iff, Option.isSome_eq_false_iff,
    Option.isNone_iff_eq_none] at none
  obtain ⟨⟨⟨⟨⟨⟨rfl, rfl⟩, rfl⟩, rfl⟩, rfl⟩, -⟩, -⟩ := none
  rfl

theorem BootstrapAnswers.Current.snapshot {answers : BootstrapAnswers} {main : MainAgent}
    {shadow : AgentStateSnapshot} (current : answers.Current main)
    (complete : answers.snapshot = some shadow) (f : ControlField) :
    shadow.get f = main.get f := by
  simp only [BootstrapAnswers.snapshot, Option.bind_eq_bind, Option.bind_eq_some_iff,
    Option.pure_def, Option.some.injEq] at complete
  obtain ⟨config, config', mode, mode', plan, plan', swarm, swarm', rfl⟩ := complete
  obtain rfl := current.config config config'
  obtain rfl := current.permission mode mode'
  obtain rfl := current.plan plan plan'
  obtain rfl := current.swarmMode swarm swarm'
  cases f <;> rfl

namespace Applying

variable {main main' : MainAgent} {shadow shadow' : AgentStateSnapshot} {patch : AgentStatePatch}
  {inFlight inFlight' : List AgentStatusUpdated} {control : Control} {todo : List Control}

theorem map (applying : Applying main shadow inFlight patch todo)
    (settles : ∀ control ∈ todo, Settled shadow main inFlight control.1 →
      Settled shadow' main' inFlight' control.1)
    (kept : ∀ control ∈ patch.controls, control ∉ todo → main'.get control.1 = main.get control.1) :
    Applying main' shadow' inFlight' patch todo := by
  refine ⟨applying.rest, fun c mem => settles c mem (applying.settled c mem), fun c mem => ?_⟩
  by_cases left : c ∈ todo
  · exact .inl left
  · exact .inr ((kept c mem left).trans ((applying.passed c mem).resolve_left left))

theorem distinct (applying : Applying main shadow inFlight patch (control :: todo)) :
    (∀ c ∈ todo, c.1 ≠ control.1) ∧
      ∀ c ∈ patch.controls, c.1 = control.1 → c = control := by
  have nodup := (applying.rest.sublist.map (·.1)).nodup patch.controls_nodup
  rw [List.map_cons, List.nodup_cons] at nodup
  refine ⟨fun c mem same => nodup.1 (same ▸ List.mem_map_of_mem mem), fun c mem same => ?_⟩
  have mem' : control ∈ patch.controls := applying.rest.subset (List.mem_cons_self ..)
  obtain ⟨f, v⟩ := control
  obtain ⟨g, w⟩ := c
  obtain rfl : g = f := same
  have asked : patch.get g = some w := AgentStatePatch.get_of_mem mem
  have asked' : patch.get g = some v := AgentStatePatch.get_of_mem mem'
  rw [Option.some.inj (asked.symm.trans asked')]

theorem pass (applying : Applying main shadow inFlight patch (control :: todo))
    (done : main.get control.1 = some control.2) : Applying main shadow inFlight patch todo := by
  refine ⟨(List.suffix_cons control todo).trans applying.rest,
    fun c mem => applying.settled c (List.mem_cons_of_mem _ mem), fun c mem => ?_⟩
  rcases applying.passed c mem with left | passed
  · rcases List.mem_cons.1 left with rfl | left
    · exact .inr done
    · exact .inl left
  · exact .inr passed

theorem execute (applying : Applying main shadow inFlight patch (control :: todo))
    (done : main'.get control.1 = some control.2)
    (others : ∀ g, g ≠ control.1 → main'.get g = main.get g)
    (settles : ∀ f, f ≠ control.1 → Settled shadow main inFlight f →
      Settled shadow main' inFlight' f) :
    Applying main' shadow inFlight' patch todo := by
  obtain ⟨distinct, unique⟩ := applying.distinct
  refine ⟨(List.suffix_cons control todo).trans applying.rest, fun c mem => ?_, fun c mem => ?_⟩
  · exact settles _ (distinct c mem) (applying.settled c (List.mem_cons_of_mem _ mem))
  · by_cases same : c.1 = control.1
    · obtain rfl := unique c mem same
      exact .inr done
    · rcases applying.passed c mem with left | passed
      · exact .inl ((List.mem_cons.1 left).resolve_left fun eq => same (congrArg _ eq))
      · exact .inr ((others _ same).trans passed)

theorem respond (applying : Applying main shadow inFlight patch todo)
    (distinct : control.1 ∉ todo.map (·.1)) :
    Applying main (shadow.set control.1 control.2) inFlight patch todo := by
  refine applying.map (fun c mem settled => ⟨?_, settled.events⟩) fun _ _ _ => rfl
  rw [shadow.get_set_ne control.2 fun same => distinct (same ▸ List.mem_map_of_mem mem)]
  exact settled.agrees

end Applying

/-! ## Every step keeps it -/

namespace ControlsWorld

variable {provider : ModelProvider} {main : MainAgent} {labels : List ControlsStep}
  {w w' : ControlsWorld}

theorem Inv.apply {call : ApplyCall} (inv : w.Inv) (tracked : Tracked provider w (.apply call))
    (next : step provider w (.apply call) = some w') : w'.Inv := by
  obtain ⟨main, shadow, log, inFlight, phase, returned⟩ := w
  cases phase with
  | idle =>
    simp only [step] at next
    split at next
    case isTrue noField =>
      cases next
      have empty := AgentStatePatch.controls_eq_nil (Bool.not_eq_true' _ ▸ noField)
      refine ⟨inv.events, inv.fresh, trivial, fun no => absurd rfl no, fun patch mem c inside => ?_⟩
      cases mem
      rw [empty] at inside
      cases inside
    case isFalse =>
      cases shadow with
      | none =>
        cases next
        refine ⟨inv.events, fun _ mem => (nomatch mem), ⟨rfl, ?_⟩, fun _ => rfl,
          fun _ mem => (nomatch mem)⟩
        exact ⟨fun _ mem => (nomatch mem), fun _ mem => (nomatch mem), fun _ mem => (nomatch mem),
          fun _ mem => (nomatch mem)⟩
      | some shadow =>
        cases next
        refine ⟨inv.events, fun s mem f _ => inv.fresh s mem f (by simp [pending]),
          ⟨shadow, rfl, List.suffix_refl _, fun c mem => ?_, fun c mem => .inl mem⟩, fun _ => rfl,
          fun _ mem => (nomatch mem)⟩
        exact (inv.fresh shadow rfl c.1 (by simp [pending])).settled inv.events (tracked shadow rfl)
  | _ => cases next

theorem Inv.answer {query : BootstrapQuery} (inv : w.Inv)
    (tracked : Tracked provider w (.answer query))
    (next : step provider w (.answer query) = some w') : w'.Inv := by
  obtain ⟨main, shadow, log, inFlight, phase, returned⟩ := w
  cases phase with
  | bootstrapping =>
    cases next
    obtain ⟨none, config, permission, plan, swarm⟩ := inv.phase
    refine ⟨inv.events, fun s mem f _ => inv.fresh s mem f (by simp [pending]), ⟨none, ?_⟩,
      fun _ => inv.running (by simp), inv.returned⟩
    cases query with
    | getConfig =>
      refine ⟨fun c mem => ?_, permission, plan, swarm⟩
      cases mem
      exact Prod.ext rfl tracked
    | getPermission => exact ⟨config, fun m mem => (Option.some.inj mem).symm, plan, swarm⟩
    | getPlan => exact ⟨config, permission, fun m mem => (Option.some.inj mem).symm, swarm⟩
    | getSwarmMode => exact ⟨config, permission, plan, fun m mem => (Option.some.inj mem).symm⟩
  | _ => cases next

theorem Inv.seed (inv : w.Inv) (tracked : Tracked provider w .seed)
    (next : step provider w .seed = some w') : w'.Inv := by
  obtain ⟨main, shadow, log, inFlight, phase, returned⟩ := w
  cases phase with
  | bootstrapping =>
    obtain ⟨snapshot, complete, rfl⟩ := Option.map_eq_some_iff.1 next
    have agrees := inv.phase.2.snapshot complete
    refine ⟨inv.events, fun s mem f _ _ => ?_,
      ⟨snapshot, rfl, List.suffix_refl _, fun c _ => ⟨agrees c.1, fun e mem => ?_⟩,
        fun c mem => .inl mem⟩, fun _ => inv.running (by simp), inv.returned⟩
    · cases mem
      exact agrees f
    · obtain ⟨model, permission, plan⟩ := tracked e mem
      cases c.1 with
      | model => exact .inr model
      | permissionMode => exact .inr permission
      | planMode => exact .inr plan
      | thinking => exact .inl rfl
      | swarmMode => exact .inl rfl
  | _ => cases next

theorem Inv.compare (inv : w.Inv) (next : step provider w .compare = some w') : w'.Inv := by
  obtain ⟨main, shadow, log, inFlight, phase, returned⟩ := w
  rcases phase with _ | _ | ⟨call, - | ⟨control, controls⟩, goals⟩ | _ | _
  case applying.cons =>
    obtain ⟨snapshot, rfl, applying⟩ := inv.phase
    have fresh : ∀ s ∈ some snapshot, ∀ f, Fresh s main inFlight f :=
      fun s mem f => inv.fresh s mem f (by simp [pending])
    simp only [step] at next
    split at next
    case isTrue same =>
      cases next
      have agrees := (applying.settled control (List.mem_cons_self ..)).agrees
      exact ⟨inv.events, fun s mem f _ => fresh s mem f,
        ⟨snapshot, rfl, applying.pass (agrees.symm.trans same)⟩, fun _ => inv.running (by simp),
        inv.returned⟩
    case isFalse =>
      cases next
      exact ⟨inv.events, fun s mem f _ => fresh s mem f, ⟨snapshot, rfl, applying⟩,
        fun _ => inv.running (by simp), inv.returned⟩
  all_goals cases next

theorem Inv.execute (inv : w.Inv) (next : step provider w .execute = some w') : w'.Inv := by
  obtain ⟨main, shadow, log, inFlight, phase, returned⟩ := w
  cases phase with
  | calling call control controls =>
    obtain ⟨snapshot, rfl, applying⟩ := inv.phase
    obtain rfl : returned = none := inv.running (by simp)
    obtain ⟨⟨main', emits⟩, ran, rfl⟩ := Option.map_eq_some_iff.1 next
    have valid : control ≠ ⟨.model, ""⟩ := by
      rintro rfl
      have mem := applying.rest.subset (List.mem_cons_self ..)
      exact call.patch.model_ne (AgentStatePatch.get_of_mem mem)
    obtain ⟨done, others, silent, keeps⟩ := MainAgent.run_control valid ran
    have fresh : ∀ f, Fresh snapshot main inFlight f :=
      fun f => inv.fresh snapshot rfl f (by simp [pending])
    have distinct : control.1 ∉ controls.map (·.1) := by
      intro mem
      obtain ⟨c, inside, same⟩ := List.mem_map.1 mem
      exact applying.distinct.1 c inside same
    have pend {f : ControlField} (other : some control.1 ≠ some f) : f ≠ control.1 :=
      fun same => other (congrArg some same.symm)
    cases emits with
    | false =>
      obtain rfl := silent rfl
      simp only [Bool.false_eq_true, if_false, List.append_nil]
      exact ⟨inv.events, fun s mem f _ => Option.some.inj mem ▸ fresh f,
        ⟨done, snapshot, rfl, distinct, applying.pass done⟩, fun _ => rfl,
        fun _ mem => (nomatch mem)⟩
    | true =>
      refine ⟨inv.events.publish keeps, fun s mem f other delivered => ?_,
        ⟨done, snapshot, rfl, distinct, applying.execute done others fun f other settled =>
          settled.publish (others f other)⟩, fun _ => rfl, fun _ mem => (nomatch mem)⟩
      cases mem
      rw [others f (pend other)]
      exact fresh f fun mirrored => (List.append_eq_nil_iff.1 (delivered mirrored)).1
  | _ => cases next

theorem Inv.respond (inv : w.Inv) (next : step provider w .respond = some w') : w'.Inv := by
  obtain ⟨main, shadow, log, inFlight, phase, returned⟩ := w
  cases phase with
  | called call control =>
    obtain ⟨done, snapshot, rfl, distinct, applying⟩ := inv.phase
    cases next
    refine ⟨inv.events, fun s mem f _ delivered => ?_,
      ⟨_, rfl, applying.respond distinct⟩, fun _ => inv.running (by simp), inv.returned⟩
    cases mem
    by_cases same : f = control.1
    · subst same
      rw [snapshot.get_set]
      exact done.symm
    · rw [snapshot.get_set_ne _ same]
      exact inv.fresh snapshot rfl f (fun eq => same (Option.some.inj eq).symm) delivered
  | _ => cases next

theorem Inv.goal (inv : w.Inv) (next : step provider w .goal = some w') : w'.Inv := by
  obtain ⟨main, shadow, log, inFlight, phase, returned⟩ := w
  rcases phase with _ | _ | ⟨call, - | ⟨control, controls⟩, - | ⟨goal, goals⟩⟩ | _ | _
  case applying.nil.cons =>
    cases next
    exact ⟨inv.events, fun s mem f _ => inv.fresh s mem f (by simp [pending]), inv.phase,
      fun _ => inv.running (by simp), inv.returned⟩
  all_goals cases next

theorem Inv.finish (inv : w.Inv) (next : step provider w .finish = some w') : w'.Inv := by
  obtain ⟨main, shadow, log, inFlight, phase, returned⟩ := w
  rcases phase with _ | _ | ⟨call, - | ⟨control, controls⟩, - | ⟨goal, goals⟩⟩ | _ | _
  case applying.nil.nil =>
    cases next
    obtain ⟨snapshot, rfl, applying⟩ := inv.phase
    refine ⟨inv.events, fun s mem f _ => inv.fresh s mem f (by simp [pending]), trivial,
      fun no => absurd rfl no, fun patch mem c inside => ?_⟩
    cases mem
    exact (applying.passed c inside).resolve_left List.not_mem_nil
  all_goals cases next

theorem Inv.fail (inv : w.Inv) (next : step provider w .fail = some w') : w'.Inv := by
  obtain ⟨main, shadow, log, inFlight, phase, returned⟩ := w
  have idle (fresh : ∀ f, (⟨main, shadow, log, inFlight, phase, returned⟩ : ControlsWorld).pending ≠
      some f) : Inv ⟨main, shadow, log, inFlight, .idle, returned⟩ :=
    ⟨inv.events, fun s mem f _ => inv.fresh s mem f (fresh f), trivial, fun no => absurd rfl no,
      inv.returned⟩
  rcases phase with _ | _ | ⟨call, - | ⟨control, controls⟩, - | ⟨goal, goals⟩⟩ | _ | _
  case bootstrapping => exact Option.some.inj next ▸ idle (by simp [pending])
  case applying.nil.cons => exact Option.some.inj next ▸ idle (by simp [pending])
  case calling => exact Option.some.inj next ▸ idle (by simp [pending])
  all_goals cases next

/-- The phase is kept by a step that settles what was settled and leaves the controls of the agent
alone. -/
theorem PhaseInv.map {main' : MainAgent} {shadow shadow' : AgentStateSnapshot}
    {inFlight inFlight' : List AgentStatusUpdated} {phase : ApplyPhase}
    {log : List PromptDispatchLogEntry} {returned returned' : Option AgentStatePatch}
    (inv : PhaseInv ⟨main, some shadow, log, inFlight, phase, returned⟩)
    (settles : ∀ f, Settled shadow main inFlight f → Settled shadow' main' inFlight' f)
    (kept : ∀ f, main'.get f = main.get f) :
    PhaseInv ⟨main', some shadow', log, inFlight', phase, returned'⟩ := by
  cases phase with
  | idle => trivial
  | bootstrapping => cases inv.1
  | applying | calling =>
    obtain ⟨s, eq, applying⟩ := inv
    cases eq
    exact ⟨_, rfl, applying.map (fun c _ => settles c.1) fun c _ _ => kept c.1⟩
  | called =>
    obtain ⟨done, s, eq, distinct, applying⟩ := inv
    cases eq
    exact ⟨(kept _).trans done, _, rfl, distinct,
      applying.map (fun c _ => settles c.1) fun c _ _ => kept c.1⟩

theorem PhaseInv.unshadowed {inFlight inFlight' : List AgentStatusUpdated} {phase : ApplyPhase}
    {log : List PromptDispatchLogEntry} {returned returned' : Option AgentStatePatch}
    (inv : PhaseInv ⟨main, none, log, inFlight, phase, returned⟩) :
    PhaseInv ⟨main, none, log, inFlight', phase, returned'⟩ := by
  cases phase with
  | idle => trivial
  | bootstrapping => exact inv
  | applying => cases inv.choose_spec.1
  | calling => cases inv.choose_spec.1
  | called => cases inv.2.choose_spec.1

theorem Inv.deliver (inv : w.Inv) (next : step provider w .deliver = some w') : w'.Inv := by
  obtain ⟨main, shadow, log, inFlight, phase, returned⟩ := w
  cases inFlight with
  | nil => cases next
  | cons =>
    cases next
    cases shadow with
    | none =>
      exact ⟨inv.events.tail, fun _ mem => (nomatch mem), inv.phase.unshadowed, inv.running,
        inv.returned⟩
    | some shadow =>
      refine ⟨inv.events.tail, fun s mem f other => ?_,
        inv.phase.map (fun f settled => settled.deliver) fun _ => rfl, inv.running, inv.returned⟩
      cases mem
      exact (inv.fresh shadow rfl f other).deliver inv.events

theorem Inv.subagent {event : AgentStatusUpdated} (inv : w.Inv)
    (tracked : Tracked provider w (.subagent event))
    (next : step provider w (.subagent event) = some w') : w'.Inv := by
  obtain ⟨main, shadow, log, inFlight, phase, returned⟩ := w
  simp only [step] at next
  split at next
  · cases next
  cases next
  cases shadow with
  | none => exact ⟨inv.events, fun _ mem => (nomatch mem), inv.phase, inv.running, inv.returned⟩
  | some shadow =>
    have harmless : event.Harmless main := by
      obtain ⟨model, permission, plan⟩ := tracked.resolve_left (by simp)
      intro f
      cases f with
      | model => exact model
      | permissionMode => exact permission
      | planMode => exact plan
      | thinking => exact .inl rfl
      | swarmMode => exact .inl rfl
    refine ⟨inv.events, fun s mem f other => ?_,
      inv.phase.map (fun f settled => settled.mirror harmless) fun _ => rfl, inv.running,
      inv.returned⟩
    cases mem
    exact (inv.fresh shadow rfl f other).mirror harmless

theorem Inv.own {agent : MainAgent} (inv : w.Inv) (tracked : Tracked provider w (.own agent))
    (next : step provider w (.own agent) = some w') : w'.Inv := by
  obtain ⟨main, shadow, log, inFlight, phase, returned⟩ := w
  simp only [step] at next
  split at next
  · cases next
  case isFalse modelKept =>
  cases next
  have keeps (model : main.modelAlias.isSome = true) : agent.modelAlias.isSome = true :=
    Option.isSome_iff_ne_none.2 fun unset => modelKept ⟨model, unset⟩
  have events := inv.events.publish keeps
  have published : inFlight ++ agent.status.toList = [] → inFlight = [] :=
    fun empty => (List.append_eq_nil_iff.1 empty).1
  by_cases same : agent = main
  · subst same
    rw [if_pos rfl]
    cases shadow with
    | none => exact ⟨events, fun _ mem => (nomatch mem), inv.phase.unshadowed, inv.running,
        inv.returned⟩
    | some =>
      exact ⟨events, fun s mem f other delivered => inv.fresh s mem f other fun mirrored =>
          published (delivered mirrored),
        inv.phase.map (fun f settled => settled.publish rfl) fun _ => rfl, inv.running,
        inv.returned⟩
  · obtain ⟨rfl, quiet⟩ := tracked.resolve_left same
    rw [if_neg same]
    refine ⟨events, fun s mem f other delivered => ?_, trivial, fun no => absurd rfl no,
      fun _ mem => (nomatch mem)⟩
    obtain rfl : shadow = some s := mem
    obtain ⟨model, thinking, swarm⟩ := quiet.resolve_left (by simp)
    obtain ⟨name, eq⟩ := Option.isSome_iff_exists.1 model
    have unmirrored : f.isMirrored = false := by
      refine Bool.eq_false_iff.2 fun mirrored => ?_
      have none := (List.append_eq_nil_iff.1 (delivered mirrored)).2
      rw [MainAgent.status, eq] at none
      cases none
    have fresh := inv.fresh s rfl f other fun mirrored =>
      absurd (unmirrored.symm.trans mirrored) Bool.false_ne_true
    rw [fresh]
    cases f with
    | thinking => exact congrArg some thinking.symm
    | swarmMode => exact congrArg some swarm.symm
    | model | permissionMode | planMode => cases unmirrored

theorem inv_run (run : TrackedRun provider main labels w) : w.Inv := by
  refine run.invariant Inv ?_ fun w label w' inv tracked next => ?_
  · exact ⟨⟨fun some => absurd rfl some, fun _ mem => (nomatch mem), fun _ mem => (nomatch mem)⟩,
      fun _ mem => (nomatch mem), trivial, fun no => absurd rfl no, fun _ mem => (nomatch mem)⟩
  · cases label with
    | apply => exact inv.apply tracked next
    | answer => exact inv.answer tracked next
    | seed => exact inv.seed tracked next
    | compare => exact inv.compare next
    | execute => exact inv.execute next
    | respond => exact inv.respond next
    | goal => exact inv.goal next
    | finish => exact inv.finish next
    | fail => exact inv.fail next
    | own => exact inv.own tracked next
    | deliver => exact inv.deliver next
    | subagent => exact inv.subagent tracked next

/-- In every run in which nothing confuses the shadow: when a call has returned without an error
and the main agent has not changed on its own since, it has every control that the patch sets,
also before all status events are delivered. -/
theorem controls_applied {patch : AgentStatePatch} (run : TrackedRun provider main labels w)
    (returned : w.returned = some patch) :
    ∀ control ∈ patch.controls, w.main.get control.1 = some control.2 :=
  (inv_run run).returned patch returned

/-! ## Sample runs -/

instance (provider : ModelProvider) (w : ControlsWorld) :
    ∀ label, Decidable (Tracked provider w label)
  | .apply _ => inferInstanceAs (Decidable (∀ shadow ∈ w.shadow, ∀ event ∈ w.inFlight, _))
  | .answer .getConfig => inferInstanceAs (Decidable (_ = _))
  | .answer .getPermission | .answer .getPlan | .answer .getSwarmMode => isTrue trivial
  | .seed => inferInstanceAs (Decidable (∀ event ∈ w.inFlight, _ ∧ _))
  | .own _ => inferInstanceAs (Decidable (_ ∨ _))
  | .subagent _ => inferInstanceAs (Decidable (_ ∨ _))
  | .compare | .execute | .respond | .goal | .finish | .fail | .deliver => isTrue trivial

/-- One model, which can stop thinking. -/
def sampleProvider : ModelProvider :=
  { resolves := (· == "k2"), alwaysThinking := fun _ => false, effort := .high }

def sampleAgent : MainAgent :=
  { modelAlias := some "k2", thinkingLevel := .off, mode := .manual, planMode := false,
    swarmMode := none }

/-- The steps of a call about one control. -/
def applyControl (patch : AgentStatePatch) (rest : List ControlsStep) : List ControlsStep :=
  .apply { patch, source := .profile, promptId := "" } :: rest

def bootstrapSteps : List ControlsStep :=
  [.answer .getConfig, .answer .getPermission, .answer .getPlan, .answer .getSwarmMode, .seed]

def setterSteps : List ControlsStep := [.compare, .execute, .respond, .finish, .deliver]

/-- Plan mode is switched on; a subagent in plan mode reports; it is switched off. -/
def planSwitched : List ControlsStep :=
  applyControl { plan_mode := some true } (bootstrapSteps ++ setterSteps) ++
    .subagent { agentId := "sub", model := some "k2", permission := none, planMode := some true,
                swarmMode := none } ::
    applyControl { plan_mode := some false } setterSteps

theorem planSwitched_applied : ∃ w,
    TrackedRun sampleProvider sampleAgent planSwitched w ∧ w.returned.isSome = true ∧
      w.main.planMode = false := by
  have reached : ((Transition.exec (Transition.guarded (step sampleProvider)
      (Tracked sampleProvider)) { main := sampleAgent } planSwitched).map (·.returned)) =
        some (some { plan_mode := some false }) := by
    decide +kernel
  obtain ⟨w, exec, returned⟩ := Option.map_eq_some_iff.1 reached
  have run := Transition.Run.of_exec exec
  have applied := controls_applied run returned ⟨.planMode, false⟩ (by decide)
  exact ⟨w, run, returned ▸ rfl, Option.some.inj applied⟩

/-- Plan mode is switched on; a subagent that is not in plan mode reports; it is switched off. -/
def planSuppressed : List ControlsStep :=
  applyControl { plan_mode := some true } (bootstrapSteps ++ setterSteps) ++
    .subagent { agentId := "sub", model := some "k2", permission := some .manual,
                planMode := some false, swarmMode := some false } ::
    applyControl { plan_mode := some false } [.compare, .finish]

/-- The last call returns without having called a setter, and the main agent stays in plan mode. -/
theorem planSuppressed_stays : ∃ w,
    Transition.exec (step sampleProvider) { main := sampleAgent } planSuppressed = some w ∧
      w.returned = some { plan_mode := some false } ∧ w.inFlight = [] ∧ w.main.planMode = true := by
  have reached : ((Transition.exec (step sampleProvider) { main := sampleAgent }
      planSuppressed).map fun w => (w.returned, w.inFlight, w.main.planMode)) =
        some (some { plan_mode := some false }, [], true) := by
    decide +kernel
  obtain ⟨w, exec, eq⟩ := Option.map_eq_some_iff.1 reached
  simp only [Prod.mk.injEq] at eq
  exact ⟨w, exec, eq⟩

end ControlsWorld

end KimiCli
