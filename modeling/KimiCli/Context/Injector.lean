import KimiCli.Context.Objects
import KimiCli.Context.SafeSplits
import KimiCli.Prompt.RuntimeControls

/-!
# Dynamic injectors

`agent/injection`: an injector appends its reminder to the history and remembers where, so that it
can tell how long ago that was.  Three callbacks of the context move the index along.
-/

namespace KimiCli

/-- An injection of the variant. -/
def ContextMessage.isInjectionOf (message : ContextMessage) (variant : String) : Bool :=
  message.isInjection && message.variant = some variant

/-- A class of injectors: its own fields, what it reads from the agent, what it adds to two of the
callbacks and its `getInjection`, which may assign `injectedAt`. -/
structure DynamicInjector where
  Fields : Type
  Agent : Type
  injectionVariant : String
  onContextClear : Agent → Fields → Fields
  onContextCompacted : Fields → Fields
  /-- The reminder, after what has become of `injectedAt` and of the fields. -/
  getInjection : Agent → List ContextMessage → Option ℕ → Fields → Option ℕ × Fields × Option String
  /-- The index is assigned in two ways: it is reset before a reminder, or found again. -/
  assigns : ∀ agent history injectedAt fields,
    let result := getInjection agent history injectedAt fields
    result.1 = injectedAt ∨
      (result.1 = none ∧ ∃ text ∈ result.2.2, text ≠ "") ∨
      (injectedAt = none ∧ result.2.2 = none ∧ ∃ i ∈ result.1, ∃ message ∈ history[i]?,
        message.isInjectionOf injectionVariant = true)

/-- `appendSystemReminder`. -/
def systemReminder (content variant : String) : NewMessage :=
  { NewMessage.ofText .user ("<system-reminder>\n" ++ trim content ++ "\n</system-reminder>") with
    origin := some .injection
    variant := some variant }

namespace DynamicInjector

def onCompacted (injectedAt : Option ℕ) (compactedCount : ℕ) : Option ℕ :=
  injectedAt.bind fun i =>
    let newInjectedAt : ℤ := i - compactedCount + 1
    if 0 ≤ newInjectedAt then some newInjectedAt.toNat else none

def onContextMessageRemoved (injectedAt : Option ℕ) (index : ℕ) : Option ℕ :=
  injectedAt.bind fun i =>
    if index < i then some (i - 1) else if index = i then none else some i

end DynamicInjector

/-! ## The injectors of the manager -/

/-- The assistant messages behind an index. -/
def assistantTurnsSince (history : List ContextMessage) (injectedAt : ℕ) : ℕ :=
  (history.drop (injectedAt + 1)).countP (·.role = .assistant)

namespace PlanTrackerInjector

def REMINDER_TURNS : ℕ := 8

/-- `summaryText` is there while the tracker is active and not complete; the field is
`compactedSinceLastInject`. -/
def getInjection (summaryText : Option String) (history : List ContextMessage)
    (injectedAt : Option ℕ) (compacted : Bool) : Option ℕ × Bool × Option String :=
  match summaryText with
  | none => (injectedAt, compacted, none)
  | some text =>
    if compacted then (injectedAt, false, some text)
    else
      match injectedAt with
      | none => (none, false, some text)
      | some i =>
        if REMINDER_TURNS ≤ assistantTurnsSince history i then (injectedAt, false, some text)
        else (injectedAt, false, none)

end PlanTrackerInjector

def planTrackerInjector : DynamicInjector where
  Fields := Bool
  Agent := Option String
  injectionVariant := "plan_tracker"
  onContextClear _ _ := false
  onContextCompacted _ := true
  getInjection := PlanTrackerInjector.getInjection
  assigns summaryText history injectedAt compacted := by
    left
    unfold PlanTrackerInjector.getInjection
    split
    · rfl
    split
    · rfl
    split
    · rfl
    · split <;> rfl

namespace PermissionModeInjector

def AUTO_MODE_ENTER_REMINDER : String := "\n".intercalate
  ["Auto permission mode is active. Tool approvals will be handled automatically while this " ++
      "mode remains enabled.",
    "  - Continue normally without pausing for approval prompts.",
    "  - Do NOT call AskUserQuestion while auto mode is active. Make a reasonable decision and " ++
      "continue without asking the user."]

def AUTO_MODE_EXIT_REMINDER : String := "\n".intercalate
  ["Auto permission mode is no longer active. Tool approvals and permission checks are back to " ++
      "the current mode.",
    "  - Continue normally, but expect approval prompts or denials when a tool requires them."]

/-- The field is `lastMode`. -/
def getInjection (mode : PermissionMode) (injectedAt : Option ℕ)
    (lastMode : Option PermissionMode) : Option ℕ × Option PermissionMode × Option String :=
  if some mode = lastMode then (injectedAt, lastMode, none)
  else if mode = .auto then (injectedAt, some mode, some AUTO_MODE_ENTER_REMINDER)
  else if lastMode = some .auto then (injectedAt, some mode, some AUTO_MODE_EXIT_REMINDER)
  else (injectedAt, some mode, none)

end PermissionModeInjector

def permissionModeInjector : DynamicInjector where
  Fields := Option PermissionMode
  Agent := PermissionMode
  injectionVariant := "permission_mode"
  onContextClear _ lastMode := lastMode
  onContextCompacted lastMode := lastMode
  getInjection mode _ := PermissionModeInjector.getInjection mode
  assigns mode history injectedAt lastMode := by
    left
    unfold PermissionModeInjector.getInjection
    split
    · rfl
    split
    · rfl
    split <;> rfl

inductive PlanModeVariant
  | full | sparse | reentry

/-- What the plan-mode injector reads, with the texts of its reminders; `none` is the one of the
exit. -/
structure PlanModeView where
  isActive : Bool
  planFilePath : Option String
  hasCurrentPlanContent : Bool
  reminder : Option PlanModeVariant → Option String → String
  nonempty : ∀ variant path, reminder variant path ≠ ""

namespace PlanModeInjector

def DEDUP_MIN_TURNS : ℕ := 2
def FULL_REFRESH_TURNS : ℕ := 5

/-- The loop over the messages behind the last reminder. -/
def scanTurns : List ContextMessage → ℕ → Option PlanModeVariant
  | [], assistantTurnsSince =>
    if FULL_REFRESH_TURNS ≤ assistantTurnsSince then some .full
    else if DEDUP_MIN_TURNS ≤ assistantTurnsSince then some .sparse
    else none
  | message :: messages, assistantTurnsSince =>
    if message.role = .assistant then scanTurns messages (assistantTurnsSince + 1)
    else if message.role = .user then some .full
    else scanTurns messages assistantTurnsSince

def getVariant (history : List ContextMessage) : Option ℕ → Option PlanModeVariant
  | none => some .full
  | some injectedAt => scanTurns (history.drop (injectedAt + 1)) 0

/-- The field is `wasActive`. -/
def getInjection (planMode : PlanModeView) (history : List ContextMessage)
    (injectedAt : Option ℕ) (wasActive : Bool) : Option ℕ × Bool × Option String :=
  if planMode.isActive = false then
    if wasActive = false then (injectedAt, wasActive, none)
    else (none, false, some (planMode.reminder none planMode.planFilePath))
  else if wasActive = false ∧ planMode.hasCurrentPlanContent = true then
    (none, true, some (planMode.reminder (some .reentry) planMode.planFilePath))
  else
    let injectedAt := if wasActive = false then none else injectedAt
    (injectedAt, true, (getVariant history injectedAt).map fun variant =>
      planMode.reminder (some variant) planMode.planFilePath)

end PlanModeInjector

def planModeInjector : DynamicInjector where
  Fields := Bool
  Agent := PlanModeView
  injectionVariant := "plan_mode"
  onContextClear planMode _ := planMode.isActive
  onContextCompacted wasActive := wasActive
  getInjection := PlanModeInjector.getInjection
  assigns planMode history injectedAt wasActive := by
    unfold PlanModeInjector.getInjection
    split
    · split
      · exact .inl rfl
      · exact .inr (.inl ⟨rfl, _, rfl, planMode.nonempty _ _⟩)
    split
    · exact .inr (.inl ⟨rfl, _, rfl, planMode.nonempty _ _⟩)
    · cases wasActive with
      | true => exact .inl rfl
      | false => exact .inr (.inl ⟨rfl, _, rfl, planMode.nonempty _ _⟩)

namespace PluginSessionStartInjector

def VARIANT : String := "plugin_session_start"

/-- `rendered` is `renderPluginSessionStartReminder` of the enabled plugins. -/
def getInjection (rendered : Option String) (history : List ContextMessage)
    (injectedAt : Option ℕ) : Option ℕ × Unit × Option String :=
  match injectedAt with
  | some i => (some i, (), none)
  | none =>
    match history.findIdx? fun message => message.isInjectionOf VARIANT with
    | some replayedAt => (some replayedAt, (), none)
    | none => (none, (), rendered)

end PluginSessionStartInjector

def pluginSessionStartInjector : DynamicInjector where
  Fields := Unit
  Agent := Option String
  injectionVariant := PluginSessionStartInjector.VARIANT
  onContextClear _ _ := ()
  onContextCompacted _ := ()
  getInjection rendered history injectedAt _ :=
    PluginSessionStartInjector.getInjection rendered history injectedAt
  assigns rendered history injectedAt fields := by
    unfold PluginSessionStartInjector.getInjection
    split
    · exact .inl rfl
    · split
      case h_1 i found =>
        obtain ⟨lt, own, -⟩ := List.findIdx?_eq_some_iff_getElem.1 found
        exact .inr (.inr ⟨rfl, rfl, i, rfl, _, List.getElem?_eq_getElem lt, own⟩)
      · exact .inl rfl

/-- A class without fields that renders its reminder from the agent and the history. -/
def renderingInjector (injectionVariant : String) : DynamicInjector where
  Fields := Unit
  Agent := List ContextMessage → Option String
  injectionVariant := injectionVariant
  onContextClear _ _ := ()
  onContextCompacted _ := ()
  getInjection render history injectedAt _ := (injectedAt, (), render history)
  assigns _ _ _ _ := .inl rfl

def goalInjector : DynamicInjector := renderingInjector "goal"

def todoListReminderInjector : DynamicInjector := renderingInjector "todo_list_reminder"

/-! ## The context with one injector -/

/-- The context with an injector, and the numbers of two messages: the one that the last `inject`
appended, and the one that the last `inject` appended or found. -/
structure InjectedContext (injector : DynamicInjector) extends TrackedContext where
  injectedAt : Option ℕ := none
  fields : injector.Fields
  appended : Option ℕ := none
  placed : Option ℕ := none

inductive InjectorOp (injector : DynamicInjector)
  | inject (call : ContextCall) (agent : injector.Agent)
  | context (agent : injector.Agent) (op : ContextOp)

namespace InjectedContext

variable {injector : DynamicInjector}

def inject (context : InjectedContext injector) (call : ContextCall) (agent : injector.Agent) :
    InjectedContext injector :=
  let result :=
    injector.getInjection agent context.memory.history context.injectedAt context.fields
  match result.2.2.filter (· ≠ "") with
  | some injection =>
    { context.toTrackedContext.perform
        (.appendMessage call (systemReminder injection injector.injectionVariant)) with
      injectedAt := some context.memory.history.length
      fields := result.2.1
      appended := some context.created
      placed := some context.created }
  | none =>
    { context with
      injectedAt := result.1
      fields := result.2.1
      placed :=
        if result.1 = context.injectedAt then context.placed
        else result.1.bind fun i => context.ids[i]? }

/-- What the callbacks of an operation make of the index. -/
def callbacks (memory : ContextMemory) (op : ContextOp) (injectedAt : Option ℕ) : Option ℕ :=
  match op with
  | .undo _ count =>
    (memory.removals count).foldl DynamicInjector.onContextMessageRemoved injectedAt
  | .clear _ => none
  | .applyCompaction _ _ compactedCount _ _ =>
    DynamicInjector.onCompacted injectedAt compactedCount
  | _ => injectedAt

def perform (context : InjectedContext injector) : InjectorOp injector → InjectedContext injector
  | .inject call agent => context.inject call agent
  | .context agent op =>
    { context.toTrackedContext.perform op with
      injectedAt := callbacks context.memory op context.injectedAt
      fields :=
        match op with
        | .clear _ => injector.onContextClear agent context.fields
        | .applyCompaction .. => injector.onContextCompacted context.fields
        | _ => context.fields
      appended := context.appended
      placed := context.placed }

def next (context : InjectedContext injector) (op : InjectorOp injector) :
    Option (InjectedContext injector) :=
  some (context.perform op)

end InjectedContext

/-- The counts that `begin` and `compactionRound` take from the strategy for a snapshot. -/
inductive DefaultCompactionStrategy.Chooses (strategy : DefaultCompactionStrategy)
    (snapshot : List ContextMessage) : ℕ → Prop
  | computed (source : CompactionSource) :
    strategy.computeCompactCount snapshot source ≠ 0 →
      Chooses strategy snapshot (strategy.computeCompactCount snapshot source)
  | reduced {count : ℕ} : Chooses strategy snapshot count →
      Chooses strategy snapshot (strategy.reduceCompactOnOverflow (snapshot.take count))

/-- No tool exchange is open at an `inject`, an injection that is appended is a user message, a
compaction takes its count from the default strategy for a snapshot that has only grown since, and
nothing is popped. -/
def InjectedContext.Allowed {injector : DynamicInjector} (context : InjectedContext injector) :
    InjectorOp injector → Prop
  | .inject _ _ => context.memory.hasOpenToolExchange = false
  | .context _ (.appendMessage _ message) => message.origin = some .injection → message.role = .user
  | .context _ (.applyCompaction _ _ compactedCount _ _) =>
    ∃ (strategy : DefaultCompactionStrategy) (snapshot : List ContextMessage),
      GrowsTo snapshot context.memory.history ∧ strategy.Chooses snapshot compactedCount
  | .context _ (.popMatchedMessage _) => False
  | .context _ _ => True

end KimiCli
