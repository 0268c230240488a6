import KimiCli.Kosong.Message
import KimiCli.Loop.ToolAccess
import KimiCli.Permission.SessionApproval
import KimiCli.Prompt.RuntimeControls

/-!
# The permission policies

`agent/permission/policies`: the policies that decide on a tool call, and their order.  What the
`PreToolUse` hooks answer and the git marker of the work tree are given with the call; the path
functions are parameters.
-/

namespace KimiCli

/-! ## Rules and agents -/

/-- What a rule decides. -/
inductive PermissionRuleDecision
  | allow | deny | ask
  deriving DecidableEq

/-- Where a rule comes from. -/
inductive PermissionRuleScope
  | turnOverride | sessionRuntime | project | user
  deriving DecidableEq

/-- A rule about the tool calls that its pattern matches. -/
structure PermissionRule where
  decision : PermissionRuleDecision
  scope : PermissionRuleScope
  pattern : List Char
  reason : Option String := none
  deriving DecidableEq

/-- The kind of an agent. -/
inductive AgentType
  | main | sub | independent
  deriving DecidableEq

/-- What the policies read of the plan mode. -/
structure PlanModeState where
  isActive : Bool := false
  planFilePath : Option String := none
  deriving DecidableEq

/-- What the user answers to an approval request. -/
structure ApprovalAnswer extends ApprovalResponse where
  feedback : Option String := none
  selectedLabel : Option String := none
  deriving DecidableEq

/-- What the log keeps of an answer. -/
structure PermissionApprovalResultRecord where
  toolCallId : String
  toolName : String
  action : String
  sessionApprovalRule : Option (List Char) := none
  result : ApprovalAnswer
  deriving DecidableEq

/-- An agent as its policies see it. -/
structure PermissionAgent where
  type : AgentType := .main
  rules : List PermissionRule := []
  modeOverride : Option PermissionMode := none
  permission : PermissionManager := {}
  /-- The `permission.record_approval_result` records of its log. -/
  approvals : List PermissionApprovalResultRecord := []
  planMode : PlanModeState := {}
  swarmMode : Bool := false
  cwd : String := ""
  additionalDirs : List String := []
  pathClass : PathClass := .posix
  deriving DecidableEq

/-! The managers of an agent and its parents are a list, the agent first. -/

/-- The mode of the nearest agent that has one of its own. -/
def PermissionAgent.mode (agents : List PermissionAgent) : PermissionMode :=
  (agents.findSome? (·.modeOverride)).getD .manual

/-- The rules of the agent, then those of its parents. -/
def PermissionAgent.effectiveRules (agents : List PermissionAgent) : List PermissionRule :=
  agents.flatMap (·.rules)

/-- The approvals for the session of the agent and its parents. -/
def PermissionAgent.sessionApprovalRulePatterns (agents : List PermissionAgent) :
    List (List Char) :=
  agents.flatMap (·.permission.localSessionApprovalRulePatterns)

/-! ## Tool calls -/

/-- A way to go on that a plan offers. -/
structure ExitPlanModeOption where
  label : String
  description : String
  deriving DecidableEq

/-- How a call is shown to the user; the kinds that no policy reads are one. -/
inductive ToolInputDisplay
  | planReview (plan : String) (path : Option String) (options : Option (List ExitPlanModeOption))
  | goalStart
  | other (kind : String)
  deriving DecidableEq

/-- What the policies read of a `RunnableToolExecution`. -/
structure ToolCallExecution where
  accesses : Option ToolAccesses := none
  display : Option ToolInputDisplay := none
  description : Option String := none
  approvalRule : List Char
  matchesRule : Option (List Char → Bool) := none

/-- The `.git` of a work tree and the directory that it stands for. -/
structure GitWorkTreeMarker where
  dotGitPath : String
  controlDirPath : String

/-- A tool call of a batch, with what the hooks and the file system say about it. -/
structure PermissionPolicyContext where
  toolCall : ToolCall
  toolCalls : List ToolCall
  inBatch : toolCall ∈ toolCalls
  execution : ToolCallExecution
  /-- The reason of a `PreToolUse` hook that blocks the call. -/
  hookResult : Option String := none
  aborted : Bool := false
  gitWorkTreeMarker : Option GitWorkTreeMarker := none

/-! ## Results -/

/-- A value of a reason. -/
inductive PermissionReasonValue
  | string (value : String)
  | number (value : ℕ)
  | boolean (value : Bool)

/-- The properties that a decision is tracked with. -/
abbrev PermissionDecisionReason := List (String × PermissionReasonValue)

/-- The `resolveApproval` of a policy. -/
inductive ResolveApproval
  | exitPlanMode (plan : String) (path : Option String) (options : Option (List ExitPlanModeOption))
  | goalStart
  deriving DecidableEq

/-- What a policy decides about a call. -/
inductive PermissionPolicyResult
  | approve (reason : PermissionDecisionReason)
  | deny (reason : PermissionDecisionReason) (message : String)
  | ask (reason : PermissionDecisionReason) (resolveApproval : Option ResolveApproval)

/-- The functions on paths and strings that the policies use. -/
structure PathFunctions where
  basename : String → String
  normalize : String → String
  /-- `path.relative(from, to)` of the class. -/
  relative : PathClass → String → String → String
  toLowerCase : String → String

/-- A policy, which may leave the decision to those after it. -/
structure PermissionPolicy where
  name : String
  /-- The agent comes with its parents behind it; an error is the signal's abort. -/
  evaluate : List PermissionAgent → PermissionAgent → PermissionPolicyContext →
    Except Unit (Option PermissionPolicyResult)

/-- A policy that waits for nothing that the signal can abort. -/
def PermissionPolicy.of (name : String)
    (evaluate : List PermissionAgent → PermissionAgent → PermissionPolicyContext →
      Option PermissionPolicyResult) : PermissionPolicy :=
  { name, evaluate := fun agents agent context => .ok (evaluate agents agent context) }

/-! ## Denials -/

/-- Denies what a hook blocks. -/
def PreToolCallHookPermissionPolicy : PermissionPolicy where
  name := "pre-tool-call-hook"
  evaluate _ _ context :=
    if context.aborted then .error ()
    else .ok (context.hookResult.map fun reason => .deny [] reason)

/-- The message where there are several swarms. -/
def multipleAgentSwarmDeniedMessage (hasOtherToolCalls : Bool) : String :=
  "AgentSwarm must be called one swarm at a time. Multiple AgentSwarm calls are not forbidden, " ++
    "but issue them sequentially: call one AgentSwarm, wait for its result, then call the next; " ++
    "or merge the work into a single AgentSwarm when one swarm can cover it." ++
    (if hasOtherToolCalls then
      " AgentSwarm also must not be combined with other tools in the same response."
    else "")

/-- The message where a swarm comes with other calls. -/
def mixedAgentSwarmDeniedMessage : String :=
  "AgentSwarm must be the only tool call in a model response. Retry with a single AgentSwarm " ++
    "call by itself, then call any other tools after it returns."

/-- Denies every call of a batch in which a swarm is not alone. -/
def AgentSwarmExclusiveDenyPermissionPolicy : PermissionPolicy :=
  .of "agent-swarm-exclusive-deny" fun _ _ context =>
    let agentSwarmCount := context.toolCalls.countP (·.name = "AgentSwarm")
    if agentSwarmCount = 0 then none
    else if agentSwarmCount = 1 ∧ context.toolCalls.length = 1 then none
    else
      some (.deny
        [("agent_swarm_tool_calls", .number agentSwarmCount),
          ("tool_calls", .number context.toolCalls.length)]
        (if agentSwarmCount > 1 then
          multipleAgentSwarmDeniedMessage (context.toolCalls.length > agentSwarmCount)
        else mixedAgentSwarmDeniedMessage))

/-- Denies questions to the user in auto mode. -/
def AutoModeAskUserQuestionDenyPermissionPolicy : PermissionPolicy :=
  .of "auto-mode-ask-user-question-deny" fun agents _ context =>
    if PermissionAgent.mode agents ≠ .auto then none
    else if context.toolCall.name ≠ "AskUserQuestion" then none
    else
      some (.deny [] ("AskUserQuestion is disabled while auto permission mode is active. " ++
        "Make a reasonable decision and continue without asking the user."))

/-- The files that the call uses. -/
def fileAccesses (context : PermissionPolicyContext) : List ToolFileAccess :=
  (context.execution.accesses.getD []).filterMap fun
    | .file access => some access
    | .all => none

/-- The files that the call writes. -/
def writeFileAccesses (context : PermissionPolicyContext) : List ToolFileAccess :=
  (fileAccesses context).filter fun access =>
    access.operation = .write || access.operation = .readwrite

/-- The message where plan mode forbids a write. -/
def planModeWriteDeniedMessage (planFilePath : Option String) : String :=
  "Plan mode is active. You may only write to the current plan file: " ++
    planFilePath.getD "(no plan file selected yet)" ++
    ". Call ExitPlanMode to exit plan mode before editing other files."

/-- Denies writes in plan mode, but for the plan's own file, and changes of tasks and schedules. -/
def PlanModeGuardDenyPermissionPolicy : PermissionPolicy :=
  .of "plan-mode-guard-deny" fun _ agent context =>
    let toolName := context.toolCall.name
    if !agent.planMode.isActive then none
    else if toolName = "Write" ∨ toolName = "Edit" then
      let denied := some (.deny [] (planModeWriteDeniedMessage agent.planMode.planFilePath))
      match agent.planMode.planFilePath with
      | none => denied
      | some planFilePath =>
        let writeAccesses := writeFileAccesses context
        -- `writesOnlyPlanFile` of this policy, which wants a write
        if writeAccesses ≠ [] ∧ writeAccesses.all (·.path = planFilePath) then none else denied
    else if toolName = "TaskStop" then
      some (.deny [] ("TaskStop is not available in plan mode. " ++
        "Call ExitPlanMode to exit plan mode before stopping a background task."))
    else if toolName = "CronCreate" ∨ toolName = "CronDelete" then
      some (.deny [] (toolName ++ " is not available in plan mode because it would mutate " ++
        "scheduled work that runs after plan exit. Call ExitPlanMode first."))
    else none

/-! ## Rules and the history of the session -/

section

variable (isMatch : Picomatch)

/-- The strategy as it is tracked. -/
def matchStrategy : PermissionRuleMatchStrategy → PermissionReasonValue
  | .tool_name_only => .string "tool_name_only"
  | .matches_rule => .string "matches_rule"

/-- The first rule of the user with this decision that matches the call. -/
def firstMatchingRule (agents : List PermissionAgent) (context : PermissionPolicyContext)
    (decision : PermissionRuleDecision) : Option (PermissionRule × PermissionRuleMatch) :=
  ((PermissionAgent.effectiveRules agents).filter fun rule =>
    rule.scope ≠ .sessionRuntime ∧ rule.decision = decision).findSome? fun rule =>
      (matchPermissionRule isMatch rule.pattern context.toolCall.name.toList
        context.execution.matchesRule).map fun found => (rule, found)

/-- The reason of a decision by a rule of the user. -/
def userRuleReason (decision : String) (found : PermissionRuleMatch) : PermissionDecisionReason :=
  [("rule_decision", .string decision), ("has_rule_args", .boolean found.hasRuleArgs),
    ("match_strategy", matchStrategy found.strategy)]

/-- The message where a rule denies, which tells a subagent to try something else. -/
def formatPermissionRuleDenyMessage (tool : String) (reason : Option String)
    (agentType : AgentType) : String :=
  let suffix := match reason with
    | none | some "" => ""
    | some reason => s!" Reason: {reason}"
  if agentType = .sub then
    s!"Tool \"{tool}\" was denied.{suffix} Try a different approach — " ++
      "don't retry the same call, don't attempt to bypass the restriction."
  else s!"Tool \"{tool}\" was denied by permission rule.{suffix}"

/-- Denies what a rule of the user denies. -/
def UserConfiguredDenyPermissionPolicy : PermissionPolicy :=
  .of "user-configured-deny" fun agents agent context =>
    (firstMatchingRule isMatch agents context .deny).map fun (rule, found) =>
      .deny (userRuleReason "deny" found)
        (formatPermissionRuleDenyMessage context.toolCall.name rule.reason agent.type)

/-- Approves everything in auto mode. -/
def AutoModeApprovePermissionPolicy : PermissionPolicy :=
  .of "auto-mode-approve" fun agents _ _ =>
    if PermissionAgent.mode agents ≠ .auto then none else some (.approve [])

/-- Approves what the user has approved for the session. -/
def SessionApprovalHistoryPermissionPolicy : PermissionPolicy :=
  .of "session-approval-history" fun agents _ context =>
    (evaluate isMatch (PermissionAgent.sessionApprovalRulePatterns agents)
      context.toolCall.name.toList context.execution.matchesRule).map fun reason =>
        .approve [("has_rule_args", .boolean reason.has_rule_args),
          ("match_strategy", matchStrategy reason.match_strategy)]

/-- Asks where a rule of the user asks. -/
def UserConfiguredAskPermissionPolicy : PermissionPolicy :=
  .of "user-configured-ask" fun agents _ context =>
    (firstMatchingRule isMatch agents context .ask).map fun (_, found) =>
      .ask (userRuleReason "ask" found) none

/-- Approves what a rule of the user allows. -/
def UserConfiguredAllowPermissionPolicy : PermissionPolicy :=
  .of "user-configured-allow" fun agents _ context =>
    (firstMatchingRule isMatch agents context .allow).map fun (_, found) =>
      .approve (userRuleReason "allow" found)

end

/-! ## Reviews -/

/-- Asks for the review of a plan that is not blank, outside auto mode. -/
def ExitPlanModeReviewAskPermissionPolicy : PermissionPolicy :=
  .of "exit-plan-mode-review-ask" fun agents agent context =>
    if context.toolCall.name ≠ "ExitPlanMode" then none
    else if PermissionAgent.mode agents = .auto then none
    else if !agent.planMode.isActive then none
    else
      match context.execution.display with
      | some (.planReview plan path options) =>
        if (trim plan).length = 0 then none
        else some (.ask [("has_options", .boolean options.isSome)]
          (some (.exitPlanMode plan path options)))
      | _ => none

/-- Asks before a goal is started, outside auto mode. -/
def GoalStartReviewAskPermissionPolicy : PermissionPolicy :=
  .of "goal-start-review-ask" fun agents _ context =>
    if context.toolCall.name ≠ "CreateGoal" then none
    else if PermissionAgent.mode agents = .auto then none
    else if context.execution.display ≠ some .goalStart then none
    else some (.ask [] (some .goalStart))

/-- Approves the tools of plan mode itself and writes of the plan's file. -/
def PlanModeToolApprovePermissionPolicy : PermissionPolicy :=
  .of "plan-mode-tool-approve" fun _ agent context =>
    let toolName := context.toolCall.name
    -- `writesOnlyPlanFile` of this policy, which a call without writes passes
    let writesOnlyPlanFile : Bool := match agent.planMode.planFilePath with
      | none => false
      | some planFilePath => (writeFileAccesses context).all (·.path = planFilePath)
    if toolName = "EnterPlanMode" then some (.approve [])
    else if (toolName = "Write" ∨ toolName = "Edit") ∧ agent.planMode.isActive ∧
        writesOnlyPlanFile then
      some (.approve [])
    else if toolName = "ExitPlanMode" then
      if !agent.planMode.isActive then some (.approve [])
      else
        match context.execution.display with
        | some (.planReview plan _ _) =>
          if (trim plan).length > 0 then none else some (.approve [])
        | _ => some (.approve [])
    else none

/-! ## File accesses -/

section

variable (paths : PathFunctions)

/-- Names and suffixes of files with secrets, and those that are exempt. -/
def SENSITIVE_BASENAMES : List String :=
  [".env", "id_rsa", "id_ed25519", "id_ecdsa", "credentials"]

def SENSITIVE_PATH_SUFFIXES : List String := [".aws/credentials", ".gcp/credentials"]

def ENV_EXEMPTIONS : List String := [".env.example", ".env.sample", ".env.template"]

def SENSITIVE_BASENAME_PREFIXES : List String := ["id_rsa", "id_ed25519", "id_ecdsa", "credentials"]

def PUBLIC_KEY_BASENAMES : List String := ["id_rsa.pub", "id_ed25519.pub", "id_ecdsa.pub"]

def SENSITIVE_DOT_VARIANT_SUFFIXES : List String :=
  [".bak", ".backup", ".copy", ".disabled", ".key", ".old", ".orig", ".pem", ".save", ".tmp"]

/-- The name starts with `start`, and what follows marks a variant of the file. -/
def isSensitiveVariant (comparableName start : String) : Bool :=
  comparableName = start ||
    (startsWith comparableName.toList start.toList &&
      match comparableName.toList.drop start.length with
      | [] => false
      | next :: rest => next = '-' || next = '_' ||
          (next = '.' && String.ofList (next :: rest) ∈ SENSITIVE_DOT_VARIANT_SUFFIXES))

/-- Whether a file is likely to hold a secret, from its name. -/
def isSensitiveFile (path : String) : Bool :=
  let comparableName := paths.toLowerCase (paths.basename path)
  let comparablePath := paths.toLowerCase path
  if comparableName ∈ ENV_EXEMPTIONS then false
  else if comparableName ∈ PUBLIC_KEY_BASENAMES then false
  else if comparableName ∈ SENSITIVE_BASENAMES then true
  else if startsWith comparableName.toList ".env.".toList then true
  else if SENSITIVE_BASENAME_PREFIXES.any (isSensitiveVariant comparableName) then true
  else
    SENSITIVE_PATH_SUFFIXES.any fun suffix =>
      let comparableSuffix := (paths.toLowerCase suffix).toList
      ('/' :: comparableSuffix).isSuffixOf comparablePath.toList ||
        comparablePath.toList.tails.any (startsWith · ('/' :: (comparableSuffix ++ ['/'])))

/-- `base` itself or a path below it, without regard to case on Windows. -/
def isWithinDirectory (candidate base : String) (pathClass : PathClass) : Bool :=
  let comparable (path : String) := match pathClass with
    | .win32 => (paths.toLowerCase (paths.normalize path)).toList
    | .posix => (paths.normalize path).toList
  comparable candidate = comparable base ||
    startsWith (comparable candidate)
      (if (comparable base).getLast? = some '/' then comparable base else comparable base ++ ['/'])

/-- Below the working directory or one of the additional ones. -/
def isWithinWorkspace (candidate workspaceDir : String) (additionalDirs : List String)
    (pathClass : PathClass) : Bool :=
  (workspaceDir :: additionalDirs).any fun dir => isWithinDirectory paths candidate dir pathClass

/-- The operation as it is tracked. -/
def operationName : ToolFileAccessOperation → String
  | .read => "read"
  | .write => "write"
  | .readwrite => "readwrite"
  | .search => "search"

/-- The reason of a decision about a file. -/
def fileAccessReason (access : ToolFileAccess) (extra : String) : PermissionDecisionReason :=
  [("file_access_operation", .string (operationName access.operation)),
    ("recursive", .boolean (access.recursive = some true)), (extra, .boolean true)]

/-- Asks before a file that may hold a secret is used. -/
def SensitiveFileAccessAskPermissionPolicy : PermissionPolicy :=
  .of "sensitive-file-access-ask" fun _ _ context =>
    ((fileAccesses context).find? (isSensitiveFile paths ·.path)).map fun access =>
      .ask (fileAccessReason access "sensitive_path") none

/-- Some part of the relative path, split at slashes of both kinds, is `.git`. -/
def hasGitPathComponent (targetPath cwd : String) (pathClass : PathClass) : Bool :=
  ((paths.relative pathClass cwd targetPath).toList.splitOnP fun c => c = '/' ∨ c = '\\').any
    fun part => paths.toLowerCase (String.ofList part) = ".git"

/-- Below the `.git` of the work tree or what it stands for. -/
def isGitControlPath (targetPath : String) (marker : GitWorkTreeMarker) (pathClass : PathClass) :
    Bool :=
  isWithinDirectory paths targetPath marker.dotGitPath pathClass ||
    isWithinDirectory paths targetPath marker.controlDirPath pathClass

/-- Asks before the files of git itself are used. -/
def GitControlPathAccessAskPermissionPolicy : PermissionPolicy :=
  .of "git-control-path-access-ask" fun _ agent context =>
    let asks (access : ToolFileAccess) : PermissionPolicyResult :=
      .ask (fileAccessReason access "git_control_path") none
    let accesses := fileAccesses context
    if agent.cwd = "" then none
    else if accesses = [] then none
    else
      match accesses.find? (hasGitPathComponent paths ·.path agent.cwd agent.pathClass) with
      | some access => some (asks access)
      | none =>
        context.gitWorkTreeMarker.bind fun marker =>
          (accesses.find? (isGitControlPath paths ·.path marker agent.pathClass)).map asks

/-- Approves everything that is left in yolo mode. -/
def YoloModeApprovePermissionPolicy : PermissionPolicy :=
  .of "yolo-mode-approve" fun agents _ _ =>
    if PermissionAgent.mode agents ≠ .yolo then none else some (.approve [])

/-- Approves swarms in swarm mode. -/
def SwarmModeAgentSwarmApprovePermissionPolicy : PermissionPolicy :=
  .of "swarm-mode-agent-swarm-approve" fun _ agent context =>
    if context.toolCall.name ≠ "AgentSwarm" then none
    else if !agent.swarmMode then none
    else some (.approve [])

/-- The tools that never ask. -/
def DEFAULT_APPROVE_TOOLS : List String :=
  ["Read", "Grep", "Glob", "ReadMediaFile", "SetTodoList", "TodoList", "TaskList", "TaskOutput",
    "CronList", "WebSearch", "FetchURL", "Agent", "AskUserQuestion", "Skill", "GetGoal",
    "SetGoalBudget", "UpdateGoal"]

/-- Approves the tools that never ask. -/
def DefaultToolApprovePermissionPolicy : PermissionPolicy :=
  .of "default-tool-approve" fun _ _ context =>
    if context.toolCall.name ∉ DEFAULT_APPROVE_TOOLS then none else some (.approve [])

/-- Approves writes inside the workspace where it is a git work tree. -/
def GitCwdWriteApprovePermissionPolicy : PermissionPolicy :=
  .of "git-cwd-write-approve" fun _ agent context =>
    let writeAccesses := writeFileAccesses context
    if context.toolCall.name ≠ "Write" ∧ context.toolCall.name ≠ "Edit" then none
    else if agent.pathClass ≠ .posix then none
    else if agent.cwd = "" then none
    else if writeAccesses = [] then none
    else if !writeAccesses.all
        (isWithinWorkspace paths ·.path agent.cwd agent.additionalDirs .posix) then
      none
    else context.gitWorkTreeMarker.map fun _ => .approve []

/-- Asks about everything else. -/
def FallbackAskPermissionPolicy : PermissionPolicy :=
  .of "fallback-ask" fun _ _ _ => some (.ask [] none)

/-! ## The chain -/

/-- In this order; the first policy with a result decides. -/
def createPermissionDecisionPolicies (isMatch : Picomatch) : List PermissionPolicy :=
  [PreToolCallHookPermissionPolicy,
    AgentSwarmExclusiveDenyPermissionPolicy,
    AutoModeAskUserQuestionDenyPermissionPolicy,
    PlanModeGuardDenyPermissionPolicy,
    UserConfiguredDenyPermissionPolicy isMatch,
    AutoModeApprovePermissionPolicy,
    SessionApprovalHistoryPermissionPolicy isMatch,
    UserConfiguredAskPermissionPolicy isMatch,
    UserConfiguredAllowPermissionPolicy isMatch,
    ExitPlanModeReviewAskPermissionPolicy,
    GoalStartReviewAskPermissionPolicy,
    PlanModeToolApprovePermissionPolicy,
    SensitiveFileAccessAskPermissionPolicy paths,
    GitControlPathAccessAskPermissionPolicy paths,
    YoloModeApprovePermissionPolicy,
    SwarmModeAgentSwarmApprovePermissionPolicy,
    DefaultToolApprovePermissionPolicy,
    GitCwdWriteApprovePermissionPolicy paths,
    FallbackAskPermissionPolicy]

end

/-- The result of the chain, with the policy that gave it. -/
structure PolicyEvaluation where
  policyName : String
  result : PermissionPolicyResult

/-- The first policy with a result; an abort ends the evaluation. -/
def evaluatePolicies (policies : List PermissionPolicy) (agents : List PermissionAgent)
    (agent : PermissionAgent) (context : PermissionPolicyContext) :
    Except Unit (Option PolicyEvaluation) :=
  match policies with
  | [] => .ok none
  | policy :: policies =>
    match policy.evaluate agents agent context with
    | .error error => .error error
    | .ok (some result) => .ok (some { policyName := policy.name, result })
    | .ok none => evaluatePolicies policies agents agent context

end KimiCli
