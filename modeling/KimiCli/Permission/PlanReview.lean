import KimiCli.Permission.Policies

/-!
# The review of a plan

`PermissionManager.beforeToolCall` (`agent/permission/index.ts`) for an agent and its parents, with
the answers of the user, and when an `ExitPlanMode` call with a plan is put before the user.
-/

namespace KimiCli

/-! ## Answers -/

/-- What comes of a tool call before it runs. -/
inductive ToolCallPreparation
  | run
  | block (reason : String)
  | syntheticResult (isError stopTurn : Bool) (output : String)
  | failed

/-- What `rpc.requestApproval` gives, if there is one. -/
inductive ApprovalReply
  | answered (answer : ApprovalAnswer)
  | fails
  | unavailable

namespace PermissionAgent

def recordApprovalResult (agent : PermissionAgent) (record : PermissionApprovalResultRecord) :
    PermissionAgent :=
  { agent with
    approvals := agent.approvals ++ [record]
    permission := agent.permission.recordApprovalResult record.sessionApprovalRule
      record.result.toApprovalResponse }

/-- `planMode.exit`. -/
def exitPlanMode (agent : PermissionAgent) : PermissionAgent := { agent with planMode := {} }

def rejectedExitPlanModeApprovalResult (agent : PermissionAgent) (result : ApprovalAnswer) :
    PermissionAgent × ToolCallPreparation :=
  let feedback := result.feedback.getD ""
  if result.decision = .cancelled then
    (agent, .syntheticResult false false "Plan approval dismissed. Plan mode remains active.")
  else if result.selectedLabel = some "Reject and Exit" then
    (agent.exitPlanMode,
      .syntheticResult true true "Plan rejected by user. Plan mode deactivated.")
  else if result.selectedLabel = some "Revise" ∨ feedback ≠ "" then
    (agent, .syntheticResult false false
      (if feedback ≠ "" then s!"User rejected the plan. Feedback:\n\n{feedback}"
        else "User requested revisions. Plan mode remains active."))
  else
    (agent, .syntheticResult true true "Plan rejected by user. Plan mode remains active.")

def selectedExitPlanModeOption (options : Option (List ExitPlanModeOption))
    (label : Option String) : Option ExitPlanModeOption :=
  label.bind fun label => options.bind fun options => options.find? (·.label = label)

def exitPlanModeApprovalResult (agent : PermissionAgent) (result : ApprovalAnswer) (plan : String)
    (path : Option String) (options : Option (List ExitPlanModeOption)) :
    PermissionAgent × ToolCallPreparation :=
  if result.decision ≠ .approved then agent.rejectedExitPlanModeApprovalResult result
  else
    let optionPrefix :=
      match selectedExitPlanModeOption options result.selectedLabel with
      | none => ""
      | some selected => s!"Selected approach: {selected.label}\n" ++
          "Execute ONLY the selected approach. Do not execute any unselected alternatives.\n\n"
    let savedTo := (path.map fun path => s!"Plan saved to: {path}\n\n").getD ""
    (agent.exitPlanMode, .syntheticResult false false
      (s!"Exited plan mode. {optionPrefix}" ++
        s!"Plan mode deactivated. All tools are now available.\n{savedTo}## Approved Plan:\n" ++
        plan))

def toPermissionMode : Option String → Option PermissionMode
  | some "auto" => some .auto
  | some "yolo" => some .yolo
  | some "manual" => some .manual
  | _ => none

/-- The mode that the selected option names is set. -/
def resolveGoalStart (agent : PermissionAgent) (mode : PermissionMode) (result : ApprovalAnswer) :
    PermissionAgent :=
  if result.decision ≠ .approved then agent
  else
    match toPermissionMode result.selectedLabel with
    | some selected =>
      if selected ≠ mode then { agent with modeOverride := some selected } else agent
    | none => agent

def formatApprovalRejectionMessage (type : AgentType) (toolName : String)
    (result : ApprovalAnswer) : String :=
  let suffix := match result.feedback with
    | none | some "" => ""
    | some feedback => s!" Reason: {feedback}"
  let start := if result.decision = .cancelled then
      s!"Tool \"{toolName}\" was not run because the approval request was cancelled."
    else s!"Tool \"{toolName}\" was not run because the user rejected the approval request."
  if type = .sub then
    s!"{start}{suffix} Try a different approach — don't retry the same call, " ++
      "don't attempt to bypass the restriction."
  else s!"{start}{suffix}"

/-- `requestToolApproval` behind the answer. -/
def answer (agent : PermissionAgent) (mode : PermissionMode) (context : PermissionPolicyContext)
    (resolveApproval : Option ResolveApproval) (response : ApprovalAnswer) :
    PermissionAgent × ToolCallPreparation :=
  let name := context.toolCall.name
  let sessionApprovalRule :=
    if response.decision = .approved ∧ response.session then some context.execution.approvalRule
    else none
  let recorded := agent.recordApprovalResult
    { toolCallId := context.toolCall.id
      toolName := name
      action := context.execution.description.getD s!"Call {name}"
      sessionApprovalRule
      result := response }
  match resolveApproval with
  | some (.exitPlanMode plan path options) =>
    recorded.exitPlanModeApprovalResult response plan path options
  | resolve =>
    (if resolve = some .goalStart then recorded.resolveGoalStart mode response else recorded,
      if response.decision = .approved then .run
      else .block (formatApprovalRejectionMessage agent.type name response))

def requestToolApproval (agent : PermissionAgent) (mode : PermissionMode)
    (context : PermissionPolicyContext) (resolveApproval : Option ResolveApproval) :
    ApprovalReply → PermissionAgent × ToolCallPreparation
  | .answered response => agent.answer mode context resolveApproval response
  | .fails => (agent, .failed)
  | .unavailable =>
    agent.answer mode context resolveApproval { decision := .approved, session := false }

end PermissionAgent

/-! ## Runs -/

section

variable (isMatch : Picomatch) (paths : PathFunctions)

/-- An agent, with its parents behind it, is asked for a tool call. -/
def evaluateToolCall (agents : List PermissionAgent) (agent : PermissionAgent)
    (context : PermissionPolicyContext) : Except Unit (Option PolicyEvaluation) :=
  evaluatePolicies (createPermissionDecisionPolicies paths isMatch) agents agent context

def beforeToolCall (agents : List PermissionAgent) (agent : PermissionAgent)
    (context : PermissionPolicyContext) (reply : ApprovalReply) :
    PermissionAgent × ToolCallPreparation :=
  match evaluateToolCall isMatch paths agents agent context with
  | .error () => (agent, .failed)
  | .ok none => (agent, .run)
  | .ok (some { result := .approve _, .. }) => (agent, .run)
  | .ok (some { result := .deny _ message, .. }) => (agent, .block message)
  | .ok (some { result := .ask _ resolveApproval, .. }) =>
    agent.requestToolApproval (PermissionAgent.mode agents) context resolveApproval reply

/-- What happens in an agent, given by its place; its parents are the agents behind it. -/
inductive PermissionStep
  | toolCall (context : PermissionPolicyContext) (reply : ApprovalReply)
  /-- A record of the log is restored. -/
  | recordApprovalResult (record : PermissionApprovalResultRecord)
  | setMode (mode : PermissionMode)
  | setPlanMode (planMode : PlanModeState)
  | setSwarmMode (swarmMode : Bool)

def stepAgent (agents : List PermissionAgent) (agent : PermissionAgent) :
    PermissionStep → PermissionAgent
  | .toolCall context reply => (beforeToolCall isMatch paths agents agent context reply).1
  | .recordApprovalResult record => agent.recordApprovalResult record
  | .setMode mode => { agent with modeOverride := some mode }
  | .setPlanMode planMode => { agent with planMode }
  | .setSwarmMode swarmMode => { agent with swarmMode }

def stepAgents (agents : List PermissionAgent) : ℕ × PermissionStep → Option (List PermissionAgent)
  | (i, label) => agents[i]?.map fun agent =>
      agents.set i (stepAgent isMatch paths (agents.drop i) agent label)

end

/-! ## The memory of a session -/

theorem PermissionManager.mem_recordApprovalResult {manager : PermissionManager}
    {rule : Option (List Char)} {result : ApprovalResponse} {pattern : List Char} :
    pattern ∈ (manager.recordApprovalResult rule result).localSessionApprovalRulePatterns ↔
      pattern ∈ manager.localSessionApprovalRulePatterns ∨
        result.decision = .approved ∧ result.session = true ∧ rule = some pattern := by
  unfold PermissionManager.recordApprovalResult
  split
  case isTrue other =>
    refine (or_iff_left fun ⟨approved, session, _⟩ => ?_).symm
    rcases other with no | no
    · exact no approved
    · rw [session] at no
      cases no
  case isFalse granted =>
    obtain ⟨approved, session⟩ := not_or.1 granted
    have approved := not_not.1 approved
    have session : result.session = true := by simpa using session
    cases rule with
    | none => exact (or_iff_left fun ⟨_, _, no⟩ => nomatch no).symm
    | some =>
      dsimp only
      split
      case isTrue mem =>
        refine ⟨.inl, fun either => either.elim id fun ⟨_, _, eq⟩ => ?_⟩
        exact Option.some.inj eq ▸ mem
      case isFalse => simp [approved, session, eq_comm]

namespace PermissionAgent

/-- The record approves this pattern for the session. -/
def Grants (record : PermissionApprovalResultRecord) (pattern : List Char) : Prop :=
  record.result.decision = .approved ∧ record.result.session = true ∧
    record.sessionApprovalRule = some pattern

/-- The agent remembers what its log approves for the session. -/
def Remembers (agent : PermissionAgent) : Prop :=
  ∀ pattern, pattern ∈ agent.permission.localSessionApprovalRulePatterns ↔
    ∃ record ∈ agent.approvals, Grants record pattern

variable {agent : PermissionAgent} {mode : PermissionMode} {context : PermissionPolicyContext}
  {resolveApproval : Option ResolveApproval} {response : ApprovalAnswer}

/-- Nothing has been approved yet. -/
def Fresh (agent : PermissionAgent) : Prop := agent.approvals = [] ∧ agent.permission = {}

theorem Fresh.remembers (fresh : agent.Fresh) : agent.Remembers := by
  intro pattern
  rw [fresh.1, fresh.2]
  exact iff_of_false (fun no => nomatch no) fun ⟨_, no, _⟩ => nomatch no

theorem Remembers.of_same {other : PermissionAgent} (remembers : agent.Remembers)
    (permission : other.permission = agent.permission)
    (approvals : other.approvals = agent.approvals) : other.Remembers := by
  intro pattern
  rw [permission, approvals]
  exact remembers pattern

theorem Remembers.recordApprovalResult (remembers : agent.Remembers)
    (record : PermissionApprovalResultRecord) : (agent.recordApprovalResult record).Remembers := by
  intro pattern
  refine PermissionManager.mem_recordApprovalResult.trans ?_
  rw [remembers pattern]
  simp only [PermissionAgent.recordApprovalResult, List.mem_append, List.mem_singleton,
    or_and_right, exists_or, exists_eq_left]
  rfl

theorem Remembers.exitPlanModeApprovalResult (remembers : agent.Remembers) (plan : String)
    (path : Option String) (options : Option (List ExitPlanModeOption)) :
    (agent.exitPlanModeApprovalResult response plan path options).1.Remembers := by
  unfold PermissionAgent.exitPlanModeApprovalResult
  split
  · unfold rejectedExitPlanModeApprovalResult
    dsimp only
    split
    · exact remembers
    split
    · exact remembers.of_same rfl rfl
    split <;> exact remembers
  · exact remembers.of_same rfl rfl

theorem Remembers.resolveGoalStart (remembers : agent.Remembers) :
    (agent.resolveGoalStart mode response).Remembers := by
  unfold PermissionAgent.resolveGoalStart
  split
  · exact remembers
  split
  · split
    · exact remembers.of_same rfl rfl
    · exact remembers
  · exact remembers

theorem Remembers.answer (remembers : agent.Remembers) :
    (agent.answer mode context resolveApproval response).1.Remembers := by
  have recorded := remembers.recordApprovalResult
  unfold PermissionAgent.answer
  dsimp only
  split
  · exact (recorded _).exitPlanModeApprovalResult _ _ _
  · dsimp only
    split
    · exact (recorded _).resolveGoalStart
    · exact recorded _

theorem Remembers.requestToolApproval (remembers : agent.Remembers) (reply : ApprovalReply) :
    (agent.requestToolApproval mode context resolveApproval reply).1.Remembers := by
  cases reply with
  | answered => exact remembers.answer
  | fails => exact remembers
  | unavailable => exact remembers.answer

end PermissionAgent

section

variable {isMatch : Picomatch} {paths : PathFunctions} {agents : List PermissionAgent}
  {agent : PermissionAgent} {context : PermissionPolicyContext}

theorem remembers_beforeToolCall (remembers : agent.Remembers) (reply : ApprovalReply) :
    (beforeToolCall isMatch paths agents agent context reply).1.Remembers := by
  unfold beforeToolCall
  split
  case h_5 => exact remembers.requestToolApproval reply
  all_goals exact remembers

theorem remembers_stepAgents {label : ℕ × PermissionStep} {agents' : List PermissionAgent}
    (remembers : ∀ agent ∈ agents, agent.Remembers)
    (next : stepAgents isMatch paths agents label = some agents') :
    ∀ agent ∈ agents', agent.Remembers := by
  obtain ⟨i, label⟩ := label
  obtain ⟨agent, found, rfl⟩ := Option.map_eq_some_iff.1 next
  have old := remembers agent (List.mem_of_getElem? found)
  intro other mem
  rcases List.mem_or_eq_of_mem_set mem with before | rfl
  · exact remembers other before
  cases label with
  | toolCall context reply => exact remembers_beforeToolCall old reply
  | recordApprovalResult record => exact old.recordApprovalResult record
  | setMode | setPlanMode | setSwarmMode => exact old.of_same rfl rfl

/-! ## The chain on a plan -/

variable {policy : PermissionPolicy} {policies : List PermissionPolicy}

theorem evaluatePolicies_skip (silent : policy.evaluate agents agent context = .ok none) :
    evaluatePolicies (policy :: policies) agents agent context =
      evaluatePolicies policies agents agent context := by
  rw [evaluatePolicies, silent]

theorem evaluatePolicies_decides {result : PermissionPolicyResult}
    (decides : policy.evaluate agents agent context = .ok (some result)) :
    evaluatePolicies (policy :: policies) agents agent context =
      .ok (some { policyName := policy.name, result }) := by
  rw [evaluatePolicies, decides]

/-- An `ExitPlanMode` call in plan mode that shows a plan, outside of auto mode, which no rule of
the user matches. -/
structure PlanReview (isMatch : Picomatch) (agents : List PermissionAgent)
    (agent : PermissionAgent) (context : PermissionPolicyContext) (plan : String)
    (path : Option String) (options : Option (List ExitPlanModeOption)) : Prop where
  own : agents.head? = some agent
  tool : context.toolCall.name = "ExitPlanMode"
  display : context.execution.display = some (.planReview plan path options)
  plan : (trim plan).length ≠ 0
  active : agent.planMode.isActive = true
  mode : PermissionAgent.mode agents ≠ .auto
  rules : ∀ rule ∈ PermissionAgent.effectiveRules agents, matchPermissionRule isMatch rule.pattern
    "ExitPlanMode".toList context.execution.matchesRule = none

/-- One of the first policies ends the evaluation: by an abort, by a hook, or because a swarm must
run alone. -/
def EndsEarly (context : PermissionPolicyContext) : Prop :=
  context.aborted = true ∨ context.hookResult ≠ none ∨
    ∃ call ∈ context.toolCalls, call.name = "AgentSwarm"

/-- The evaluation does not approve the call: it ends in an abort, in a denial or in a request to
review this plan. -/
inductive NotApproved (plan : String) (path : Option String)
    (options : Option (List ExitPlanModeOption)) : Except Unit (Option PolicyEvaluation) → Prop
  | aborted : NotApproved plan path options (.error ())
  | denied (policyName : String) (reason : PermissionDecisionReason) (message : String) :
    NotApproved plan path options (.ok (some { policyName, result := .deny reason message }))
  | asked (policyName : String) (reason : PermissionDecisionReason) :
    NotApproved plan path options (.ok (some
      { policyName
        result := .ask reason (some (.exitPlanMode plan path options)) }))

section

variable {plan : String} {path : Option String} {options : Option (List ExitPlanModeOption)}

theorem PlanReview.no_rule (review : PlanReview isMatch agents agent context plan path options)
    (decision : PermissionRuleDecision) :
    firstMatchingRule isMatch agents context decision = none := by
  refine List.findSome?_eq_none_iff.2 fun rule mem => ?_
  rw [review.tool, review.rules rule (List.mem_of_mem_filter mem), Option.map_none]

/-! The policies that have nothing to say about such a call. -/

theorem silent_hook (running : context.aborted = false) (unblocked : context.hookResult = none) :
    PreToolCallHookPermissionPolicy.evaluate agents agent context = .ok none := by
  rw [PreToolCallHookPermissionPolicy]
  dsimp only
  rw [if_neg (Bool.eq_false_iff.1 running), unblocked, Option.map_none]

theorem silent_swarm (alone : ∀ call ∈ context.toolCalls, call.name ≠ "AgentSwarm") :
    AgentSwarmExclusiveDenyPermissionPolicy.evaluate agents agent context = .ok none :=
  congrArg Except.ok (if_pos (List.countP_eq_zero.2 fun call mem => by simpa using alone call mem))

section

variable (review : PlanReview isMatch agents agent context plan path options)
include review

theorem PlanReview.silent_userQuestion :
    AutoModeAskUserQuestionDenyPermissionPolicy.evaluate agents agent context = .ok none :=
  congrArg Except.ok (if_pos review.mode)

theorem PlanReview.silent_guard :
    PlanModeGuardDenyPermissionPolicy.evaluate agents agent context = .ok none := by
  have file : ¬ (context.toolCall.name = "Write" ∨ context.toolCall.name = "Edit") := by
    rw [review.tool]
    decide
  have stop : ¬ context.toolCall.name = "TaskStop" := by
    rw [review.tool]
    decide
  have cron : ¬ (context.toolCall.name = "CronCreate" ∨ context.toolCall.name = "CronDelete") := by
    rw [review.tool]
    decide
  have active : ¬ (!agent.planMode.isActive) = true := by simp [review.active]
  exact congrArg Except.ok ((if_neg active).trans
    ((if_neg file).trans ((if_neg stop).trans (if_neg cron))))

theorem PlanReview.silent_auto :
    AutoModeApprovePermissionPolicy.evaluate agents agent context = .ok none :=
  congrArg Except.ok (if_pos review.mode)

theorem PlanReview.silent_deny :
    (UserConfiguredDenyPermissionPolicy isMatch).evaluate agents agent context = .ok none :=
  congrArg Except.ok (congrArg (Option.map _) (review.no_rule .deny))

theorem PlanReview.silent_ask :
    (UserConfiguredAskPermissionPolicy isMatch).evaluate agents agent context = .ok none :=
  congrArg Except.ok (congrArg (Option.map _) (review.no_rule .ask))

theorem PlanReview.silent_allow :
    (UserConfiguredAllowPermissionPolicy isMatch).evaluate agents agent context = .ok none :=
  congrArg Except.ok (congrArg (Option.map _) (review.no_rule .allow))

theorem PlanReview.history :
    (SessionApprovalHistoryPermissionPolicy isMatch).evaluate agents agent context =
      .ok ((evaluate isMatch (PermissionAgent.sessionApprovalRulePatterns agents)
        "ExitPlanMode".toList context.execution.matchesRule).map fun reason =>
          .approve [("has_rule_args", .boolean reason.has_rule_args),
            ("match_strategy", matchStrategy reason.match_strategy)]) := by
  rw [← review.tool]
  rfl

theorem PlanReview.asks :
    ExitPlanModeReviewAskPermissionPolicy.evaluate agents agent context =
      .ok (some (.ask [("has_options", .boolean options.isSome)]
        (some (.exitPlanMode plan path options)))) := by
  rw [ExitPlanModeReviewAskPermissionPolicy, PermissionPolicy.of]
  simp only [review.tool, review.mode, review.active, review.display, review.plan, ne_eq,
    not_true_eq_false, if_false, Bool.not_true, Bool.false_eq_true]

/-! The chain. -/

theorem evaluate_early (early : EndsEarly context) :
    NotApproved plan path options (evaluateToolCall isMatch paths agents agent context) := by
  unfold evaluateToolCall createPermissionDecisionPolicies
  by_cases aborted : context.aborted = true
  · rw [evaluatePolicies, PreToolCallHookPermissionPolicy]
    simp only [aborted, if_true]
    exact .aborted
  have running := Bool.eq_false_iff.2 aborted
  cases hook : context.hookResult with
  | some reason =>
    have blocks : PreToolCallHookPermissionPolicy.evaluate agents agent context =
        .ok (some (.deny [] reason)) := by
      rw [PreToolCallHookPermissionPolicy]
      dsimp only
      rw [if_neg aborted, hook, Option.map_some]
    rw [evaluatePolicies_decides blocks]
    exact .denied _ _ _
  | none =>
    rw [evaluatePolicies_skip (silent_hook running hook)]
    obtain ⟨swarm, mem, name⟩ :=
      (early.resolve_left aborted).resolve_left fun blocks => blocks hook
    have counted : 0 < context.toolCalls.countP (·.name = "AgentSwarm") :=
      List.countP_pos_iff.2 ⟨swarm, mem, by simpa using name⟩
    -- the batch also has the call itself
    have several : context.toolCalls.length ≠ 1 := by
      intro single
      obtain ⟨call, eq⟩ := List.length_eq_one_iff.1 single
      have self := context.inBatch
      rw [eq, List.mem_singleton] at mem self
      rw [mem, ← self, review.tool] at name
      exact absurd name (by decide)
    rw [evaluatePolicies_decides (congrArg Except.ok
      ((if_neg (Nat.ne_of_gt counted)).trans (if_neg fun both => several both.2)))]
    exact .denied _ _ _

theorem evaluate_late (late : ¬ EndsEarly context) :
    evaluateToolCall isMatch paths agents agent context =
      match evaluate isMatch (PermissionAgent.sessionApprovalRulePatterns agents)
        "ExitPlanMode".toList context.execution.matchesRule with
      | some reason => .ok (some {
          policyName := "session-approval-history"
          result := .approve [("has_rule_args", .boolean reason.has_rule_args),
            ("match_strategy", matchStrategy reason.match_strategy)] })
      | none => .ok (some {
          policyName := "exit-plan-mode-review-ask"
          result := .ask [("has_options", .boolean options.isSome)]
            (some (.exitPlanMode plan path options)) }) := by
  obtain ⟨running, unblocked, alone⟩ :
      context.aborted = false ∧ context.hookResult = none ∧
        ∀ call ∈ context.toolCalls, call.name ≠ "AgentSwarm" := by
    refine ⟨Bool.eq_false_iff.2 fun aborted => late (.inl aborted), ?_, fun call mem name =>
      late (.inr (.inr ⟨call, mem, name⟩))⟩
    exact not_not.1 fun blocks => late (.inr (.inl blocks))
  unfold evaluateToolCall createPermissionDecisionPolicies
  rw [evaluatePolicies_skip (silent_hook running unblocked),
    evaluatePolicies_skip (silent_swarm alone),
    evaluatePolicies_skip review.silent_userQuestion, evaluatePolicies_skip review.silent_guard,
    evaluatePolicies_skip review.silent_deny, evaluatePolicies_skip review.silent_auto]
  have history := review.history
  cases remembered : evaluate isMatch (PermissionAgent.sessionApprovalRulePatterns agents)
      "ExitPlanMode".toList context.execution.matchesRule with
  | some reason =>
    rw [remembered, Option.map_some] at history
    exact evaluatePolicies_decides history
  | none =>
    rw [remembered, Option.map_none] at history
    rw [evaluatePolicies_skip history, evaluatePolicies_skip review.silent_ask,
      evaluatePolicies_skip review.silent_allow]
    exact evaluatePolicies_decides review.asks

end

/-- What was approved for the session, by the agent or a parent, matches the call. -/
def Remembered (isMatch : Picomatch) (agents : List PermissionAgent)
    (context : PermissionPolicyContext) : Prop :=
  ∃ agent ∈ agents, ∃ record ∈ agent.approvals, ∃ rule, PermissionAgent.Grants record rule ∧
    (matchPermissionRule isMatch rule "ExitPlanMode".toList
      context.execution.matchesRule).isSome = true

theorem history_iff (remembers : ∀ agent ∈ agents, agent.Remembers) :
    (evaluate isMatch (PermissionAgent.sessionApprovalRulePatterns agents) "ExitPlanMode".toList
      context.execution.matchesRule).isSome = true ↔ Remembered isMatch agents context := by
  rw [evaluate, Option.isSome_map, matchSessionApprovalRule, List.findSome?_isSome_iff]
  constructor
  · rintro ⟨pattern, mem, found⟩
    obtain ⟨agent, mem, known⟩ := List.mem_flatMap.1 mem
    obtain ⟨record, logged, grants⟩ := (remembers agent mem pattern).1 known
    exact ⟨agent, mem, record, logged, pattern, grants, found⟩
  · rintro ⟨agent, mem, record, logged, pattern, grants, found⟩
    exact ⟨pattern, List.mem_flatMap.2
      ⟨agent, mem, (remembers agent mem pattern).2 ⟨record, logged, grants⟩⟩, found⟩

/-- After every history of tool calls, answers and mode changes: a plan is not accepted without a
review exactly when the evaluation ends before the history, or nothing that was approved for the
session matches the call. -/
theorem plan_review_iff {initial : List PermissionAgent} {labels : List (ℕ × PermissionStep)}
    {i : ℕ} (fresh : ∀ agent ∈ initial, agent.Fresh)
    (run : Transition.Run (stepAgents isMatch paths) Transition.Always initial labels agents)
    (review : PlanReview isMatch (agents.drop i) agent context plan path options) :
    NotApproved plan path options
        (evaluateToolCall isMatch paths (agents.drop i) agent context) ↔
      EndsEarly context ∨ ¬ Remembered isMatch (agents.drop i) context := by
  have remembers : ∀ agent ∈ agents, agent.Remembers :=
    run.invariant (fun agents => ∀ agent ∈ agents, agent.Remembers)
      (fun agent mem => (fresh agent mem).remembers)
      fun _ _ _ known _ next => remembers_stepAgents known next
  have known : _ ↔ Remembered isMatch (agents.drop i) context :=
    history_iff fun agent mem => remembers agent (List.mem_of_mem_drop mem)
  by_cases early : EndsEarly context
  · exact iff_of_true (evaluate_early review early) (.inl early)
  rw [evaluate_late review early, or_iff_right early, ← known]
  cases evaluate isMatch (PermissionAgent.sessionApprovalRulePatterns (agents.drop i))
      "ExitPlanMode".toList context.execution.matchesRule with
  | some reason => exact iff_of_false (fun no => nomatch no) fun no => no rfl
  | none => exact iff_of_true (.asked _ _) fun no => nomatch no

end

end

/-! ## Sample runs -/

def samplePaths : PathFunctions where
  basename path := String.ofList (path.toList.reverse.takeWhile (· ≠ '/')).reverse
  normalize path := path
  relative _ _ path := path
  toLowerCase := String.toLower

/-- An agent in plan mode. -/
def planning : PermissionAgent :=
  { planMode := { isActive := true, planFilePath := some "/plans/first.md" } }

/-- `ExitPlanMode` with this plan. -/
def exitCall (plan : String) : PermissionPolicyContext where
  toolCall := { id := "exit", name := "ExitPlanMode", arguments := none }
  toolCalls := [{ id := "exit", name := "ExitPlanMode", arguments := none }]
  inBatch := List.mem_singleton_self _
  execution :=
    { description := some "Presenting plan and exiting plan mode"
      display := some (.planReview plan none none)
      approvalRule := "ExitPlanMode".toList }

theorem exitCall_review {agent : PermissionAgent} {plan : String} (text : (trim plan).length ≠ 0)
    (active : agent.planMode.isActive = true) (mode : agent.modeOverride = none)
    (rules : agent.rules = []) :
    PlanReview samplePicomatch [agent] agent (exitCall plan) plan none none where
  own := rfl
  tool := rfl
  display := rfl
  plan := text
  active := active
  mode := by
    rw [PermissionAgent.mode, List.findSome?_cons, mode]
    decide
  rules rule mem := by
    rw [PermissionAgent.effectiveRules, List.flatMap_singleton, rules] at mem
    cases mem

theorem planning_reviewed : NotApproved "# Plan" none none
    (evaluateToolCall samplePicomatch samplePaths [planning] planning (exitCall "# Plan")) := by
  have initial : ∀ agent ∈ [planning], agent.Fresh := fun agent mem => by
    obtain rfl := List.mem_singleton.1 mem
    exact ⟨rfl, rfl⟩
  refine (plan_review_iff (i := 0) initial .nil
    (exitCall_review (by decide +kernel) rfl rfl rfl)).2 (.inr ?_)
  rintro ⟨agent, mem, record, logged, -⟩
  obtain rfl := List.mem_singleton.1 mem
  cases logged

/-- The user approves a plan for the session, and the agent enters plan mode again. -/
def approvedForSession : List (ℕ × PermissionStep) :=
  [(0, .toolCall (exitCall "# Plan") (.answered { decision := .approved, session := true })),
    (0, .setPlanMode { isActive := true, planFilePath := some "/plans/second.md" })]

/-- The next plan is accepted without a review. -/
theorem unreviewed : ∃ agent,
    Transition.exec (stepAgents samplePicomatch samplePaths) [planning] approvedForSession =
      some [agent] ∧
    PlanReview samplePicomatch [agent] agent (exitCall "# Other plan") "# Other plan" none none ∧
    evaluateToolCall samplePicomatch samplePaths [agent] agent (exitCall "# Other plan") =
      .ok (some
        { policyName := "session-approval-history"
          result := .approve [("has_rule_args", .boolean false),
            ("match_strategy", .string "tool_name_only")] }) := by
  let agent : PermissionAgent :=
    { planMode := { isActive := true, planFilePath := some "/plans/second.md" }
      permission := { localSessionApprovalRulePatterns := ["ExitPlanMode".toList] }
      approvals :=
        [{ toolCallId := "exit"
           toolName := "ExitPlanMode"
           action := "Presenting plan and exiting plan mode"
           sessionApprovalRule := some "ExitPlanMode".toList
           result := { decision := .approved, session := true } }] }
  have review : PlanReview samplePicomatch [agent] agent (exitCall "# Other plan") "# Other plan"
      none none := exitCall_review (by decide +kernel) rfl rfl rfl
  have late : ¬ EndsEarly (exitCall "# Other plan") := by
    rintro (no | no | ⟨call, mem, name⟩)
    · cases no
    · exact no rfl
    · obtain rfl := List.mem_singleton.1 mem
      exact absurd name (by decide)
  have remembered : evaluate samplePicomatch (PermissionAgent.sessionApprovalRulePatterns [agent])
      "ExitPlanMode".toList (exitCall "# Other plan").execution.matchesRule =
        some { has_rule_args := false, match_strategy := .tool_name_only } := by
    decide +kernel
  refine ⟨agent, by decide +kernel, review, ?_⟩
  rw [evaluate_late review late, remembered]
  rfl

end KimiCli
