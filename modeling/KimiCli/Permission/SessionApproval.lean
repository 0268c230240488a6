import KimiCli.Permission.RuleMatch

/-!
# Approve for session

`agent/permission/matches-rule.ts`, the policy in `policies/session-approval-history.ts`, and what
`PermissionManager` keeps of approvals, for the calls of `Bash`, `Read`, `Write` and `Edit`.
-/

namespace KimiCli

/-! ## Rules -/

structure ParsedPattern where
  toolName : List Char
  argPattern : Option (List Char) := none

def parsePattern (pattern : List Char) : Except String ParsedPattern :=
  let trimmed := trimEndChars (trimStartChars pattern)
  if trimmed.length = 0 then .error "permission pattern: empty string"
  else
    -- the text before the first parenthesis, or all of it
    let toolName := trimmed.takeWhile (· ≠ '(')
    if toolName = trimmed then .ok { toolName := trimmed }
    else if trimmed.getLast? ≠ some ')' then
      .error s!"permission pattern: missing closing paren in \"{String.ofList pattern}\""
    else
      let argPattern := (trimmed.drop (toolName.length + 1)).dropLast
      if toolName.length = 0 then
        .error s!"permission pattern: empty tool name in \"{String.ofList pattern}\""
      else if argPattern.length = 0 then .ok { toolName }
      else .ok { toolName, argPattern := some argPattern }

inductive PermissionRuleMatchStrategy
  | tool_name_only | matches_rule
  deriving DecidableEq

structure PermissionRuleMatch where
  pattern : List Char
  strategy : PermissionRuleMatchStrategy
  hasRuleArgs : Bool

/-- `matchPermissionRule` for a rule with this pattern. -/
def matchPermissionRule (isMatch : Picomatch) (pattern toolName : List Char)
    (matchesRule : Option (List Char → Bool)) : Option PermissionRuleMatch :=
  match parsePattern pattern with
  | .error _ => none
  | .ok parsed =>
    if parsed.toolName ≠ ['*'] ∧ !isMatch false toolName parsed.toolName then none
    else
      match parsed.argPattern with
      | none => some { pattern, strategy := .tool_name_only, hasRuleArgs := false }
      | some argPattern =>
        if matchesRule.map (· argPattern) = some true then
          some { pattern, strategy := .matches_rule, hasRuleArgs := true }
        else none

/-! ## The policy -/

/-- The `reason` of an approval. -/
structure SessionApprovalReason where
  has_rule_args : Bool
  match_strategy : PermissionRuleMatchStrategy
  deriving DecidableEq

def matchSessionApprovalRule (isMatch : Picomatch) (sessionApprovalRulePatterns : List (List Char))
    (toolName : List Char) (matchesRule : Option (List Char → Bool)) :
    Option PermissionRuleMatch :=
  sessionApprovalRulePatterns.findSome? fun pattern =>
    matchPermissionRule isMatch pattern toolName matchesRule

/-- `SessionApprovalHistoryPermissionPolicy.evaluate`, which approves or has no opinion. -/
def evaluate (isMatch : Picomatch) (sessionApprovalRulePatterns : List (List Char))
    (toolName : List Char) (matchesRule : Option (List Char → Bool)) :
    Option SessionApprovalReason :=
  (matchSessionApprovalRule isMatch sessionApprovalRulePatterns toolName
    matchesRule).map fun found =>
    { has_rule_args := found.hasRuleArgs, match_strategy := found.strategy }

/-! ## Tool calls -/

inductive SubjectTool
  | Bash | Read | Write | Edit
  deriving DecidableEq

def SubjectTool.name : SubjectTool → List Char
  | .Bash => "Bash".toList
  | .Read => "Read".toList
  | .Write => "Write".toList
  | .Edit => "Edit".toList

/-- The schema takes no empty command; a path is one that `resolvePathAccessPath` has made
canonical. -/
structure SubjectCall (pathe : Pathe) (pathClass : PathClass) where
  tool : SubjectTool
  subject : List Char
  valid : match tool with
    | .Bash => subject ≠ []
    | .Read | .Write | .Edit => Canonical pathe pathClass subject

/-- Where an agent works. -/
structure Workspace where
  workspaceDir : List Char
  homeDir : List Char

namespace SubjectCall

variable {pathe : Pathe} {pathClass : PathClass}

def approvalRule (call : SubjectCall pathe pathClass) : List Char :=
  literalRulePattern call.tool.name call.subject

/-- The options of the file tools. -/
def options (pathClass : PathClass) (workspace : Workspace) : PermissionPathMatchOptions :=
  { cwd := some workspace.workspaceDir
    pathClass := some pathClass
    homeDir := some workspace.homeDir }

def matchesRule (isMatch : Picomatch) (workspace : Workspace) (call : SubjectCall pathe pathClass)
    (ruleArgs : List Char) : Bool :=
  match call.tool with
  | .Bash => matchesGlobRuleSubject isMatch ruleArgs call.subject
  | .Read | .Write | .Edit =>
    matchesPathRuleSubject pathe isMatch ruleArgs call.subject (options pathClass workspace)

end SubjectCall

/-! ## Approvals -/

/-- An execution that was put before the user: one of the four tools, or another tool with its name
or a literal pattern as its rule. -/
inductive ApprovedExecution (pathe : Pathe) (pathClass : PathClass)
  | subjectTool (call : SubjectCall pathe pathClass)
  | other (toolName : List Char) (subject : Option (List Char))

def ApprovedExecution.approvalRule {pathe : Pathe} {pathClass : PathClass} :
    ApprovedExecution pathe pathClass → List Char
  | .subjectTool call => call.approvalRule
  | .other toolName none => toolName
  | .other toolName (some subject) => literalRulePattern toolName subject

inductive ApprovalDecision
  | approved | rejected | cancelled
  deriving DecidableEq

structure ApprovalResponse where
  decision : ApprovalDecision
  /-- `scope === 'session'`. -/
  session : Bool
  deriving DecidableEq

structure PermissionManager where
  localSessionApprovalRulePatterns : List (List Char) := []
  deriving DecidableEq

section
local instance lawful_pattern : LawfulBEq (List Char) := inferInstance

/-- `recordApprovalResult`, which adds to a set. -/
def PermissionManager.recordApprovalResult (manager : PermissionManager)
    (sessionApprovalRule : Option (List Char)) (result : ApprovalResponse) : PermissionManager :=
  if result.decision ≠ .approved ∨ !result.session then manager
  else
    match sessionApprovalRule with
    | none => manager
    | some pattern =>
      if pattern ∈ manager.localSessionApprovalRulePatterns then manager
      else
        { localSessionApprovalRulePatterns :=
            manager.localSessionApprovalRulePatterns ++ [pattern] }

end

/-- An answer of the user to an agent, by its place in the list of an agent and its parents. -/
structure Approval (pathe : Pathe) (pathClass : PathClass) where
  agent : ℕ
  execution : ApprovedExecution pathe pathClass
  response : ApprovalResponse

namespace Approval

variable {pathe : Pathe} {pathClass : PathClass}

/-- `requestToolApproval` behind the answer. -/
def record (managers : List PermissionManager) (approval : Approval pathe pathClass) :
    List PermissionManager :=
  let sessionApprovalRule :=
    if approval.response.decision = .approved ∧ approval.response.session then
      some approval.execution.approvalRule
    else none
  managers.modify approval.agent (·.recordApprovalResult sessionApprovalRule approval.response)

/-- The answer approves for the session, in an agent or one of its `depth` parents. -/
def Grants (depth : ℕ) (approval : Approval pathe pathClass) : Prop :=
  approval.agent ≤ depth ∧ approval.response.decision = .approved ∧
    approval.response.session = true

end Approval

/-- The patterns of an agent and its parents. -/
def sessionApprovalRulePatterns (managers : List PermissionManager) : List (List Char) :=
  managers.flatMap (·.localSessionApprovalRulePatterns)

/-- What an agent with `depth` parents has after these answers. -/
def patternsAfter {pathe : Pathe} {pathClass : PathClass} (depth : ℕ)
    (history : List (Approval pathe pathClass)) : List (List Char) :=
  sessionApprovalRulePatterns (history.foldl Approval.record (List.replicate (depth + 1) {}))

section

variable {pathe : Pathe} {isMatch : Picomatch} {canonicalize : Char → Char} {pathClass : PathClass}
  {toolName subject pattern : List Char} {managers : List PermissionManager}

/-- `SessionApprovalHistoryPermissionPolicy` approves the call. -/
def SessionApproves (isMatch : Picomatch) (workspace : Workspace) (depth : ℕ)
    (history : List (Approval pathe pathClass)) (call : SubjectCall pathe pathClass) : Prop :=
  (evaluate isMatch (patternsAfter depth history) call.tool.name
    (some (call.matchesRule isMatch workspace))).isSome = true

/-! ## Patterns -/

theorem mem_modify {P : Prop} {f : PermissionManager → PermissionManager}
    (adds : ∀ manager, pattern ∈ (f manager).localSessionApprovalRulePatterns ↔
      pattern ∈ manager.localSessionApprovalRulePatterns ∨ P) (i : ℕ) :
    pattern ∈ sessionApprovalRulePatterns (managers.modify i f) ↔
      pattern ∈ sessionApprovalRulePatterns managers ∨ i < managers.length ∧ P := by
  unfold sessionApprovalRulePatterns
  induction managers generalizing i with
  | nil => simp
  | cons manager managers ih =>
    cases i with
    | zero =>
      rw [List.modify_zero_cons, List.flatMap_cons, List.flatMap_cons, List.mem_append,
        List.mem_append, adds]
      simp only [List.length_cons, Nat.zero_lt_succ, true_and]
      tauto
    | succ =>
      rw [List.modify_succ_cons, List.flatMap_cons, List.flatMap_cons, List.mem_append,
        List.mem_append, ih, List.length_cons, Nat.succ_lt_succ_iff, or_assoc]

theorem mem_record (approval : Approval pathe pathClass) :
    pattern ∈ sessionApprovalRulePatterns (approval.record managers) ↔
      pattern ∈ sessionApprovalRulePatterns managers ∨
        approval.agent < managers.length ∧ approval.response.decision = .approved ∧
          approval.response.session = true ∧ approval.execution.approvalRule = pattern := by
  refine mem_modify (fun manager => ?_) approval.agent
  by_cases granted : approval.response.decision = .approved ∧ approval.response.session = true
  · obtain ⟨approved, session⟩ := granted
    simp only [approved, session, and_self, if_true, PermissionManager.recordApprovalResult]
    simp only [ne_eq, not_true, Bool.not_true, Bool.false_eq_true, or_self, if_false, true_and]
    split
    case isTrue known => exact ⟨.inl, fun either => either.elim id fun eq => eq ▸ known⟩
    case isFalse => simp [eq_comm]
  · have kept : manager.recordApprovalResult (if approval.response.decision = .approved ∧
        approval.response.session then some approval.execution.approvalRule else none)
        approval.response = manager := by
      refine if_pos ((not_and_or.1 granted).imp id fun other => ?_)
      simpa using other
    rw [kept]
    exact ⟨.inl, fun either => either.elim id fun ⟨approved, session, _⟩ =>
      absurd ⟨approved, session⟩ granted⟩

theorem length_record (approval : Approval pathe pathClass) :
    (approval.record managers).length = managers.length := List.length_modify ..

theorem mem_patternsAfter {depth : ℕ} {history : List (Approval pathe pathClass)} :
    pattern ∈ patternsAfter depth history ↔
      ∃ approval ∈ history, approval.Grants depth ∧ approval.execution.approvalRule = pattern := by
  have all (managers : List PermissionManager) :
      pattern ∈ sessionApprovalRulePatterns (history.foldl Approval.record managers) ↔
        pattern ∈ sessionApprovalRulePatterns managers ∨ ∃ approval ∈ history,
          approval.agent < managers.length ∧ approval.response.decision = .approved ∧
            approval.response.session = true ∧ approval.execution.approvalRule = pattern := by
    induction history generalizing managers with
    | nil => simp
    | cons approval history ih =>
      rw [List.foldl_cons, ih, mem_record, length_record]
      simp only [List.mem_cons, exists_eq_or_imp, or_assoc]
  have none : pattern ∉ sessionApprovalRulePatterns (List.replicate (depth + 1) {}) := by
    simp [sessionApprovalRulePatterns]
  rw [patternsAfter, all, or_iff_right none, List.length_replicate]
  simp only [Approval.Grants, Nat.lt_succ_iff, and_assoc]

/-! ## Parsing literal rules -/

/-- Letters, digits, `_` and `-`. -/
def PlainName (toolName : List Char) : Prop :=
  toolName ≠ [] ∧ toolName.all (fun c => c.isAlphanum || c = '_' || c = '-') = true

theorem PlainName.literal (plain : PlainName toolName) : IsLiteral toolName := by
  intro c mem special
  have known := List.all_eq_true.1 plain.2 c mem
  have none : GLOB_LITERAL_SPECIAL.all (fun c => !(c.isAlphanum || c = '_' || c = '-')) = true := by
    decide
  have unknown := List.all_eq_true.1 none c special
  rw [known] at unknown
  cases unknown

theorem plain_name (tool : SubjectTool) : PlainName tool.name := by
  cases tool <;> exact ⟨by decide, by decide⟩

theorem PlainName.visible (plain : PlainName toolName) : ∀ c ∈ toolName, isJsSpace c = false := by
  intro c mem
  have printed : 0x21 ≤ c.toNat ∧ c.toNat ≤ 0x7E := by
    have known := List.all_eq_true.1 plain.2 c mem
    simp only [Bool.or_eq_true, decide_eq_true_eq, or_assoc] at known
    rcases known with letter | rfl | rfl
    · have range := isAlphanum_range letter
      omega
    · decide
    · decide
  simp only [isJsSpace, Bool.or_eq_false_iff, Bool.and_eq_false_iff, decide_eq_false_iff_not]
  omega

theorem PlainName.takeWhile (plain : PlainName toolName) (rest : List Char) :
    (toolName ++ '(' :: rest).takeWhile (· ≠ '(') = toolName ∧
      toolName.takeWhile (· ≠ '(') = toolName := by
  have none : ∀ c ∈ toolName, (decide (c ≠ '(')) = true := by
    intro c mem
    refine decide_eq_true fun same => ?_
    exact plain.literal c mem (same ▸ by decide)
  constructor
  · rw [List.takeWhile_append_of_pos none]
    simp
  · exact List.takeWhile_eq_self_iff.2 none

theorem parsePattern_name (plain : PlainName toolName) :
    parsePattern toolName = .ok { toolName } := by
  have trimmed : trimEndChars (trimStartChars toolName) = toolName :=
    trim_eq (fun c first => plain.visible c (List.mem_of_mem_head? first))
      fun c last => plain.visible c (List.mem_of_mem_getLast? last)
  unfold parsePattern
  rw [trimmed, if_neg (by simpa using plain.1), if_pos (plain.takeWhile []).2]

theorem parsePattern_rule (plain : PlainName toolName) (subject : List Char) :
    parsePattern (literalRulePattern toolName subject) =
      .ok { toolName, argPattern := if subject = [] then none
                                    else some (escapeRuleSubjectLiteral subject) } := by
  have paren : (literalRulePattern toolName subject).getLast? = some ')' := by
    rw [literalRulePattern, ← List.cons_append, ← List.append_assoc, List.getLast?_concat]
  have trimmed : trimEndChars (trimStartChars (literalRulePattern toolName subject)) =
      literalRulePattern toolName subject := by
    refine trim_eq (fun c first => ?_) fun c last => ?_
    · obtain ⟨d, more, rfl⟩ := List.exists_cons_of_ne_nil plain.1
      obtain rfl : d = c := Option.some.inj first
      exact plain.visible d (List.mem_cons_self ..)
    · obtain rfl : ')' = c := Option.some.inj (paren.symm.trans last)
      decide
  have behind : ((literalRulePattern toolName subject).drop (toolName.length + 1)).dropLast =
      escapeRuleSubjectLiteral subject := by
    rw [literalRulePattern, ← List.drop_drop, List.drop_left]
    exact List.dropLast_concat
  have name : (literalRulePattern toolName subject).takeWhile (· ≠ '(') = toolName :=
    (plain.takeWhile _).1
  unfold parsePattern
  rw [trimmed, if_neg (by simp [literalRulePattern]), name, if_neg (by simp [literalRulePattern]),
    if_neg (by simp [paren]), behind, if_neg (by simpa using plain.1)]
  by_cases none : subject = []
  · subst none
    rfl
  · rw [if_neg (by simpa using escape_ne_nil none), if_neg none]

/-! ## What a rule matches -/

theorem isMatch_name (picomatch : MatchesLiterally canonicalize isMatch)
    (plain : PlainName toolName) (called : List Char) :
    isMatch false called toolName = true ↔ called = toolName := by
  have literal := picomatch false called toolName plain.1
  rwa [escape_literal plain.literal, if_neg Bool.false_ne_true] at literal

theorem rule_of_other (picomatch : MatchesLiterally canonicalize isMatch)
    (plain : PlainName toolName) {argPattern : Option (List Char)}
    (parsed : parsePattern pattern = .ok { toolName, argPattern }) {called : List Char}
    (differs : called ≠ toolName) (matchesRule : Option (List Char → Bool)) :
    matchPermissionRule isMatch pattern called matchesRule = none := by
  have star : toolName ≠ ['*'] := by
    rintro rfl
    exact plain.literal '*' (List.mem_singleton_self _) (by decide)
  have unmatched : isMatch false called toolName = false :=
    Bool.eq_false_iff.2 fun same => differs ((isMatch_name picomatch plain called).1 same)
  rw [matchPermissionRule, parsed]
  exact if_pos ⟨star, by rw [unmatched]; rfl⟩

theorem rule_of_same (picomatch : MatchesLiterally canonicalize isMatch)
    (plain : PlainName toolName) {argPattern : List Char}
    (parsed : parsePattern pattern = .ok { toolName, argPattern := some argPattern })
    (matchesRule : List Char → Bool) :
    (matchPermissionRule isMatch pattern toolName (some matchesRule)).isSome =
      matchesRule argPattern := by
  have itself : isMatch false toolName toolName = true := (isMatch_name picomatch plain _).2 rfl
  rw [matchPermissionRule, parsed]
  dsimp only
  rw [if_neg (by simp [itself])]
  cases eq : matchesRule argPattern with
  | true => simp [eq]
  | false => simp [eq]

namespace SubjectCall

theorem subject_ne_nil (laws : pathe.Laws) (call : SubjectCall pathe pathClass) :
    call.subject ≠ [] := by
  have path (canonical : Canonical pathe pathClass call.subject) : call.subject ≠ [] := by
    obtain ⟨c, rest, eq, -⟩ := laws.head _ (canonical.absolute laws).1
    rw [eq]
    exact List.cons_ne_nil c rest
  have valid := call.valid
  split at valid
  · exact valid
  all_goals exact path valid

theorem rule_iff (picomatch : MatchesLiterally canonicalize isMatch) (laws : pathe.Laws)
    (workspace : Workspace) (earlier call : SubjectCall pathe pathClass) :
    (matchPermissionRule isMatch earlier.approvalRule call.tool.name
      (some (call.matchesRule isMatch workspace))).isSome = true ↔
      earlier.tool = call.tool ∧
        call.matchesRule isMatch workspace (escapeRuleSubjectLiteral earlier.subject) = true := by
  have plain := plain_name earlier.tool
  have parsed := parsePattern_rule plain earlier.subject
  rw [if_neg (earlier.subject_ne_nil laws)] at parsed
  by_cases same : earlier.tool = call.tool
  · rw [approvalRule, ← same, rule_of_same picomatch plain parsed]
    exact (and_iff_right rfl).symm
  · have names : call.tool.name ≠ earlier.tool.name := fun eq => same (by
      revert eq
      cases earlier.tool <;> cases call.tool <;> decide)
    rw [approvalRule, rule_of_other picomatch plain parsed names]
    exact iff_of_false Bool.false_ne_true fun both => same both.1

/-- The same path up to letter case; on Windows the same in any of its variants. -/
def SamePath (pathe : Pathe) (canonicalize : Char → Char) (pathClass : PathClass)
    (workspace : Workspace) (approved called : List Char) : Prop :=
  match pathClass with
  | .posix => called.map canonicalize = approved.map canonicalize
  | .win32 => ∃ calledVariant ∈ pathVariants pathe called .win32 (options .win32 workspace),
      ∃ variant ∈ pathVariants pathe approved .win32 (options .win32 workspace),
        calledVariant.map canonicalize = variant.map canonicalize

/-- What the rule of an approved subject authorizes: the same command up to a leading `./`, and the
same path in the sense of `SamePath`. -/
def SameSubject (pathe : Pathe) (canonicalize : Char → Char) (pathClass : PathClass)
    (workspace : Workspace) (tool : SubjectTool) (approved called : List Char) : Prop :=
  match tool with
  | .Bash => stripLeadingDotSlash called = stripLeadingDotSlash approved
  | .Read | .Write | .Edit => SamePath pathe canonicalize pathClass workspace approved called

/-- The subject is neither the command `./` nor a path with glob characters. -/
def Ordinary (call : SubjectCall pathe pathClass) : Prop :=
  match call.tool with
  | .Bash => call.subject ≠ ['.', '/']
  | .Read | .Write | .Edit => IsLiteral call.subject

theorem strip_ne_nil (some : subject ≠ []) (ordinary : subject ≠ ['.', '/']) :
    stripLeadingDotSlash subject ≠ [] := by
  by_cases dots : ∃ rest, subject = '.' :: '/' :: rest
  · obtain ⟨rest, rfl⟩ := dots
    rintro rfl
    exact ordinary rfl
  · rw [not_exists] at dots
    rwa [strip_other dots]

theorem path_iff (picomatch : MatchesLiterally canonicalize isMatch) (laws : pathe.Laws)
    (workspace : Workspace) {called approved : List Char}
    (canonical : Canonical pathe pathClass called) (canonical' : Canonical pathe pathClass approved)
    (literal : IsLiteral approved) (nonempty : approved ≠ []) :
    matchesPathRuleSubject pathe isMatch (escapeRuleSubjectLiteral approved) called
      (options pathClass workspace) = true ↔
        SamePath pathe canonicalize pathClass workspace approved called := by
  have variants := pathGlobMatch_literal picomatch laws canonical canonical' literal
    (some workspace.workspaceDir) (some workspace.homeDir)
  rw [matchesPathRuleSubject, matchRuleSubjects_literal nonempty, escape_literal literal]
  refine variants.trans ?_
  cases pathClass with
  | win32 => exact Iff.rfl
  | posix =>
    have itself (path : List Char) :
        path ∈ pathVariants pathe path .posix (options .posix workspace) := by
      unfold pathVariants addPathVariant
      dsimp only
      split <;> simp
    constructor
    · rintro ⟨v, mem, p, mem', same⟩
      rwa [(mem_pathVariants laws canonical _ mem).2.1 rfl,
        (mem_pathVariants laws canonical' _ mem').2.1 rfl] at same
    · exact fun same => ⟨called, itself called, approved, itself approved, same⟩

theorem matchesRule_iff (picomatch : MatchesLiterally canonicalize isMatch) (laws : pathe.Laws)
    (workspace : Workspace) {earlier call : SubjectCall pathe pathClass}
    (same : earlier.tool = call.tool) (ordinary : earlier.Ordinary) :
    call.matchesRule isMatch workspace (escapeRuleSubjectLiteral earlier.subject) = true ↔
      SameSubject pathe canonicalize pathClass workspace call.tool earlier.subject
        call.subject := by
  have nonempty := earlier.subject_ne_nil laws
  obtain ⟨tool, approved, valid⟩ := earlier
  obtain ⟨tool', called, valid'⟩ := call
  obtain rfl : tool = tool' := same
  cases tool with
  | Bash =>
    change matchRuleSubjects (escapeRuleSubjectLiteral approved) [called]
      (fun pattern value => globMatch isMatch value pattern false) = true ↔
        stripLeadingDotSlash called = stripLeadingDotSlash approved
    rw [matchRuleSubjects_literal nonempty]
    exact globMatch_literal picomatch (strip_ne_nil nonempty ordinary)
  | Read | Write | Edit => exact path_iff picomatch laws workspace valid' valid ordinary nonempty

theorem matchesRule_self (picomatch : MatchesLiterally canonicalize isMatch) (laws : pathe.Laws)
    (workspace : Workspace) (call : SubjectCall pathe pathClass) :
    call.matchesRule isMatch workspace (escapeRuleSubjectLiteral call.subject) = true := by
  have nonempty := call.subject_ne_nil laws
  have literally (nocase : Bool) :
      globMatch isMatch call.subject (escapeRuleSubjectLiteral call.subject) nocase = true := by
    refine if_pos ((picomatch nocase _ _ nonempty).2 ?_)
    split <;> rfl
  have path : matchesPathRuleSubject pathe isMatch (escapeRuleSubjectLiteral call.subject)
      call.subject (options pathClass workspace) = true := by
    rw [matchesPathRuleSubject, matchRuleSubjects_literal nonempty]
    exact if_pos (literally true)
  unfold matchesRule
  split
  · rw [matchesGlobRuleSubject, matchRuleSubjects_literal nonempty]
    exact literally false
  all_goals exact path

end SubjectCall

/-- The rule is one of an ordinary subject, or of a tool with a plain name of its own. -/
def ApprovedExecution.Ordinary : ApprovedExecution pathe pathClass → Prop
  | .subjectTool call => call.Ordinary
  | .other toolName _ => PlainName toolName ∧ ∀ tool : SubjectTool, tool.name ≠ toolName

/-- The rule leaves no empty pattern, on which `picomatch` throws: it is of a command other than
`./`, of a path, or of a tool with a plain name of its own. -/
def ApprovedExecution.Patterned : ApprovedExecution pathe pathClass → Prop
  | .subjectTool call => call.tool = .Bash → call.subject ≠ ['.', '/']
  | .other toolName _ => PlainName toolName ∧ ∀ tool : SubjectTool, tool.name ≠ toolName

theorem approves_iff {workspace : Workspace} {depth : ℕ}
    {history : List (Approval pathe pathClass)} {call : SubjectCall pathe pathClass} :
    SessionApproves isMatch workspace depth history call ↔
      ∃ approval ∈ history, approval.Grants depth ∧
        (matchPermissionRule isMatch approval.execution.approvalRule call.tool.name
          (some (call.matchesRule isMatch workspace))).isSome = true := by
  rw [SessionApproves, evaluate, Option.isSome_map, matchSessionApprovalRule,
    List.findSome?_isSome_iff]
  constructor
  · rintro ⟨pattern, known, found⟩
    obtain ⟨approval, mem, grants, rfl⟩ := mem_patternsAfter.1 known
    exact ⟨approval, mem, grants, found⟩
  · rintro ⟨approval, mem, grants, found⟩
    exact ⟨_, mem_patternsAfter.2 ⟨approval, mem, grants, rfl⟩, found⟩

/-- An earlier call of the same tool whose subject is so related was approved for the session. -/
def ApprovedEarlier (related : List Char → List Char → Prop) (depth : ℕ)
    (history : List (Approval pathe pathClass)) (call : SubjectCall pathe pathClass) : Prop :=
  ∃ approval ∈ history, approval.Grants depth ∧ ∃ earlier,
    approval.execution = .subjectTool earlier ∧ earlier.tool = call.tool ∧
      related earlier.subject call.subject

end

/-! ## Sample runs -/

/-- Some number of characters other than a slash, and then the rest. -/
def matchStar (rest : List Char → Bool) : List Char → Bool
  | [] => rest []
  | c :: value => rest (c :: value) || (c ≠ '/' && matchStar rest value)

/-- One literal character, and then the rest. -/
def matchChar (nocase : Bool) (d : Char) (rest : List Char → Bool) : List Char → Bool
  | [] => false
  | c :: value => (if nocase then c.toUpper = d.toUpper else c = d) && rest value

/-- A matcher with the wildcard `*` only. -/
def starMatch (nocase : Bool) : List Char → List Char → Bool
  | [] => List.isEmpty
  | '*' :: pattern => matchStar (starMatch nocase pattern)
  | '\\' :: d :: pattern => matchChar nocase d (starMatch nocase pattern)
  | d :: pattern => matchChar nocase d (starMatch nocase pattern)

def samplePicomatch : Picomatch := fun nocase value pattern => starMatch nocase pattern value

theorem starMatch_literal (nocase : Bool) (d : Char) (pattern : List Char) :
    starMatch nocase ((if d ∈ GLOB_LITERAL_SPECIAL then ['\\', d] else [d]) ++ pattern) =
      matchChar nocase d (starMatch nocase pattern) := by
  split
  case isTrue => rfl
  case isFalse plain =>
    have star : d ≠ '*' := fun same => plain (same ▸ by decide)
    have slash : d ≠ '\\' := fun same => plain (same ▸ by decide)
    exact starMatch.eq_4 nocase d pattern star fun _ _ same _ => slash same

theorem samplePicomatch_literal : MatchesLiterally Char.toUpper samplePicomatch := by
  suffices all : ∀ nocase value subject,
      starMatch nocase (escapeRuleSubjectLiteral subject) value = true ↔
        if nocase then value.map Char.toUpper = subject.map Char.toUpper else value = subject from
    fun nocase value subject _ => all nocase value subject
  intro nocase value subject
  induction subject generalizing value with
  | nil => cases nocase <;> cases value <;> simp [escapeRuleSubjectLiteral, starMatch]
  | cons d subject ih =>
    rw [escape_cons, starMatch_literal]
    cases nocase <;> cases value <;> simp [matchChar, ih]

/-- Paths with a root or a drive; normal paths have no backslashes. -/
def samplePathe : Pathe where
  isAbsolute
    | '/' :: _ => true
    | drive :: ':' :: '/' :: _ => isDriveLetter drive
    | _ => false
  normalize := withSlashes
  resolve cwd path := cwd ++ '/' :: path
  join dir path := dir ++ '/' :: path
  root _ := ['/']

theorem samplePathe_absolute {path : List Char} :
    samplePathe.isAbsolute path = true ↔ (∃ rest, path = '/' :: rest) ∨
      ∃ drive rest, isDriveLetter drive = true ∧ path = drive :: ':' :: '/' :: rest := by
  unfold samplePathe
  dsimp only
  split
  · simp
  case h_2 drive rest _ =>
    constructor
    · exact fun letter => .inr ⟨drive, rest, letter, rfl⟩
    · rintro (⟨rest, eq⟩ | ⟨drive, rest, letter, eq⟩)
      · cases eq; contradiction
      · cases eq; exact letter
  case h_3 other noDrive =>
    refine iff_of_false Bool.false_ne_true ?_
    rintro (⟨rest, rfl⟩ | ⟨drive, rest, -, rfl⟩)
    · exact other rest rfl
    · exact noDrive drive rest rfl

theorem samplePathe_laws : samplePathe.Laws where
  head path absolute := by
    rcases samplePathe_absolute.1 absolute with ⟨rest, rfl⟩ | ⟨drive, rest, letter, rfl⟩
    · exact ⟨'/', rest, rfl, by decide, by decide⟩
    · refine ⟨drive, _, rfl, ?_, ?_⟩ <;> rintro rfl <;> exact absurd letter (by decide)
  drive drive rest letter := samplePathe_absolute.2 (.inr ⟨drive, rest, letter, rfl⟩)
  resolve cwd path absolute := by
    refine samplePathe_absolute.2 ?_
    rcases samplePathe_absolute.1 absolute with ⟨rest, rfl⟩ | ⟨drive, rest, letter, rfl⟩
    · exact .inl ⟨_, rfl⟩
    · exact .inr ⟨drive, _, letter, rfl⟩
  normalize path absolute := by
    refine samplePathe_absolute.2 ?_
    rcases samplePathe_absolute.1 absolute with ⟨rest, rfl⟩ | ⟨drive, rest, letter, rfl⟩
    · exact .inl ⟨_, rfl⟩
    · refine .inr ⟨drive, withSlashes rest, letter, ?_⟩
      have kept : drive ≠ '\\' := by
        rintro rfl
        exact absurd letter (by decide)
      simp [samplePathe, withSlashes, kept]
  slashes path mem := by
    obtain ⟨c, -, eq⟩ := List.mem_map.1 mem
    split at eq <;> simp_all
  literal path literal := by
    have same : withSlashes path = path := by
      refine (List.map_congr_left fun c mem => if_neg ?_).trans (List.map_id _)
      rintro rfl
      exact literal '\\' mem (by decide)
    change IsLiteral (withSlashes path)
    rwa [same]
  idempotent path := by
    refine (List.map_congr_left fun c mem => if_neg ?_).trans (List.map_id _)
    rintro rfl
    obtain ⟨c, -, eq⟩ := List.mem_map.1 mem
    split at eq <;> simp_all

def sampleWorkspace : Workspace := { workspaceDir := "/repo".toList, homeDir := "/home".toList }

def sampleCommand (subject : List Char) (valid : subject ≠ []) : SubjectCall samplePathe .posix :=
  { tool := .Bash, subject, valid }

/-- A call of `Write`. -/
def sampleFile (subject : List Char)
    (valid : canonicalizePath samplePathe subject "/repo".toList .posix = .ok subject) :
    SubjectCall samplePathe .posix :=
  { tool := .Write, subject, valid := ⟨⟨subject, "/repo".toList, valid⟩⟩ }

/-- The user approves the execution for the session. -/
def sampleApproval (execution : ApprovedExecution samplePathe .posix) :
    Approval samplePathe .posix :=
  { agent := 0, execution, response := { decision := .approved, session := true } }

end KimiCli
