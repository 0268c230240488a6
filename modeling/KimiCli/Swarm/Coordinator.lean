import KimiCli.Lib.OrderedMap
import KimiCli.Lib.Run

/-!
# The swarm coordinator

`SwarmCoordinator` follows the subagents of one swarm run through the events of the session and
lets callers wait for a member's end.  A member is an object that `registerMember` makes; the map of
members holds references to them, and so does a `retryFailed` call that waits for a spawn.  The
promises of `awaitCompletion` are numbered in the order of the calls.

Abort signals are numbers, the coordinator's own controller has the number 0.  An abort calls its
listeners before it returns; here each call is a step of its own, and `cancelAll` marks the members
in a step after its abort, so that what other listeners of the same signal do may come in between.
-/

namespace KimiCli.Swarm

inductive SwarmMemberStatus
  | spawned
  | started
  | suspended
  | completed
  | failed
  | cancelled
  deriving DecidableEq

def SwarmMemberStatus.isTerminal : SwarmMemberStatus → Bool
  | .completed | .failed | .cancelled => true
  | _ => false

inductive AgentSwarmSpec
  | spawn (index : ℕ) (item prompt : String)
  | resume (index : ℕ) (agentId : String) (item : Option String) (prompt : String)
  deriving DecidableEq

/-- A result as the coordinator stores it: what a `subagent.completed` event brought, or a failure
with the message of its error. -/
inductive SubagentResult
  | summary (resultSummary : String)
  | failure (spec : AgentSwarmSpec) (agentId : Option String) (error : String)
  deriving DecidableEq

structure SwarmMember where
  id : String
  subagentId : Option String := none
  spec : AgentSwarmSpec
  agentId : Option String := none
  status : SwarmMemberStatus := .spawned
  result : Option SubagentResult := none

/-- The member fails with the message of an error. -/
def SwarmMember.fail (error : String) (m : SwarmMember) : SwarmMember :=
  { m with status := .failed, result := some (.failure m.spec m.agentId error) }

/-- How a promise of `awaitCompletion` settles. -/
inductive Settlement
  | resolved (result : Option SubagentResult)
  /-- Rejected with the reason of the signal. -/
  | aborted (signal : ℕ)
  /-- Rejected with `SwarmCoordinator disposed`. -/
  | disposed
  deriving DecidableEq

/-- A promise of `awaitCompletion`. -/
structure Waiter where
  agentId : String
  signal : Option ℕ
  settlement : Option Settlement := none

/-- An abort listener of `awaitCompletion`, which the settling of its promise removes. -/
structure AbortListener where
  signal : ℕ
  agentId : String
  waiter : ℕ
  deriving DecidableEq

structure SwarmRunSummary where
  memberCount : ℕ
  cancelledCount : ℕ
  failedCount : ℕ
  completedCount : ℕ
  errorCount : ℕ

structure SwarmCoordinator where
  /-- Every member object that was made; a reference is a position in this list. -/
  objects : List SwarmMember := []
  members : OrderedMap String ℕ := ∅
  memberBySubagentId : OrderedMap String String := ∅
  retried : List String := []
  pendingCompletions : OrderedMap String ℕ := ∅
  /-- The members with a `lastError`. -/
  diagnosticState : List String := []
  waiters : List Waiter := []
  listeners : List AbortListener := []
  /-- The signals that have been aborted. -/
  aborted : List ℕ := []
  /-- The `retryFailed` calls, each with the members that it still has to spawn; it waits for the
  spawn of the first. -/
  retries : List (List (String × ℕ)) := []
  /-- The `cancelAll` calls that have aborted and not marked the members. -/
  cancelling : ℕ := 0
  /-- What `dispose` has reported, and the number of promises made before it. -/
  disposed : Option (SwarmRunSummary × ℕ) := none

namespace SwarmCoordinator

variable (c : SwarmCoordinator)

/-- `members.get(memberId)`. -/
def member? (memberId : String) : Option SwarmMember :=
  (c.members.get memberId).bind fun ref => c.objects[ref]?

def modifyObject (ref : ℕ) (update : SwarmMember → SwarmMember) : SwarmCoordinator :=
  { c with objects := c.objects.modify ref update }

/-! ## Waiting for a member -/

/-- The `resolve` and `reject` of a pending completion.  A promise settles once. -/
def settle (waiter : ℕ) (settlement : Settlement) : SwarmCoordinator :=
  { c with
    listeners := c.listeners.filter (·.waiter ≠ waiter)
    waiters := c.waiters.modify waiter fun w =>
      { w with settlement := w.settlement.or (some settlement) } }

/-- Take a completion off the pending ones and settle it. -/
def settlePending (agentId : String) (waiter : ℕ) (settlement : Settlement) : SwarmCoordinator :=
  settle { c with pendingCompletions := c.pendingCompletions.delete agentId } waiter settlement

def resolvePendingCompletions (agentId : String) : SwarmCoordinator :=
  match c.member? agentId, c.pendingCompletions.get agentId with
  | some member, some waiter =>
    if member.status.isTerminal then
      c.settlePending agentId waiter (.resolved member.result)
    else c
  | _, _ => c

/-- The result of the member that a call of `awaitCompletion` finds ended. -/
def endedResult (agentId : String) : Option (Option SubagentResult) :=
  match c.member? agentId with
  | some member => if member.status.isTerminal then some member.result else none
  | none => none

def awaitCompletion (agentId : String) (signal : Option ℕ) : SwarmCoordinator :=
  match c.endedResult agentId with
  | some result =>
    { c with waiters := c.waiters ++ [{ agentId, signal, settlement := some (.resolved result) }] }
  | none =>
    match signal.filter (· ∈ c.aborted) with
    | some cause =>
      { c with waiters := c.waiters ++ [{ agentId, signal, settlement := some (.aborted cause) }] }
    | none =>
      { c with
        waiters := c.waiters ++ [{ agentId, signal }]
        pendingCompletions := c.pendingCompletions.set agentId c.waiters.length
        listeners := c.listeners ++
          signal.toList.map fun signal => { signal, agentId, waiter := c.waiters.length } }

/-- The listener takes whatever completion is pending for its member. -/
def onAbort (listener : AbortListener) : SwarmCoordinator :=
  let c := { c with listeners := c.listeners.filter (· ≠ listener) }
  match c.pendingCompletions.get listener.agentId with
  | some waiter => c.settlePending listener.agentId waiter (.aborted listener.signal)
  | none => c

def abort (signal : ℕ) : SwarmCoordinator := { c with aborted := signal :: c.aborted }

/-! ## Events of the session -/

def registerMember (memberId : String) (spec : AgentSwarmSpec) (agentId : Option String) :
    SwarmCoordinator :=
  { c with
    objects := c.objects ++ [{ id := memberId, spec, agentId }]
    members := c.members.set memberId c.objects.length }

def memberIdFor (subagentId : String) : Option String :=
  (c.memberBySubagentId.get subagentId).or
    (if (c.members.get subagentId).isSome then some subagentId else none)

/-- `subagent.spawned`: link the first member that is registered and not started. -/
def onSpawned (subagentId : String) : SwarmCoordinator :=
  match c.members.entries.find? fun entry => match c.objects[entry.2]? with
    | some member => member.subagentId = none ∧ member.status = .spawned
    | none => false with
  | some (memberId, ref) =>
    { c.modifyObject ref fun m => { m with subagentId := some subagentId } with
      memberBySubagentId := c.memberBySubagentId.set subagentId memberId }
  | none => c

/-- What the other four handlers share: find the member, update it, settle its completion. -/
def onMember (subagentId : String) (update : SwarmMember → SwarmMember) : SwarmCoordinator :=
  match c.memberIdFor subagentId with
  | some memberId =>
    match c.members.get memberId with
    | some ref => (c.modifyObject ref update).resolvePendingCompletions memberId
    | none => c
  | none => c

def onStarted (subagentId : String) : SwarmCoordinator :=
  c.onMember subagentId fun m => { m with status := .started }

def onSuspended (subagentId : String) : SwarmCoordinator :=
  c.onMember subagentId fun m => { m with status := .suspended }

def onCompleted (subagentId : String) (resultSummary : Option String) : SwarmCoordinator :=
  c.onMember subagentId fun m =>
    { m with status := .completed, result := (resultSummary.map .summary).or m.result }

/-- A failure also leaves its error in `diagnosticState`. -/
def onFailed (subagentId error : String) : SwarmCoordinator :=
  let c := c.onMember subagentId (·.fail error)
  match (c.memberIdFor subagentId).filter fun memberId => (c.members.get memberId).isSome with
  | some memberId => { c with diagnosticState := c.diagnosticState.insert memberId }
  | none => c

/-! ## Cancelling, retrying and disposing -/

/-- The first half of `cancelAll`. -/
def cancelAll : SwarmCoordinator :=
  if c.disposed.isSome then c
  else { c.abort 0 with cancelling := c.cancelling + 1 }

def cancelStatus (m : SwarmMember) : SwarmMember :=
  if m.status = .spawned ∨ m.status = .started then { m with status := .cancelled } else m

/-- The loop of `cancelAll` over the members. -/
def cancelMembers : SwarmCoordinator :=
  c.members.entries.foldl
    (fun c entry => (c.modifyObject entry.2 cancelStatus).resolvePendingCompletions entry.1)
    { c with cancelling := c.cancelling - 1 }

/-- The members that a `retryFailed` call takes up. -/
def failedMembers : List (String × ℕ) :=
  c.members.entries.filter fun entry => match c.objects[entry.2]? with
    | some member => member.status = .failed ∧ member.id ∉ c.retried
    | none => false

/-- `retried.add`, before the spawn of the first member of the list. -/
def addRetried (todo : List (String × ℕ)) : SwarmCoordinator :=
  { c with retried := (todo.head?.map Prod.fst).toList ++ c.retried }

def retryFailed : SwarmCoordinator :=
  if c.disposed.isSome then c
  else if c.failedMembers = [] then c
  else { c.addRetried c.failedMembers with retries := c.retries ++ [c.failedMembers] }

/-- The spawn of a retried member succeeds with a new subagent, or fails. -/
def respawned (memberId : String) (ref : ℕ) : Except String String → SwarmCoordinator
  | .ok subagentId =>
    let former := (c.objects[ref]?.bind (·.subagentId))
    let bySubagentId := match former with
      | some subagentId => c.memberBySubagentId.delete subagentId
      | none => c.memberBySubagentId
    { c.modifyObject ref fun m => { m with subagentId := some subagentId, status := .spawned } with
      memberBySubagentId := bySubagentId.set subagentId memberId }
  | .error error => c.modifyObject ref (·.fail error)

/-- The loop of a `retryFailed` call goes on. -/
def retrySettled (call : ℕ) (spawn : Except String String) : Option SwarmCoordinator :=
  match c.retries[call]? with
  | some ((memberId, ref) :: todo) =>
    let c := c.respawned memberId ref spawn
    some { c.addRetried todo with retries := c.retries.set call todo }
  | _ => none

/-- The statuses of the members, as `dispose` counts them. -/
def statuses : List SwarmMemberStatus :=
  c.members.entries.filterMap fun entry => (c.objects[entry.2]?).map (·.status)

def summary : SwarmRunSummary where
  memberCount := c.members.entries.length
  cancelledCount := c.statuses.count .cancelled
  failedCount := c.statuses.count .failed
  completedCount := c.statuses.count .completed
  errorCount := c.diagnosticState.length

def dispose : SwarmCoordinator :=
  if c.disposed.isSome then c
  else
    { c.pendingCompletions.entries.foldl (fun c entry => c.settle entry.2 .disposed) c with
      disposed := some (c.summary, c.waiters.length)
      pendingCompletions := ∅
      members := ∅
      memberBySubagentId := ∅
      retried := [] }

/-! ## The steps -/

/-- What happens to a coordinator. -/
inductive SwarmLabel
  | registerMember (memberId : String) (spec : AgentSwarmSpec) (agentId : Option String)
  | spawned (subagentId : String)
  | started (subagentId : String)
  | suspended (subagentId : String)
  | completed (subagentId : String) (resultSummary : Option String)
  | failed (subagentId error : String)
  | cancelAll
  /-- `cancelAll` has aborted and marks the members. -/
  | cancelMembers
  | retryFailed
  /-- The spawn that a `retryFailed` call waits for settles. -/
  | retrySettled (call : ℕ) (spawn : Except String String)
  | awaitCompletion (agentId : String) (signal : Option ℕ)
  /-- The owner of a signal aborts it. -/
  | abort (signal : ℕ)
  /-- The abort calls a listener. -/
  | onAbort (listener : AbortListener)
  | dispose

/-- `dispose` unsubscribes from the events. -/
def subscribed (handle : SwarmCoordinator) : SwarmCoordinator :=
  if c.disposed.isSome then c else handle

def step (c : SwarmCoordinator) : SwarmLabel → Option SwarmCoordinator
  | .registerMember memberId spec agentId => some (c.registerMember memberId spec agentId)
  | .spawned subagentId => some (c.subscribed (c.onSpawned subagentId))
  | .started subagentId => some (c.subscribed (c.onStarted subagentId))
  | .suspended subagentId => some (c.subscribed (c.onSuspended subagentId))
  | .completed subagentId resultSummary =>
    some (c.subscribed (c.onCompleted subagentId resultSummary))
  | .failed subagentId error => some (c.subscribed (c.onFailed subagentId error))
  | .cancelAll => some c.cancelAll
  | .cancelMembers => if c.cancelling = 0 then none else some c.cancelMembers
  | .retryFailed => some c.retryFailed
  | .retrySettled call spawn => c.retrySettled call spawn
  | .awaitCompletion agentId signal => some (c.awaitCompletion agentId signal)
  | .abort signal => some (c.abort signal)
  | .onAbort listener =>
    if listener ∈ c.listeners ∧ listener.signal ∈ c.aborted then some (c.onAbort listener)
    else none
  | .dispose => some c.dispose

/-! ## Members and their objects -/

/-- Each member has an object of its own, which carries its name. -/
structure Named (c : SwarmCoordinator) : Prop where
  members : ∀ memberId ref, c.members.get memberId = some ref →
    ∃ m, c.objects[ref]? = some m ∧ m.id = memberId
  retries : ∀ todo ∈ c.retries, ∀ entry ∈ todo, ∃ m, c.objects[entry.2]? = some m ∧ m.id = entry.1

/-- The objects of `c` keep their names. -/
def SameNames (c c' : SwarmCoordinator) : Prop :=
  ∀ (ref : ℕ) m, c.objects[ref]? = some m → ∃ m', c'.objects[ref]? = some m' ∧ m'.id = m.id

variable {c} {c' : SwarmCoordinator} {memberId other : String} {ref : ℕ}
  {update : SwarmMember → SwarmMember}

theorem SameNames.of_eq (same : c'.objects = c.objects) : SameNames c c' := fun ref m object =>
  ⟨m, by rw [same, object], rfl⟩

theorem SameNames.trans {c'' : SwarmCoordinator} (first : SameNames c c')
    (second : SameNames c' c'') : SameNames c c'' := by
  intro ref m object
  obtain ⟨m', object', same⟩ := first ref m object
  obtain ⟨m'', object'', same'⟩ := second ref m' object'
  exact ⟨m'', object'', same'.trans same⟩

theorem SameNames.of_modify (objects : c'.objects = c.objects.modify ref update)
    (keeps : ∀ m, (update m).id = m.id) : SameNames c c' := by
  intro i m object
  rw [objects, List.getElem?_modify, object]
  by_cases same : ref = i
  · exact ⟨update m, by simp [same], keeps m⟩
  · exact ⟨m, by simp [same], rfl⟩

theorem named_init : Named {} where
  members := fun _ _ found => nomatch found
  retries := fun _ mem => nomatch mem

theorem Named.eq (named : Named c) (found : c.members.get memberId = some ref)
    (found' : c.members.get other = some ref) : memberId = other := by
  obtain ⟨m, object, rfl⟩ := named.members memberId ref found
  obtain ⟨m', object', rfl⟩ := named.members other ref found'
  cases object.symm.trans object'
  rfl

theorem Named.frame (named : Named c) (names : SameNames c c')
    (members : ∀ memberId ref, c'.members.get memberId = some ref →
      c.members.get memberId = some ref)
    (retries : ∀ todo ∈ c'.retries, ∃ todo' ∈ c.retries, todo ⊆ todo') : Named c' where
  members := by
    intro memberId ref found
    obtain ⟨m, object, isNamed⟩ := named.members memberId ref (members memberId ref found)
    obtain ⟨m', object', same⟩ := names ref m object
    exact ⟨m', object', same.trans isNamed⟩
  retries := by
    intro todo mem entry inside
    obtain ⟨todo', old, sub⟩ := retries todo mem
    obtain ⟨m, object, isNamed⟩ := named.retries todo' old entry (sub inside)
    obtain ⟨m', object', same⟩ := names entry.2 m object
    exact ⟨m', object', same.trans isNamed⟩

/-- `c'` has the members of `c`, and their objects up to the contents. -/
structure SameMembers (c c' : SwarmCoordinator) : Prop where
  names : SameNames c c'
  members : c'.members = c.members
  retries : c'.retries = c.retries

theorem SameMembers.named (same : SameMembers c c') (named : Named c) : Named c' := by
  refine named.frame same.names (fun memberId ref found => ?_) fun todo mem => ?_
  · rwa [same.members] at found
  · rw [same.retries] at mem
    exact ⟨todo, mem, fun _ inside => inside⟩

theorem SameMembers.of_eq (objects : c'.objects = c.objects) (members : c'.members = c.members)
    (retries : c'.retries = c.retries) : SameMembers c c' := ⟨.of_eq objects, members, retries⟩

theorem SameMembers.of_modify (objects : c'.objects = c.objects.modify ref update)
    (members : c'.members = c.members) (retries : c'.retries = c.retries)
    (keeps : ∀ m, (update m).id = m.id) : SameMembers c c' :=
  ⟨.of_modify objects keeps, members, retries⟩

theorem SameMembers.refl (c : SwarmCoordinator) : SameMembers c c := ⟨.of_eq rfl, rfl, rfl⟩

theorem SameMembers.trans {c'' : SwarmCoordinator} (first : SameMembers c c')
    (second : SameMembers c' c'') : SameMembers c c'' :=
  ⟨first.names.trans second.names, second.members.trans first.members,
    second.retries.trans first.retries⟩

/-- Settling a completion leaves the members alone. -/
theorem resolvePendingCompletions_cases (c : SwarmCoordinator) (agentId : String) :
    c.resolvePendingCompletions agentId = c ∨ ∃ member waiter,
      c.member? agentId = some member ∧ member.status.isTerminal = true ∧
      c.pendingCompletions.get agentId = some waiter ∧ c.resolvePendingCompletions agentId =
        c.settlePending agentId waiter (.resolved member.result) := by
  rw [resolvePendingCompletions]
  split
  case h_1 member waiter isMember pending =>
    split
    case isTrue ended => exact .inr ⟨member, waiter, isMember, ended, pending, rfl⟩
    case isFalse => exact .inl rfl
  case h_2 => exact .inl rfl

@[simp] theorem objects_resolvePendingCompletions (c : SwarmCoordinator) (agentId : String) :
    (c.resolvePendingCompletions agentId).objects = c.objects := by
  rcases c.resolvePendingCompletions_cases agentId with same | ⟨_, _, _, _, _, same⟩ <;> rw [same]
  rfl

@[simp] theorem members_resolvePendingCompletions (c : SwarmCoordinator) (agentId : String) :
    (c.resolvePendingCompletions agentId).members = c.members := by
  rcases c.resolvePendingCompletions_cases agentId with same | ⟨_, _, _, _, _, same⟩ <;> rw [same]
  rfl

theorem sameMembers_resolve (c : SwarmCoordinator) (agentId : String) :
    SameMembers c (c.resolvePendingCompletions agentId) := by
  refine ⟨.of_eq (objects_resolvePendingCompletions c agentId),
    members_resolvePendingCompletions c agentId, ?_⟩
  rcases c.resolvePendingCompletions_cases agentId with same | ⟨_, _, _, _, _, same⟩ <;> rw [same]
  rfl

theorem sameMembers_update (c : SwarmCoordinator) (ref : ℕ) (memberId : String)
    (keeps : ∀ m, (update m).id = m.id) :
    SameMembers c ((c.modifyObject ref update).resolvePendingCompletions memberId) :=
  have modified : SameMembers c (c.modifyObject ref update) := .of_modify rfl rfl rfl keeps
  modified.trans (sameMembers_resolve _ _)

theorem sameMembers_onMember (c : SwarmCoordinator) (subagentId : String)
    (keeps : ∀ m, (update m).id = m.id) : SameMembers c (c.onMember subagentId update) := by
  rw [onMember]
  split
  · split
    · exact sameMembers_update c _ _ keeps
    · exact .refl c
  · exact .refl c

theorem sameMembers_onFailed (c : SwarmCoordinator) (subagentId error : String) :
    SameMembers c (c.onFailed subagentId error) := by
  have handled : SameMembers c (c.onMember subagentId (·.fail error)) :=
    sameMembers_onMember c subagentId fun _ => rfl
  rw [onFailed]
  split
  · exact handled.trans (.of_eq rfl rfl rfl)
  · exact handled

theorem sameMembers_onSpawned (c : SwarmCoordinator) (subagentId : String) :
    SameMembers c (c.onSpawned subagentId) := by
  rw [onSpawned]
  split
  · exact .of_modify rfl rfl rfl fun _ => rfl
  · exact .refl c

theorem sameMembers_awaitCompletion (c : SwarmCoordinator) (agentId : String)
    (signal : Option ℕ) : SameMembers c (c.awaitCompletion agentId signal) := by
  rw [awaitCompletion]
  split
  · exact .of_eq rfl rfl rfl
  · split
    · exact .of_eq rfl rfl rfl
    · exact .of_eq rfl rfl rfl

theorem sameMembers_onAbort (c : SwarmCoordinator) (listener : AbortListener) :
    SameMembers c (c.onAbort listener) := by
  rw [onAbort]
  split
  · exact .of_eq rfl rfl rfl
  · exact .of_eq rfl rfl rfl

theorem sameMembers_cancelAll (c : SwarmCoordinator) : SameMembers c c.cancelAll := by
  rw [cancelAll]
  split
  · exact .refl c
  · exact .of_eq rfl rfl rfl

theorem sameMembers_settleAll (c : SwarmCoordinator) (entries : List (String × ℕ)) :
    SameMembers c (entries.foldl (fun c entry => c.settle entry.2 .disposed) c) :=
  List.foldlRecOn entries _ (.refl c) fun _ same _ _ => same.trans (.of_eq rfl rfl rfl)

theorem sameMembers_respawned (c : SwarmCoordinator) (memberId : String) (ref : ℕ)
    (spawn : Except String String) : SameMembers c (c.respawned memberId ref spawn) := by
  cases spawn with
  | ok | error => exact .of_modify rfl rfl rfl fun _ => rfl

theorem retrySettled_eq {call : ℕ} {spawn : Except String String}
    (next : c.retrySettled call spawn = some c') : ∃ memberId ref todo,
      c.retries[call]? = some ((memberId, ref) :: todo) ∧
      c' = { (c.respawned memberId ref spawn).addRetried todo with
        retries := (c.respawned memberId ref spawn).retries.set call todo } := by
  rw [retrySettled] at next
  split at next
  case h_1 memberId ref todo found =>
    cases next
    exact ⟨memberId, ref, todo, found, rfl⟩
  case h_2 => cases next

theorem cancelStatus_id (m : SwarmMember) : (cancelStatus m).id = m.id := by
  rw [cancelStatus]
  split <;> rfl

theorem cancelStatus_of_ended {m : SwarmMember} (ended : m.status.isTerminal = true) :
    cancelStatus m = m := by
  refine if_neg ?_
  rintro (status | status) <;> rw [status] at ended <;> cases ended

theorem sameMembers_cancelMembers (c : SwarmCoordinator) : SameMembers c c.cancelMembers := by
  rw [cancelMembers]
  refine List.foldlRecOn c.members.entries _ ⟨.of_eq rfl, rfl, rfl⟩ fun c' same entry _ => ?_
  exact same.trans (sameMembers_update c' entry.2 entry.1 cancelStatus_id)

theorem Named.registerMember (named : Named c) (memberId : String) (spec : AgentSwarmSpec)
    (agentId : Option String) : Named (c.registerMember memberId spec agentId) := by
  have names : SameNames c (c.registerMember memberId spec agentId) := by
    intro ref m object
    refine ⟨m, ?_, rfl⟩
    rw [SwarmCoordinator.registerMember,
      List.getElem?_append_left (List.getElem?_eq_some_iff.1 object).1, object]
  refine ⟨fun other ref found => ?_, fun todo mem entry inside => ?_⟩
  · by_cases same : other = memberId
    · subst same
      rw [SwarmCoordinator.registerMember, OrderedMap.get_set_self] at found
      cases found
      exact ⟨_, List.getElem?_concat_length, rfl⟩
    · rw [SwarmCoordinator.registerMember, OrderedMap.get_set_ne _ _ same] at found
      obtain ⟨m, object, isNamed⟩ := named.members other ref found
      obtain ⟨m', object', same⟩ := names ref m object
      exact ⟨m', object', same.trans isNamed⟩
  · obtain ⟨m, object, isNamed⟩ := named.retries todo mem entry inside
    obtain ⟨m', object', same⟩ := names entry.2 m object
    exact ⟨m', object', same.trans isNamed⟩

theorem Named.retryFailed (named : Named c) : Named c.retryFailed := by
  rw [SwarmCoordinator.retryFailed]
  split
  · exact named
  · split
    · exact named
    · refine ⟨named.members, fun todo mem entry inside => ?_⟩
      rcases List.mem_append.1 mem with old | new
      · exact named.retries todo old entry inside
      · rw [List.mem_singleton.1 new] at inside
        refine named.members entry.1 entry.2 (OrderedMap.mem_entries.1 ?_)
        exact (List.mem_filter.1 inside).1

theorem Named.retrySettled (named : Named c) {call : ℕ} {spawn : Except String String}
    (next : c.retrySettled call spawn = some c') : Named c' := by
  obtain ⟨memberId, ref, todo, found, rfl⟩ := retrySettled_eq next
  have same := sameMembers_respawned c memberId ref spawn
  refine named.frame same.names (fun other ref' held => ?_) fun rest mem => ?_
  · rw [← same.members]
    exact held
  · rcases List.mem_or_eq_of_mem_set mem with old | rfl
    · rw [same.retries] at old
      exact ⟨rest, old, fun _ inside => inside⟩
    · exact ⟨_, List.mem_of_getElem? found, fun _ inside => List.mem_cons_of_mem _ inside⟩

theorem Named.dispose (named : Named c) : Named c.dispose := by
  rw [SwarmCoordinator.dispose]
  split
  · exact named
  · have same := sameMembers_settleAll c c.pendingCompletions.entries
    refine named.frame same.names (fun other ref found => nomatch found) fun todo mem => ?_
    have old : todo ∈ c.retries := by
      rw [← same.retries]
      exact mem
    exact ⟨todo, old, fun _ inside => inside⟩

theorem step_named {label : SwarmLabel} (named : Named c) (next : c.step label = some c') :
    Named c' := by
  have handled : ∀ handle, SameMembers c handle → Named (c.subscribed handle) := by
    intro handle same
    rw [subscribed]
    split
    · exact named
    · exact same.named named
  cases label with
  | registerMember memberId spec agentId =>
    cases next
    exact named.registerMember memberId spec agentId
  | spawned subagentId =>
    cases next
    exact handled _ (sameMembers_onSpawned c subagentId)
  | started subagentId | suspended subagentId | completed subagentId =>
    cases next
    exact handled _ (sameMembers_onMember c subagentId fun _ => rfl)
  | failed subagentId error =>
    cases next
    exact handled _ (sameMembers_onFailed c subagentId error)
  | cancelAll =>
    cases next
    exact (sameMembers_cancelAll c).named named
  | cancelMembers =>
    rw [step] at next
    split at next
    · cases next
    · cases next
      exact (sameMembers_cancelMembers c).named named
  | retryFailed =>
    cases next
    exact named.retryFailed
  | retrySettled => exact named.retrySettled next
  | awaitCompletion agentId signal =>
    cases next
    exact (sameMembers_awaitCompletion c agentId signal).named named
  | abort signal =>
    cases next
    exact (SameMembers.of_eq rfl rfl rfl : SameMembers c (c.abort signal)).named named
  | onAbort listener =>
    rw [step] at next
    split at next
    · cases next
      exact (sameMembers_onAbort c listener).named named
    · cases next
  | dispose =>
    cases next
    exact named.dispose

end SwarmCoordinator

end KimiCli.Swarm
