import KimiCli.Swarm.Coordinator

/-!
# The terminal status of a member

The handlers of the coordinator assign a status unconditionally, so that a late event overwrites
the one with which a member ended.  `Orderly` names the steps that do not, and `status_final` says
that a run keeps every terminal status exactly when each of its steps is orderly.
-/

namespace KimiCli.Swarm

open Transition

namespace SwarmCoordinator

/-- The status that is reported for a member. -/
def status? (c : SwarmCoordinator) (memberId : String) : Option SwarmMemberStatus :=
  (c.member? memberId).map (·.status)

/-- The event finds no member that has ended with another status. -/
def Reports (c : SwarmCoordinator) (subagentId : String) (status : SwarmMemberStatus) : Prop :=
  c.disposed = none → ∀ held ∈ (c.memberIdFor subagentId).bind c.status?,
    held.isTerminal = true → held = status

/-- An event reaches no member that has ended with another status, the spawn of a retry settles
while the member is still failed, and no new member takes the place of one that has ended. -/
def Orderly (c : SwarmCoordinator) : SwarmLabel → Prop
  | .started subagentId => c.Reports subagentId .started
  | .suspended subagentId => c.Reports subagentId .suspended
  | .completed subagentId _ => c.Reports subagentId .completed
  | .failed subagentId _ => c.Reports subagentId .failed
  | .retrySettled call _ => ∀ todo ∈ c.retries[call]?, ∀ entry ∈ todo.head?,
    c.members.get entry.1 = some entry.2 → ∀ held ∈ c.status? entry.1,
      held.isTerminal = true → held = .failed
  | .registerMember memberId _ _ => ∀ held ∈ c.status? memberId, held.isTerminal = false
  | _ => True

/-- The step changes a terminal status only where `retryFailed` has spawned a failed member again,
or where `dispose` clears the members. -/
def FinalStep (c : SwarmCoordinator) (label : SwarmLabel) : Prop :=
  ∀ c', c.step label = some c' → ∀ memberId held, c.status? memberId = some held →
    held.isTerminal = true → c'.status? memberId = some held ∨
      (held = .failed ∧ ∃ call subagentId ref todo,
        label = .retrySettled call (.ok subagentId) ∧
          c.retries[call]? = some ((memberId, ref) :: todo)) ∨ label = .dispose

instance (c : SwarmCoordinator) (subagentId : String) (status : SwarmMemberStatus) :
    Decidable (c.Reports subagentId status) :=
  inferInstanceAs (Decidable (_ → _))

instance (c : SwarmCoordinator) : ∀ label, Decidable (c.Orderly label)
  | .started _ | .suspended _ | .completed _ _ | .failed _ _ =>
    inferInstanceAs (Decidable (c.Reports _ _))
  | .retrySettled _ _ => inferInstanceAs (Decidable (∀ _ ∈ _, ∀ _ ∈ _, _ → ∀ _ ∈ _, _ → _))
  | .registerMember _ _ _ => inferInstanceAs (Decidable (∀ _ ∈ _, _))
  | .spawned _ | .cancelAll | .cancelMembers | .retryFailed | .awaitCompletion _ _ | .abort _
  | .onAbort _ | .dispose => .isTrue trivial

variable {c c' : SwarmCoordinator} {memberId other subagentId : String} {ref : ℕ}
  {update : SwarmMember → SwarmMember} {held status : SwarmMemberStatus}

/-! ## The reported status -/

theorem member?_congr (objects : c'.objects = c.objects) (members : c'.members = c.members)
    (memberId : String) : c'.member? memberId = c.member? memberId := by
  rw [member?, member?, objects, members]

theorem status?_congr (objects : c'.objects = c.objects) (members : c'.members = c.members)
    (memberId : String) : c'.status? memberId = c.status? memberId := by
  rw [status?, status?, member?_congr objects members]

theorem status?_eq_some (found : c.members.get memberId = some ref) {m : SwarmMember}
    (object : c.objects[ref]? = some m) : c.status? memberId = some m.status := by
  rw [status?, member?, found, Option.bind_some, object, Option.map_some]

theorem member?_modify_ne (members : c'.members = c.members)
    (objects : c'.objects = c.objects.modify ref update)
    (ne : c.members.get memberId ≠ some ref) : c'.member? memberId = c.member? memberId := by
  rw [member?, member?, members]
  cases found : c.members.get memberId with
  | none => rfl
  | some ref' =>
    have other : ref ≠ ref' := fun same => ne (by rw [found, same])
    rw [Option.bind_some, Option.bind_some, objects, List.getElem?_modify]
    simp [other]

theorem status?_modify_ne (members : c'.members = c.members)
    (objects : c'.objects = c.objects.modify ref update)
    (ne : c.members.get memberId ≠ some ref) : c'.status? memberId = c.status? memberId := by
  rw [status?, status?, member?_modify_ne members objects ne]

theorem status?_modify (members : c'.members = c.members)
    (objects : c'.objects = c.objects.modify ref update)
    (found : c.members.get memberId = some ref) :
    c'.status? memberId = (c.objects[ref]?).map fun m => (update m).status := by
  rw [status?, member?, members, found, Option.bind_some, objects, List.getElem?_modify]
  cases c.objects[ref]? <;> simp

theorem status?_modify_same (members : c'.members = c.members)
    (objects : c'.objects = c.objects.modify ref update)
    (same : ∀ m, c.objects[ref]? = some m → (update m).status = m.status) (memberId : String) :
    c'.status? memberId = c.status? memberId := by
  by_cases found : c.members.get memberId = some ref
  · rw [status?_modify members objects found, status?, member?, found, Option.bind_some]
    cases object : c.objects[ref]? with
    | none => rfl
    | some m => exact congrArg some (same m object)
  · exact status?_modify_ne members objects found

theorem status?_onMember (named : Named c) (subagentId : String)
    (assigns : ∀ m, (update m).status = status) :
    (∀ other, c.memberIdFor subagentId ≠ some other →
      (c.onMember subagentId update).status? other = c.status? other) ∧
    ∀ found held, c.memberIdFor subagentId = some found → c.status? found = some held →
      (c.onMember subagentId update).status? found = some status := by
  rw [onMember]
  cases isFound : c.memberIdFor subagentId with
  | none => exact ⟨fun _ _ => rfl, fun _ _ found => by cases found⟩
  | some memberId =>
    dsimp only
    cases hasRef : c.members.get memberId with
    | none =>
      refine ⟨fun _ _ => rfl, fun found held same reported => ?_⟩
      cases same
      rw [status?, member?, hasRef] at reported
      cases reported
    | some ref =>
      have resolved := status?_congr
        (objects_resolvePendingCompletions (c.modifyObject ref update) memberId)
        (members_resolvePendingCompletions (c.modifyObject ref update) memberId)
      refine ⟨fun other ne => ?_, fun found held same _ => ?_⟩
      · rw [resolved]
        refine status?_modify_ne rfl rfl fun held => ne ?_
        rw [named.eq hasRef held]
      · cases same
        obtain ⟨m, object, -⟩ := named.members memberId ref hasRef
        have modified : (c.modifyObject ref update).status? memberId = _ :=
          status?_modify (c := c) rfl rfl hasRef
        rw [resolved, modified, object, Option.map_some, assigns]

theorem status?_onSpawned (c : SwarmCoordinator) (subagentId other : String) :
    (c.onSpawned subagentId).status? other = c.status? other := by
  rw [onSpawned]
  split
  case h_1 memberId ref _ =>
    have linked : (c.modifyObject ref fun m => { m with subagentId := some subagentId }).status?
        other = c.status? other := by
      apply status?_modify_same
      · rfl
      · rfl
      · exact fun _ _ => rfl
    rw [← linked]
    exact status?_congr rfl rfl other
  case h_2 => rfl

/-! ## Each step -/

theorem finalStep_event (named : Named c) {label : SwarmLabel} {handle : SwarmCoordinator}
    (next : c.step label = some (c.subscribed handle))
    (handled : ∀ other, handle.status? other = (c.onMember subagentId update).status? other)
    (assigns : ∀ m, (update m).status = status)
    (notRetry : ∀ call spawn, label ≠ .retrySettled call spawn) (notDispose : label ≠ .dispose) :
    c.FinalStep label ↔ c.Reports subagentId status := by
  obtain ⟨others, mine⟩ := status?_onMember named subagentId assigns
  constructor
  · intro final open' held mem ended
    obtain ⟨found, isFound, reported⟩ := Option.bind_eq_some_iff.1 mem
    have taken : c.subscribed handle = handle := by
      rw [subscribed, open']
      rfl
    rcases final _ next found held reported ended with
      same | ⟨-, call, subagentId, _, _, retry, -⟩ | disposes
    · rw [taken, handled, mine found held isFound reported] at same
      exact (Option.some.inj same).symm
    · exact absurd retry (notRetry call _)
    · exact absurd disposes notDispose
  · intro reports c' next' other held reported ended
    refine .inl ?_
    cases next.symm.trans next'
    rw [subscribed]
    split
    case isTrue => exact reported
    case isFalse open' =>
      rw [handled]
      by_cases found : c.memberIdFor subagentId = some other
      · rw [mine other held found reported]
        rw [Option.not_isSome_iff_eq_none] at open'
        rw [reports open' held (Option.bind_eq_some_iff.2 ⟨other, found, reported⟩) ended]
      · rw [others other found, reported]

theorem finalStep_same {label : SwarmLabel}
    (same : ∀ c', c.step label = some c' → ∀ other held, c.status? other = some held →
      held.isTerminal = true → c'.status? other = some held) : c.FinalStep label :=
  fun c' next other held reported ended => .inl (same c' next other held reported ended)

theorem cancelMembers_keeps (c : SwarmCoordinator) {held : SwarmMemberStatus}
    (reported : c.status? other = some held) (ended : held.isTerminal = true) :
    c.cancelMembers.status? other = some held := by
  rw [cancelMembers]
  refine List.foldlRecOn c.members.entries _
    (motive := fun c' : SwarmCoordinator => c'.status? other = some held) reported
    fun c' keeps entry _ => ?_
  rw [status?_congr (objects_resolvePendingCompletions _ _) (members_resolvePendingCompletions _ _)]
  by_cases found : c'.members.get other = some entry.2
  · have modified : (c'.modifyObject entry.2 cancelStatus).status? other = _ :=
      status?_modify (c := c') rfl rfl found
    rw [status?, member?, found, Option.bind_some] at keeps
    rw [modified]
    cases object : c'.objects[entry.2]? with
    | none =>
      rw [object] at keeps
      cases keeps
    | some =>
      rw [object] at keeps
      cases keeps
      rw [Option.map_some, cancelStatus_of_ended ended]
  · rw [← keeps]
    exact status?_modify_ne rfl rfl found

theorem status?_registerMember (c : SwarmCoordinator) (memberId : String) (spec : AgentSwarmSpec)
    (agentId : Option String) :
    (c.registerMember memberId spec agentId).status? memberId = some .spawned := by
  rw [status?, member?, registerMember, OrderedMap.get_set_self, Option.bind_some,
    List.getElem?_concat_length, Option.map_some]

theorem status?_registerMember_ne (named : Named c) (spec : AgentSwarmSpec)
    (agentId : Option String) (ne : other ≠ memberId) :
    (c.registerMember memberId spec agentId).status? other = c.status? other := by
  rw [status?, status?, member?, member?, registerMember, OrderedMap.get_set_ne _ _ ne]
  cases found : c.members.get other with
  | none => rfl
  | some ref =>
    obtain ⟨m, object, -⟩ := named.members other ref found
    rw [Option.bind_some, Option.bind_some,
      List.getElem?_append_left (List.getElem?_eq_some_iff.1 object).1]

theorem finalStep_registerMember (named : Named c) (memberId : String) (spec : AgentSwarmSpec)
    (agentId : Option String) : c.FinalStep (.registerMember memberId spec agentId) ↔
      c.Orderly (.registerMember memberId spec agentId) := by
  constructor
  · intro final held reported
    by_contra ended
    rcases final _ rfl memberId held reported (by simpa using ended) with
      same | ⟨-, _, _, _, _, retry, -⟩ | disposes
    · rw [status?_registerMember] at same
      cases same
      exact ended rfl
    · cases retry
    · cases disposes
  · intro fresh c' next other held reported ended
    cases next
    refine .inl ?_
    by_cases same : other = memberId
    · subst same
      rw [fresh held reported] at ended
      cases ended
    · rw [status?_registerMember_ne named spec agentId same, reported]

/-- The status that the spawn of a retry leaves. -/
def retryStatus : Except String String → SwarmMemberStatus
  | .ok _ => .spawned
  | .error _ => .failed

theorem respawned_update (c : SwarmCoordinator) (memberId : String) (ref : ℕ)
    (spawn : Except String String) : ∃ update : SwarmMember → SwarmMember,
      (c.respawned memberId ref spawn).objects = c.objects.modify ref update ∧
      ∀ m, (update m).status = retryStatus spawn := by
  cases spawn with
  | ok => exact ⟨_, rfl, fun _ => rfl⟩
  | error => exact ⟨_, rfl, fun _ => rfl⟩

theorem status?_retrySettled {call : ℕ} {spawn : Except String String} {todo : List (String × ℕ)}
    (next : c.retrySettled call spawn = some c')
    (isCall : c.retries[call]? = some ((memberId, ref) :: todo)) :
    (∀ other, c.members.get other ≠ some ref → c'.status? other = c.status? other) ∧
      ∀ other held, c.members.get other = some ref → c.status? other = some held →
        c'.status? other = some (retryStatus spawn) := by
  obtain ⟨_, _, _, isCall', rfl⟩ := retrySettled_eq next
  cases isCall.symm.trans isCall'
  obtain ⟨update, objects, assigns⟩ := respawned_update c memberId ref spawn
  have members := (sameMembers_respawned c memberId ref spawn).members
  refine ⟨fun other ne => status?_modify_ne members objects ne, fun other held found reported => ?_⟩
  have modified := status?_modify members objects found
  obtain ⟨m, isMember, -⟩ := Option.map_eq_some_iff.1 reported
  rw [member?, found, Option.bind_some] at isMember
  rw [isMember, Option.map_some, assigns] at modified
  exact modified

theorem finalStep_retrySettled (named : Named c) (call : ℕ) (spawn : Except String String) :
    c.FinalStep (.retrySettled call spawn) ↔ c.Orderly (.retrySettled call spawn) := by
  constructor
  · intro final todo isCall entry head found held reported ended
    obtain ⟨memberId, ref⟩ := entry
    obtain ⟨todo, rfl⟩ := List.head?_eq_some_iff.1 head
    have next : ∃ c', c.retrySettled call spawn = some c' := by
      rw [retrySettled, isCall]
      exact ⟨_, rfl⟩
    obtain ⟨c', next⟩ := next
    have reset := (status?_retrySettled next isCall).2 memberId held found reported
    rcases final c' next memberId held reported ended with same | ⟨failed, -⟩ | disposes
    · rw [reset] at same
      cases same
      cases spawn with
      | ok => cases ended
      | error => rfl
    · exact failed
    · cases disposes
  · intro orderly c' next other held reported ended
    obtain ⟨memberId, ref, todo, isCall, -⟩ := retrySettled_eq next
    obtain ⟨others, mine⟩ := status?_retrySettled next isCall
    by_cases found : c.members.get other = some ref
    · -- the object carries the name under which the retry found it
      obtain ⟨m, object, rfl⟩ := named.members other ref found
      obtain ⟨m', object', isNamed⟩ := named.retries _ (List.mem_of_getElem? isCall) (memberId, ref)
        (List.mem_cons_self ..)
      cases object.symm.trans object'
      cases isNamed
      have failed := orderly _ isCall _ rfl found held reported ended
      cases spawn with
      | ok subagentId =>
        exact .inr (.inl ⟨failed, call, subagentId, ref, todo, rfl, isCall⟩)
      | error =>
        rw [failed]
        exact .inl (mine _ held found reported)
    · rw [← others other found] at reported
      exact .inl reported

theorem finalStep_untouched {label : SwarmLabel}
    (same : ∀ c', c.step label = some c' → c'.objects = c.objects ∧ c'.members = c.members) :
    c.FinalStep label :=
  finalStep_same fun c' next other held reported _ => by
    obtain ⟨objects, members⟩ := same c' next
    rw [status?_congr objects members, reported]

theorem untouched_awaitCompletion (c : SwarmCoordinator) (agentId : String) (signal : Option ℕ) :
    (c.awaitCompletion agentId signal).objects = c.objects ∧
      (c.awaitCompletion agentId signal).members = c.members := by
  rw [awaitCompletion]
  split
  · exact ⟨rfl, rfl⟩
  · split <;> exact ⟨rfl, rfl⟩

theorem untouched_onAbort (c : SwarmCoordinator) (listener : AbortListener) :
    (c.onAbort listener).objects = c.objects ∧ (c.onAbort listener).members = c.members := by
  rw [onAbort]
  split <;> exact ⟨rfl, rfl⟩

/-- A step is orderly exactly when it keeps the terminal statuses. -/
theorem finalStep_iff (named : Named c) (label : SwarmLabel) :
    c.FinalStep label ↔ c.Orderly label := by
  cases label with
  | registerMember memberId spec agentId =>
    exact finalStep_registerMember named memberId spec agentId
  | started | suspended | completed =>
    exact finalStep_event named rfl (fun _ => rfl) (fun _ => rfl) (fun _ _ => nofun) nofun
  | failed subagentId error =>
    have assigns : ∀ m : SwarmMember, (m.fail error).status = .failed := fun _ => rfl
    refine finalStep_event named rfl (fun other => ?_) assigns (fun _ _ => nofun) nofun
    rw [onFailed]
    split
    · exact status?_congr rfl rfl other
    · rfl
  | retrySettled call spawn => exact finalStep_retrySettled named call spawn
  | spawned =>
    refine iff_of_true (finalStep_same fun c' next other held reported _ => ?_) trivial
    cases next
    rw [subscribed]
    split
    · exact reported
    · rw [status?_onSpawned, reported]
  | cancelMembers =>
    refine iff_of_true (finalStep_same fun c' next other held reported ended => ?_) trivial
    rw [step] at next
    split at next
    · cases next
    · cases next
      exact cancelMembers_keeps c reported ended
  | cancelAll =>
    refine iff_of_true (finalStep_untouched fun c' next => ?_) trivial
    cases next
    rw [cancelAll]
    split <;> exact ⟨rfl, rfl⟩
  | retryFailed =>
    refine iff_of_true (finalStep_untouched fun c' next => ?_) trivial
    cases next
    rw [retryFailed]
    split
    · exact ⟨rfl, rfl⟩
    · split <;> exact ⟨rfl, rfl⟩
  | awaitCompletion agentId signal =>
    refine iff_of_true (finalStep_untouched fun c' next => ?_) trivial
    cases next
    exact untouched_awaitCompletion c agentId signal
  | abort =>
    refine iff_of_true (finalStep_untouched fun c' next => ?_) trivial
    cases next
    exact ⟨rfl, rfl⟩
  | onAbort listener =>
    refine iff_of_true (finalStep_untouched fun c' next => ?_) trivial
    rw [step] at next
    split at next
    · cases next
      exact untouched_onAbort c listener
    · cases next
  | dispose => exact iff_of_true (fun _ _ _ _ _ _ => .inr (.inr rfl)) trivial

/-! ## Runs -/

/-- A run of the coordinator keeps the terminal statuses, but for retries of failed members, exactly
when each of its steps is orderly. -/
theorem status_final (labels : List SwarmLabel) (c : SwarmCoordinator) :
    Run step FinalStep {} labels c ↔ Run step Orderly {} labels c := by
  constructor
  · intro run
    exact (run.mono_invariant Named named_init (fun _ _ _ => step_named)
      fun _ label named => (finalStep_iff named label).1).1
  · intro run
    exact (run.mono_invariant Named named_init (fun _ _ _ => step_named)
      fun _ label named => (finalStep_iff named label).2).1

/-- The late failure of a cancelled member overwrites the status with which it ended. -/
theorem cancelledThenFailed : ¬∀ labels c, Run step Always {} labels c →
    ∀ label, FinalStep c label := by
  intro final
  have run : exec (guarded step Always) {}
      [.registerMember "a" (.spawn 1 "x" "do x") (some "a"), .started "a", .cancelAll,
        .cancelMembers] = some _ := rfl
  rcases final _ _ (.of_exec run) (.failed "a" "aborted") _ rfl "a" .cancelled (by decide) rfl with
    same | ⟨failed, -⟩ | disposes
  · exact absurd same (by decide)
  · cases failed
  · cases disposes

end SwarmCoordinator

end KimiCli.Swarm
