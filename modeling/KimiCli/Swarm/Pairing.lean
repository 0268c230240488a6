import KimiCli.Lib.InverseMaps
import KimiCli.Swarm.TerminalStatus

/-!
# Members and their subagents

Which member holds which subagent id, and the reverse map that routes the events of a subagent.  The
host of a `retryFailed` call emits the `subagent.spawned` event of the new subagent before the spawn
resolves.
-/

namespace KimiCli.Swarm

open SwarmCoordinator Transition

/-- A coordinator and the host that its `retryFailed` calls spawn with. -/
structure SwarmHost where
  coordinator : SwarmCoordinator := {}
  /-- The new subagent of each call whose spawn has emitted its event and not settled. -/
  spawning : ℕ → Option String := fun _ => none

inductive HostLabel
  | call (label : SwarmLabel)
  /-- The spawn that a `retryFailed` call waits for emits `subagent.spawned`. -/
  | retrySpawned (call : ℕ) (subagentId : String)
  | retryResolved (call : ℕ)
  | retryRejected (call : ℕ) (error : String)

namespace SwarmHost

/-- The spawn of a call settles. -/
def settle (s : SwarmHost) (call : ℕ) (spawn : Except String String) : Option SwarmHost :=
  (s.coordinator.retrySettled call spawn).map fun coordinator =>
    { coordinator, spawning := Function.update s.spawning call none }

def step (s : SwarmHost) : HostLabel → Option SwarmHost
  | .call (.retrySettled _ _) => none
  | .call label => (s.coordinator.step label).map fun coordinator => { s with coordinator }
  | .retrySpawned call subagentId =>
    match s.coordinator.retries[call]?, s.spawning call with
    | some (_ :: _), none =>
      some {
        coordinator := s.coordinator.subscribed (s.coordinator.onSpawned subagentId)
        spawning := Function.update s.spawning call (some subagentId) }
    | _, _ => none
  | .retryResolved call => (s.spawning call).bind fun subagentId => s.settle call (.ok subagentId)
  | .retryRejected call error => s.settle call (.error error)

end SwarmHost

namespace SwarmCoordinator

/-! ## Links -/

/-- The subagent id that a member holds. -/
def linkedId (c : SwarmCoordinator) (memberId : String) : Option String :=
  (c.member? memberId).bind (·.subagentId)

/-- Members and subagents are paired one to one, and events are routed by the pairs. -/
structure Paired (c : SwarmCoordinator) : Prop where
  single : ∀ memberId other subagentId, c.linkedId memberId = some subagentId →
    c.linkedId other = some subagentId → memberId = other
  mapped : ∀ memberId subagentId, c.memberBySubagentId.get subagentId = some memberId ↔
    c.linkedId memberId = some subagentId
  routed : ∀ memberId subagentId, c.linkedId memberId = some subagentId →
    c.memberIdFor subagentId = some memberId

/-- Some member is registered, not linked and not started, so that a `subagent.spawned` event is
taken for its own. -/
def Expectant (c : SwarmCoordinator) : Prop :=
  ∃ entry ∈ c.members.entries, ∃ m ∈ c.objects[entry.2]?, m.subagentId = none ∧ m.status = .spawned

instance (c : SwarmCoordinator) : Decidable c.Expectant :=
  inferInstanceAs (Decidable (∃ _ ∈ _, ∃ _ ∈ _, _))

variable {c c' : SwarmCoordinator} {memberId other subagentId : String} {ref : ℕ}
  {update : SwarmMember → SwarmMember}

/-- The member for which a `retryFailed` call waits. -/
def retrying (c : SwarmCoordinator) (call : ℕ) : Option String :=
  (c.retries[call]?.bind List.head?).map Prod.fst

abbrev Links (c : SwarmCoordinator) : Prop := InverseMaps c.linkedId c.memberBySubagentId.get

theorem Links.paired (links : Links c) : Paired c where
  single _ _ _ left right := links.injective left right
  mapped := links
  routed memberId subagentId held := by
    rw [memberIdFor, (links memberId subagentId).2 held, Option.some_or]

/-- `c'` has the links and the retries of `c`. -/
structure SameLinks (c c' : SwarmCoordinator) : Prop where
  linked : ∀ memberId, c'.linkedId memberId = c.linkedId memberId
  bySubagentId : c'.memberBySubagentId = c.memberBySubagentId
  members : c'.members = c.members
  retries : c'.retries = c.retries

theorem SameLinks.links (same : SameLinks c c') (links : Links c) : Links c' := by
  intro memberId subagentId
  rw [same.linked, same.bySubagentId]
  exact links memberId subagentId

theorem SameLinks.refl (c : SwarmCoordinator) : SameLinks c c := ⟨fun _ => rfl, rfl, rfl, rfl⟩

theorem SameLinks.trans {c'' : SwarmCoordinator} (first : SameLinks c c')
    (second : SameLinks c' c'') : SameLinks c c'' :=
  ⟨fun memberId => (second.linked memberId).trans (first.linked memberId),
    second.bySubagentId.trans first.bySubagentId, second.members.trans first.members,
    second.retries.trans first.retries⟩

theorem SameLinks.of_eq (objects : c'.objects = c.objects) (members : c'.members = c.members)
    (bySubagentId : c'.memberBySubagentId = c.memberBySubagentId)
    (retries : c'.retries = c.retries) : SameLinks c c' :=
  ⟨fun memberId => congrArg (·.bind (·.subagentId)) (member?_congr objects members memberId),
    bySubagentId, members, retries⟩

theorem linkedId_modify (c : SwarmCoordinator) (ref : ℕ) (memberId : String)
    (keeps : ∀ m, (update m).subagentId = m.subagentId) :
    (c.modifyObject ref update).linkedId memberId = c.linkedId memberId := by
  rw [linkedId, linkedId, member?, member?]
  simp only [modifyObject, Option.bind_assoc]
  refine congrArg _ (funext fun i => ?_)
  rw [List.getElem?_modify]
  cases c.objects[i]? with
  | none => split <;> rfl
  | some m =>
    split
    · exact keeps m
    · rfl

theorem sameLinks_modify (c : SwarmCoordinator) (ref : ℕ)
    (keeps : ∀ m, (update m).subagentId = m.subagentId) :
    SameLinks c (c.modifyObject ref update) :=
  ⟨fun memberId => linkedId_modify c ref memberId keeps, rfl, rfl, rfl⟩

theorem sameLinks_resolve (c : SwarmCoordinator) (agentId : String) :
    SameLinks c (c.resolvePendingCompletions agentId) := by
  rcases c.resolvePendingCompletions_cases agentId with same | ⟨_, _, _, _, _, same⟩ <;> rw [same]
  · exact .refl c
  · exact .of_eq rfl rfl rfl rfl

theorem sameLinks_onMember (c : SwarmCoordinator) (subagentId : String)
    (keeps : ∀ m, (update m).subagentId = m.subagentId) :
    SameLinks c (c.onMember subagentId update) := by
  rw [onMember]
  split
  · split
    · exact (sameLinks_modify c _ keeps).trans (sameLinks_resolve _ _)
    · exact .refl c
  · exact .refl c

theorem sameLinks_onFailed (c : SwarmCoordinator) (subagentId error : String) :
    SameLinks c (c.onFailed subagentId error) := by
  have handled : SameLinks c (c.onMember subagentId (·.fail error)) :=
    sameLinks_onMember c subagentId fun _ => rfl
  rw [onFailed]
  split
  · exact handled.trans (.of_eq rfl rfl rfl rfl)
  · exact handled

theorem sameLinks_cancelMembers (c : SwarmCoordinator) : SameLinks c c.cancelMembers := by
  have keeps (m : SwarmMember) : (cancelStatus m).subagentId = m.subagentId := by
    rw [cancelStatus]
    split <;> rfl
  rw [cancelMembers]
  refine List.foldlRecOn c.members.entries _ (.of_eq rfl rfl rfl rfl) fun c' same entry _ => ?_
  exact (same.trans (sameLinks_modify c' entry.2 keeps)).trans (sameLinks_resolve _ _)

theorem sameLinks_awaitCompletion (c : SwarmCoordinator) (agentId : String)
    (signal : Option ℕ) : SameLinks c (c.awaitCompletion agentId signal) := by
  rw [awaitCompletion]
  split
  · exact .of_eq rfl rfl rfl rfl
  · split
    · exact .of_eq rfl rfl rfl rfl
    · exact .of_eq rfl rfl rfl rfl

theorem sameLinks_onAbort (c : SwarmCoordinator) (listener : AbortListener) :
    SameLinks c (c.onAbort listener) := by
  rw [onAbort]
  split
  · exact .of_eq rfl rfl rfl rfl
  · exact .of_eq rfl rfl rfl rfl

theorem SameLinks.subscribed (same : SameLinks c c') : SameLinks c (c.subscribed c') := by
  rw [SwarmCoordinator.subscribed]
  split
  · exact .refl c
  · exact same

/-! ## Linking a member -/

theorem linkedId_modify_ne (members : c'.members = c.members)
    (objects : c'.objects = c.objects.modify ref update)
    (ne : c.members.get memberId ≠ some ref) : c'.linkedId memberId = c.linkedId memberId := by
  rw [linkedId, linkedId, member?_modify_ne members objects ne]

theorem linkedId_modify_self (members : c'.members = c.members)
    (objects : c'.objects = c.objects.modify ref update)
    (found : c.members.get memberId = some ref) {m : SwarmMember}
    (object : c.objects[ref]? = some m) (assigns : (update m).subagentId = some subagentId) :
    c'.linkedId memberId = some subagentId := by
  rw [linkedId, member?, members, found, Option.bind_some, objects, List.getElem?_modify, object]
  simp [assigns]

/-- A `subagent.spawned` event finds nobody, or the first expectant member. -/
theorem onSpawned_cases (c : SwarmCoordinator) (subagentId : String) :
    c.onSpawned subagentId = c ∨ ∃ memberId ref m, c.Expectant ∧
      c.members.get memberId = some ref ∧ c.objects[ref]? = some m ∧ m.subagentId = none ∧
      c.onSpawned subagentId =
        { c.modifyObject ref fun m => { m with subagentId := some subagentId } with
          memberBySubagentId := c.memberBySubagentId.set subagentId memberId } := by
  rw [onSpawned]
  split
  case h_1 memberId ref found =>
    have mem := List.mem_of_find?_eq_some found
    have waits := List.find?_some found
    dsimp only at waits
    split at waits
    case h_1 m object =>
      obtain ⟨unlinked, fresh⟩ := of_decide_eq_true waits
      exact .inr ⟨memberId, ref, m, ⟨(memberId, ref), mem, m, object, unlinked, fresh⟩,
        OrderedMap.mem_entries.1 mem, object, unlinked, rfl⟩
    case h_2 => cases waits
  case h_2 => exact .inl rfl

theorem Links.onSpawned (named : Named c) (links : Links c)
    (free : c.Expectant → c.memberBySubagentId.get subagentId = none) :
    Links (c.onSpawned subagentId) := by
  rcases onSpawned_cases c subagentId with
    same | ⟨memberId, ref, m, waits, held, object, unlinked, same⟩
  · rw [same]
    exact links
  · rw [same]
    refine InverseMaps.link (a := memberId) (b := subagentId) links ?_ (free waits) ?_
      (fun other ne => ?_) (OrderedMap.get_set_self ..) fun old ne => OrderedMap.get_set_ne _ _ ne
    · rw [linkedId, member?, held, Option.bind_some, object, Option.bind_some, unlinked]
    · exact linkedId_modify_self (c := c) rfl rfl held object rfl
    · exact linkedId_modify_ne rfl rfl fun held' => ne (named.eq held' held)

theorem Links.respawned (named : Named c) (links : Links c)
    (held : c.members.get memberId = some ref)
    (free : ∀ other, c.memberBySubagentId.get subagentId = some other → other = memberId) :
    Links (c.respawned memberId ref (.ok subagentId)) := by
  obtain ⟨m, object, -⟩ := named.members memberId ref held
  have former : c.linkedId memberId = c.objects[ref]?.bind (·.subagentId) := by
    rw [linkedId, member?, held, Option.bind_some]
  refine InverseMaps.exchange (a := memberId) (b := subagentId) links free ?_ (fun other ne => ?_)
    (OrderedMap.get_set_self ..) (fun old ne linked => ?_) fun old ne linked => ?_
  · exact linkedId_modify_self (c := c) rfl rfl held object rfl
  · exact linkedId_modify_ne rfl rfl fun held' => ne (named.eq held' held)
  · rw [former] at linked
    dsimp only [SwarmCoordinator.respawned]
    rw [OrderedMap.get_set_ne _ _ ne, linked]
    exact OrderedMap.get_delete_self _ old
  · rw [former] at linked
    dsimp only [SwarmCoordinator.respawned]
    rw [OrderedMap.get_set_ne _ _ ne]
    split
    case h_1 old' linked' =>
      refine OrderedMap.get_delete_ne _ ?_
      rintro rfl
      exact linked linked'
    case h_2 => rfl

end SwarmCoordinator

namespace SwarmHost

open SwarmCoordinator

/-- A subagent is that of a member which it is mapped to, or which is retried with it. -/
def Claims (s : SwarmHost) (subagentId memberId : String) : Prop :=
  s.coordinator.memberBySubagentId.get subagentId = some memberId ∨
    ∃ call, s.spawning call = some subagentId ∧ s.coordinator.retrying call = some memberId

/-- No member takes the place of one that is linked or retried, a new subagent is nobody else's,
and no member waits for its subagent while that of a retried member is spawned. -/
def Lone (s : SwarmHost) : HostLabel → Prop
  | .call (.registerMember memberId _ _) => s.coordinator.linkedId memberId = none ∧
    ∀ todo ∈ s.coordinator.retries, ∀ entry ∈ todo, entry.1 ≠ memberId
  | .call (.spawned subagentId) =>
    s.coordinator.Expectant → ∀ memberId, ¬s.Claims subagentId memberId
  | .call .dispose => False
  | .retrySpawned call subagentId => ¬s.coordinator.Expectant ∧
    ∀ memberId, s.Claims subagentId memberId → s.coordinator.retrying call = some memberId
  | _ => True

/-! ## The invariant -/

structure Sound (s : SwarmHost) : Prop where
  named : Named s.coordinator
  links : Links s.coordinator
  current : ∀ todo ∈ s.coordinator.retries, ∀ entry ∈ todo,
    s.coordinator.members.get entry.1 = some entry.2
  retrying : ∀ call subagentId, s.spawning call = some subagentId →
    ∃ memberId, s.coordinator.retrying call = some memberId
  claimed : ∀ subagentId memberId other, s.Claims subagentId memberId →
    s.Claims subagentId other → memberId = other

variable {s s' : SwarmHost} {c : SwarmCoordinator} {memberId subagentId : String} {call : ℕ}

theorem sound_init : Sound {} where
  named := named_init
  links := by
    intro memberId subagentId
    exact ⟨nofun, nofun⟩
  current := nofun
  retrying := nofun
  claimed := by
    rintro _ _ _ (mapped | ⟨_, spawns, _⟩)
    · cases mapped
    · cases spawns

theorem Sound.same (sound : Sound s) (named : Named c) (same : SameLinks s.coordinator c) :
    Sound { s with coordinator := c } where
  named := named
  links := same.links sound.links
  current := by
    rw [same.retries, same.members]
    exact sound.current
  retrying := by
    simp only [SwarmCoordinator.retrying, same.retries]
    exact sound.retrying
  claimed := by
    simp only [Claims, SwarmCoordinator.retrying, same.retries, same.bySubagentId]
    exact sound.claimed

theorem Sound.claim (sound : Sound s) (subagentId memberId : String)
    (claims : ∀ x other, s'.Claims x other → s.Claims x other ∨ x = subagentId ∧ other = memberId)
    (mine : ∀ other, s.Claims subagentId other → other = memberId) :
    ∀ x first second, s'.Claims x first → s'.Claims x second → first = second := by
  intro x first second isFirst isSecond
  rcases claims x first isFirst with old | ⟨rfl, rfl⟩
  · rcases claims x second isSecond with old' | ⟨rfl, rfl⟩
    · exact sound.claimed x first second old old'
    · exact mine first old
  · rcases claims x second isSecond with old' | ⟨-, same⟩
    · exact (mine second old').symm
    · exact same.symm

theorem Sound.registerMember (sound : Sound s) (spec : AgentSwarmSpec) (agentId : Option String)
    (lone : s.Lone (.call (.registerMember memberId spec agentId))) :
    Sound { s with coordinator := s.coordinator.registerMember memberId spec agentId } where
  named := sound.named.registerMember memberId spec agentId
  links := by
    have linked : ∀ other, (s.coordinator.registerMember memberId spec agentId).linkedId other =
        s.coordinator.linkedId other := by
      intro other
      by_cases same : other = memberId
      · subst same
        rw [lone.1, linkedId, member?, SwarmCoordinator.registerMember, OrderedMap.get_set_self,
          Option.bind_some, List.getElem?_concat_length]
        rfl
      · rw [linkedId, linkedId, member?, member?, SwarmCoordinator.registerMember,
          OrderedMap.get_set_ne _ _ same]
        cases found : s.coordinator.members.get other with
        | none => rfl
        | some ref =>
          obtain ⟨m, object, -⟩ := sound.named.members other ref found
          rw [Option.bind_some, Option.bind_some,
            List.getElem?_append_left (List.getElem?_eq_some_iff.1 object).1]
    intro other subagentId
    rw [linked]
    exact sound.links other subagentId
  current := by
    intro todo mem entry inside
    exact (OrderedMap.get_set_ne _ _ (lone.2 todo mem entry inside)).trans
      (sound.current todo mem entry inside)
  retrying := sound.retrying
  claimed := sound.claimed

theorem Sound.retryFailed (sound : Sound s) :
    Sound { s with coordinator := s.coordinator.retryFailed } := by
  rw [SwarmCoordinator.retryFailed]
  split
  case isTrue => exact sound
  case isFalse open' =>
    split
    case isTrue => exact sound
    case isFalse some' =>
      have named : Named s.coordinator.retryFailed := sound.named.retryFailed
      rw [SwarmCoordinator.retryFailed, if_neg open', if_neg some'] at named
      have waits : ∀ call subagentId, s.spawning call = some subagentId →
          (s.coordinator.retries ++ [s.coordinator.failedMembers])[call]? =
            s.coordinator.retries[call]? := by
        intro call subagentId spawns
        obtain ⟨memberId, waits⟩ := sound.retrying call subagentId spawns
        obtain ⟨_, waits, -⟩ := Option.map_eq_some_iff.1 waits
        obtain ⟨todo, isCall, -⟩ := Option.bind_eq_some_iff.1 waits
        exact List.getElem?_append_left (List.getElem?_eq_some_iff.1 isCall).1
      have claims : ∀ subagentId memberId, Claims { s with
          coordinator := { s.coordinator.addRetried s.coordinator.failedMembers with
            retries := s.coordinator.retries ++ [s.coordinator.failedMembers] } }
          subagentId memberId → s.Claims subagentId memberId := by
        rintro subagentId memberId (mapped | ⟨call, spawns, isRetried⟩)
        · exact .inl mapped
        · refine .inr ⟨call, spawns, ?_⟩
          rwa [SwarmCoordinator.retrying, waits call subagentId spawns] at isRetried
      refine ⟨named, sound.links, fun todo mem entry inside => ?_, fun call subagentId spawns => ?_,
        fun subagentId memberId other first second => ?_⟩
      · rcases List.mem_append.1 mem with old | new
        · exact sound.current todo old entry inside
        · rw [List.mem_singleton.1 new] at inside
          exact OrderedMap.mem_entries.1 (List.mem_filter.1 inside).1
      · rw [SwarmCoordinator.retrying, waits call subagentId spawns]
        exact sound.retrying call subagentId spawns
      · exact sound.claimed _ _ _ (claims _ _ first) (claims _ _ second)

theorem Sound.spawned (sound : Sound s) (lone : s.Lone (.call (.spawned subagentId))) :
    Sound { s with coordinator := s.coordinator.onSpawned subagentId } := by
  have named := (sameMembers_onSpawned s.coordinator subagentId).named sound.named
  have free : s.coordinator.Expectant →
      s.coordinator.memberBySubagentId.get subagentId = none := by
    intro waits
    rw [Option.eq_none_iff_forall_ne_some]
    exact fun memberId mapped => lone waits memberId (.inl mapped)
  have links : Links (s.coordinator.onSpawned subagentId) := sound.links.onSpawned sound.named free
  rcases onSpawned_cases s.coordinator subagentId with
    same | ⟨memberId, ref, m, waits, held, object, unlinked, same⟩
  · rw [same]
    exact sound
  · rw [same] at named links ⊢
    refine ⟨named, links, sound.current, sound.retrying,
      sound.claim subagentId memberId (fun x other claims => ?_)
        fun other claims => absurd claims (lone waits other)⟩
    rcases claims with mapped | retried
    · by_cases isNew : x = subagentId
      · subst isNew
        have mine := (OrderedMap.get_set_self ..).symm.trans mapped
        exact .inr ⟨rfl, (Option.some.inj mine).symm⟩
      · exact .inl (.inl ((OrderedMap.get_set_ne _ _ isNew).symm.trans mapped))
    · exact .inl (.inr retried)

theorem Sound.retrySpawned (sound : Sound s) {entry : String × ℕ} {todo : List (String × ℕ)}
    (isCall : s.coordinator.retries[call]? = some (entry :: todo))
    (lone : s.Lone (.retrySpawned call subagentId)) :
    Sound { s with spawning := Function.update s.spawning call (some subagentId) } := by
  have isRetried : s.coordinator.retrying call = some entry.1 := by
    rw [SwarmCoordinator.retrying, isCall]
    rfl
  refine ⟨sound.named, sound.links, sound.current, fun call' x spawns => ?_,
    sound.claim subagentId entry.1 (fun x other claims => ?_)
      fun other claimed => ?_⟩
  · by_cases same : call' = call
    · exact ⟨entry.1, by rw [same, isRetried]⟩
    · exact sound.retrying call' x ((Function.update_of_ne same ..).symm.trans spawns)
  · rcases claims with mapped | ⟨call', spawns, retried⟩
    · exact .inl (.inl mapped)
    · by_cases same : call' = call
      · subst same
        have isNew := (Function.update_self ..).symm.trans spawns
        exact .inr ⟨(Option.some.inj isNew).symm, Option.some.inj (retried.symm.trans isRetried)⟩
      · exact .inl (.inr ⟨call', (Function.update_of_ne same ..).symm.trans spawns, retried⟩)
  · exact (Option.some.inj (isRetried.symm.trans (lone.2 other claimed))).symm

theorem Sound.settle (sound : Sound s) {spawn : Except String String}
    (next : s.settle call spawn = some s')
    (links : ∀ memberId ref, s.coordinator.retrying call = some memberId →
      s.coordinator.members.get memberId = some ref →
        Links (s.coordinator.respawned memberId ref spawn))
    (mapped : ∀ memberId ref x other, s.coordinator.retrying call = some memberId →
      (s.coordinator.respawned memberId ref spawn).memberBySubagentId.get x = some other →
        s.Claims x other) : Sound s' := by
  obtain ⟨c', settled, left⟩ := Option.map_eq_some_iff.1 next
  subst left
  have named : Named c' := sound.named.retrySettled settled
  obtain ⟨memberId, ref, todo, isCall, rfl⟩ := retrySettled_eq settled
  have same := sameMembers_respawned s.coordinator memberId ref spawn
  have isRetried : s.coordinator.retrying call = some memberId := by
    rw [SwarmCoordinator.retrying, isCall]
    rfl
  have isCurrent := sound.current _ (List.mem_of_getElem? isCall) (memberId, ref)
    (List.mem_cons_self ..)
  have others : ∀ call' x, Function.update s.spawning call none call' = some x →
      s.spawning call' = some x ∧
        ((s.coordinator.respawned memberId ref spawn).retries.set call todo)[call']? =
          s.coordinator.retries[call']? := by
    intro call' x spawns
    by_cases isSame : call' = call
    · rw [isSame, Function.update_self] at spawns
      cases spawns
    · rw [Function.update_of_ne isSame] at spawns
      rw [same.retries, List.getElem?_set_ne (Ne.symm isSame)]
      exact ⟨spawns, rfl⟩
  refine ⟨named, links memberId ref isRetried isCurrent, fun rest mem entry inside => ?_,
    fun call' x spawns => ?_, fun x first second isFirst isSecond => ?_⟩
  · refine (congrArg (OrderedMap.get · entry.1) same.members).trans ?_
    rcases List.mem_or_eq_of_mem_set mem with old | rfl
    · rw [same.retries] at old
      exact sound.current rest old entry inside
    · exact sound.current _ (List.mem_of_getElem? isCall) entry (List.mem_cons_of_mem _ inside)
  · obtain ⟨spawns, isSame⟩ := others call' x spawns
    rw [SwarmCoordinator.retrying, isSame]
    exact sound.retrying call' x spawns
  · have old : ∀ other, (s.coordinator.respawned memberId ref spawn).memberBySubagentId.get x =
        some other ∨ (∃ call', Function.update s.spawning call none call' = some x ∧
          ((((s.coordinator.respawned memberId ref spawn).retries.set call todo)[call']?.bind
            List.head?).map Prod.fst) = some other) → s.Claims x other := by
      rintro other (isMapped | ⟨call', spawns, retried⟩)
      · exact mapped memberId ref x other isRetried isMapped
      · obtain ⟨spawns, isSame⟩ := others call' x spawns
        rw [isSame] at retried
        exact .inr ⟨call', spawns, retried⟩
    exact sound.claimed x first second (old first isFirst) (old second isSecond)

theorem Sound.retryResolved (sound : Sound s) (spawns : s.spawning call = some subagentId)
    (next : s.settle call (.ok subagentId) = some s') : Sound s' := by
  refine sound.settle next (fun memberId ref retried held => ?_)
    fun memberId ref x other retried mapped => ?_
  · refine sound.links.respawned sound.named held fun other mapped => ?_
    exact sound.claimed _ _ _ (.inl mapped) (.inr ⟨call, spawns, retried⟩)
  · dsimp only [respawned] at mapped
    by_cases same : x = subagentId
    · subst same
      rw [OrderedMap.get_set_self] at mapped
      cases mapped
      exact .inr ⟨call, spawns, retried⟩
    · rw [OrderedMap.get_set_ne _ _ same] at mapped
      split at mapped
      case h_1 former _ =>
        by_cases isFormer : x = former
        · rw [isFormer, OrderedMap.get_delete_self] at mapped
          cases mapped
        · rw [OrderedMap.get_delete_ne _ isFormer] at mapped
          exact .inl mapped
      case h_2 => exact .inl mapped

theorem Sound.retryRejected (sound : Sound s) {error : String}
    (next : s.settle call (.error error) = some s') : Sound s' := by
  refine sound.settle next (fun memberId ref _ _ => ?_) fun memberId ref x other _ mapped => ?_
  · have same : SameLinks s.coordinator (s.coordinator.respawned memberId ref (.error error)) :=
      sameLinks_modify s.coordinator ref fun _ => rfl
    exact same.links sound.links
  · exact .inl mapped

theorem step_call {label : SwarmLabel} (next : s.step (.call label) = some s') :
    ∃ c, s.coordinator.step label = some c ∧ s' = { s with coordinator := c } := by
  cases label with
  | retrySettled => cases next
  | _ =>
    simp only [step, Option.map_eq_some_iff] at next
    obtain ⟨c, called, left⟩ := next
    exact ⟨c, called, left.symm⟩

theorem Sound.untouched (sound : Sound s) {label : SwarmLabel}
    (next : s.step (.call label) = some s')
    (same : ∀ c, s.coordinator.step label = some c → SameLinks s.coordinator c) : Sound s' := by
  obtain ⟨c, called, rfl⟩ := step_call next
  exact sound.same (step_named sound.named called) (same c called)

theorem step_sound {label : HostLabel} (sound : Sound s) (lone : s.Lone label)
    (next : s.step label = some s') : Sound s' := by
  cases label with
  | call label =>
    cases label with
    | registerMember memberId spec agentId =>
      cases next
      exact sound.registerMember spec agentId lone
    | spawned =>
      cases next
      rw [subscribed]
      split
      · exact sound
      · exact sound.spawned lone
    | started subagentId | suspended subagentId | completed subagentId =>
      refine sound.untouched next fun c called => ?_
      cases called
      exact .subscribed (sameLinks_onMember s.coordinator subagentId fun _ => rfl)
    | failed subagentId error =>
      refine sound.untouched next fun c called => ?_
      cases called
      exact (sameLinks_onFailed s.coordinator subagentId error).subscribed
    | cancelAll =>
      refine sound.untouched next fun c called => ?_
      cases called
      rw [cancelAll]
      split
      · exact .refl s.coordinator
      · exact .of_eq rfl rfl rfl rfl
    | cancelMembers =>
      refine sound.untouched next fun c called => ?_
      rw [SwarmCoordinator.step] at called
      split at called
      · cases called
      · cases called
        exact sameLinks_cancelMembers s.coordinator
    | retryFailed =>
      cases next
      exact sound.retryFailed
    | retrySettled => cases next
    | awaitCompletion agentId signal =>
      refine sound.untouched next fun c called => ?_
      cases called
      exact sameLinks_awaitCompletion s.coordinator agentId signal
    | abort =>
      refine sound.untouched next fun c called => ?_
      cases called
      exact .of_eq rfl rfl rfl rfl
    | onAbort listener =>
      refine sound.untouched next fun c called => ?_
      rw [SwarmCoordinator.step] at called
      split at called
      · cases called
        exact sameLinks_onAbort s.coordinator listener
      · cases called
    | dispose => exact lone.elim
  | retrySpawned call subagentId =>
    rw [step] at next
    split at next
    case h_1 isCall _ =>
      cases next
      have none : s.coordinator.subscribed (s.coordinator.onSpawned subagentId) =
          s.coordinator := by
        rcases onSpawned_cases s.coordinator subagentId with same | ⟨_, _, _, waits, _⟩
        · rw [same, subscribed, ite_self]
        · exact absurd waits lone.1
      rw [none]
      exact sound.retrySpawned isCall lone
    case h_2 => cases next
  | retryResolved =>
    obtain ⟨subagentId, spawns, settled⟩ := Option.bind_eq_some_iff.1 next
    exact sound.retryResolved spawns settled
  | retryRejected => exact sound.retryRejected next

/-! ## Runs -/

/-- In a run that never spawns a retried member's subagent while another member waits for its own,
and uses no id twice, members and subagents stay paired. -/
theorem paired_of_lone {labels : List HostLabel} (run : Run step Lone {} labels s) :
    Paired s.coordinator := by
  have sound := run.invariant Sound sound_init fun _ _ _ sound lone next =>
    step_sound sound lone next
  exact sound.links.paired

/-- A failed member is spawned again, with a new subagent. -/
theorem paired_of_lone_retry : ∃ s : SwarmHost, Paired s.coordinator ∧
    s.coordinator.linkedId "m1" = some "agent-2" := by
  let labels : List HostLabel := [
    .call (.registerMember "m1" (.spawn 1 "x" "do x") none), .call (.spawned "agent-1"),
    .call (.failed "agent-1" "no"), .call .retryFailed, .retrySpawned 0 "agent-2", .retryResolved 0]
  have run : ∃ s : SwarmHost, Run step Lone {} labels s ∧
      s.coordinator.linkedId "m1" = some "agent-2" := by
    refine ⟨_, .cons ⟨rfl, nofun⟩ rfl <| .cons ?_ rfl <| .cons trivial rfl <| .cons trivial rfl <|
      .cons ?_ rfl <| .cons trivial rfl .nil, rfl⟩
    · rintro _ memberId (mapped | ⟨_, spawns, _⟩)
      · cases mapped
      · cases spawns
    · refine ⟨by decide, ?_⟩
      rintro memberId (mapped | ⟨_, spawns, _⟩)
      · cases mapped
      · cases spawns
  obtain ⟨s, run, linked⟩ := run
  exact ⟨s, paired_of_lone run, linked⟩

/-- A member is registered and the subagent of another, which is retried, is taken for its own. -/
theorem sharedSubagent :
    ¬∀ labels (s : SwarmHost), Run step Always {} labels s → Paired s.coordinator := by
  intro paired
  have run : exec (guarded step Always) {} [
      .call (.registerMember "m1" (.spawn 1 "x" "do x") none), .call (.spawned "agent-1"),
      .call (.failed "agent-1" "no"), .call (.registerMember "m2" (.spawn 2 "y" "do y") none),
      .call .retryFailed, .retrySpawned 0 "agent-2", .retryResolved 0] = some _ := rfl
  have same := (paired _ _ (.of_exec run)).single "m1" "m2" "agent-2" (by decide) (by decide)
  exact absurd same (by decide)

end SwarmHost

end KimiCli.Swarm
