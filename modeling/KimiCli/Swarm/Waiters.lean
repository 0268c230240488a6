import KimiCli.Swarm.TerminalStatus

/-!
# Waiting for the end of a member

`pendingCompletions` holds one waiter for each member: a second call of `awaitCompletion` overwrites
the first, which nothing settles any more.  When each member has at most one waiter, and no retry
fails while somebody waits, every promise is settled, at the latest by `dispose`
(`waiters_settled`).
-/

namespace KimiCli.Swarm

open Transition

namespace SwarmCoordinator

/-- A call of `awaitCompletion` that has to wait finds no other waiter for the member, and the spawn
of a retry fails for no member that is waited for. -/
def SoleWaiter (c : SwarmCoordinator) : SwarmLabel → Prop
  | .awaitCompletion agentId signal => c.endedResult agentId = none →
    signal.filter (· ∈ c.aborted) = none → c.pendingCompletions.get agentId = none
  | .retrySettled call (.error _) => ∀ todo ∈ c.retries[call]?, ∀ entry ∈ todo.head?,
    c.members.get entry.1 = some entry.2 → c.pendingCompletions.get entry.1 = none
  | _ => True

instance (c : SwarmCoordinator) : ∀ label, Decidable (c.SoleWaiter label)
  | .awaitCompletion _ _ => inferInstanceAs (Decidable (_ → _ → _))
  | .retrySettled _ (.error _) => inferInstanceAs (Decidable (∀ _ ∈ _, ∀ _ ∈ _, _ → _))
  | .retrySettled _ (.ok _) | .registerMember _ _ _ | .spawned _ | .started _ | .suspended _
  | .completed _ _ | .failed _ _ | .cancelAll | .cancelMembers | .retryFailed | .abort _
  | .onAbort _ | .dispose => .isTrue trivial

/-- After `dispose` every promise that was returned before is settled, and an abort rejects only the
promises that were made with its signal. -/
structure Settled (c : SwarmCoordinator) : Prop where
  disposed : ∀ summary count, c.disposed = some (summary, count) →
    ∀ waiter < count, ∃ w, c.waiters[waiter]? = some w ∧ w.settlement.isSome = true
  aborted : ∀ (waiter : ℕ) w signal, c.waiters[waiter]? = some w →
    w.settlement = some (.aborted signal) → w.signal = some signal

/-- Of the promises that `c` has not settled, or not made, those for a member that has ended in `c'`
are resolved with its result there. -/
def Resolves (c c' : SwarmCoordinator) : Prop :=
  ∀ (waiter : ℕ) w', c'.waiters[waiter]? = some w' →
    (∀ w, c.waiters[waiter]? = some w → w.settlement = none) →
    ∀ m, c'.member? w'.agentId = some m → m.status.isTerminal = true →
      w'.settlement = some (.resolved m.result)

/-! ## The invariant -/

/-- Every open promise is the one that is pending for its member, which has not ended unless it is
`exempt`. -/
structure Waits (c : SwarmCoordinator) (exempt : Option String) : Prop where
  tracked : ∀ (waiter : ℕ) w, c.waiters[waiter]? = some w → w.settlement = none →
    c.pendingCompletions.get w.agentId = some waiter
  keyed : ∀ agentId (waiter : ℕ), c.pendingCompletions.get agentId = some waiter →
    ∃ w, c.waiters[waiter]? = some w ∧ w.agentId = agentId
  running : ∀ (waiter : ℕ) w, c.waiters[waiter]? = some w → w.settlement = none →
    some w.agentId ≠ exempt → ∀ status, c.status? w.agentId = some status →
      status.isTerminal = false
  listening : ∀ l ∈ c.listeners, ∃ w, c.waiters[l.waiter]? = some w ∧ w.settlement = none ∧
    w.agentId = l.agentId ∧ w.signal = some l.signal
  settled : Settled c

variable {c c' s : SwarmCoordinator} {exempt exempt' : Option String}
  {agentId memberId other : String} {ref waiter waiter' : ℕ} {settlement : Settlement}
  {w w' : Waiter} {update : SwarmMember → SwarmMember}

theorem waits_init : Waits {} none where
  tracked := by simp
  keyed := by simp
  running := by simp
  listening := by simp
  settled := ⟨by simp, by simp⟩

/-- Only the statuses may differ. -/
theorem Waits.frame (waits : Waits c exempt) (waiters : c'.waiters = c.waiters)
    (pending : c'.pendingCompletions = c.pendingCompletions)
    (listeners : c'.listeners = c.listeners)
    (disposed : c'.disposed = c.disposed)
    (running : ∀ (waiter : ℕ) w, c.waiters[waiter]? = some w → w.settlement = none →
      some w.agentId ≠ exempt' → ∀ status, c'.status? w.agentId = some status →
        status.isTerminal = false) : Waits c' exempt' where
  tracked := by
    rw [waiters, pending]
    exact waits.tracked
  keyed := by
    rw [waiters, pending]
    exact waits.keyed
  running := by
    rw [waiters]
    exact running
  listening := by
    rw [waiters, listeners]
    exact waits.listening
  settled :=
    { disposed := by
        rw [waiters, disposed]
        exact waits.settled.disposed
      aborted := by
        rw [waiters]
        exact waits.settled.aborted }

/-! ## Settling -/

theorem waiters_settle (c : SwarmCoordinator) (waiter : ℕ) (settlement : Settlement)
    (found : c.waiters[waiter']? = some w) :
    (c.settle waiter settlement).waiters[waiter']? = some (if waiter = waiter' then
      { w with settlement := w.settlement.or (some settlement) } else w) := by
  rw [settle, List.getElem?_modify, found]
  by_cases same : waiter = waiter' <;> simp [same]

theorem waiters_of_settle (found : (c.settle waiter settlement).waiters[waiter']? = some w) :
    ∃ w', c.waiters[waiter']? = some w' ∧ w = if waiter = waiter' then
      { w' with settlement := w'.settlement.or (some settlement) } else w' := by
  cases before : c.waiters[waiter']? with
  | none =>
    rw [settle, List.getElem?_modify, before] at found
    cases found
  | some w' =>
    rw [waiters_settle c waiter settlement before] at found
    exact ⟨w', rfl, (Option.some.inj found).symm⟩

theorem open_of_settle (found : (c.settle waiter settlement).waiters[waiter']? = some w)
    (isOpen : w.settlement = none) : waiter ≠ waiter' ∧ c.waiters[waiter']? = some w := by
  obtain ⟨w', before, rfl⟩ := waiters_of_settle found
  by_cases same : waiter = waiter'
  · rw [if_pos same] at isOpen
    cases settled : w'.settlement <;> rw [settled] at isOpen <;> cases isOpen
  · rw [if_neg same]
    exact ⟨same, before⟩

theorem Waits.settlePending (waits : Waits c exempt)
    (pending : c.pendingCompletions.get agentId = some waiter)
    (only : ∀ other, other ≠ agentId → some other ≠ exempt)
    (own : ∀ signal, settlement = .aborted signal → ∀ w, c.waiters[waiter]? = some w →
      w.settlement = none → w.signal = some signal) :
    Waits (c.settlePending agentId waiter settlement) none := by
  have stillOpen : ∀ (waiter' : ℕ) w,
      (c.settlePending agentId waiter settlement).waiters[waiter']? = some w →
      w.settlement = none → c.waiters[waiter']? = some w ∧ w.agentId ≠ agentId := by
    intro waiter' w found isOpen
    obtain ⟨ne, before⟩ := open_of_settle found isOpen
    refine ⟨before, fun same => ne ?_⟩
    have tracked := waits.tracked waiter' w before isOpen
    rw [same, pending] at tracked
    exact Option.some.inj tracked
  refine ⟨fun waiter' w found isOpen => ?_, fun key waiter' found => ?_,
    fun waiter' w found isOpen _ status reported => ?_, fun l mem => ?_, ?_, ?_⟩
  · obtain ⟨before, ne⟩ := stillOpen waiter' w found isOpen
    exact (OrderedMap.get_delete_ne _ ne).trans (waits.tracked waiter' w before isOpen)
  · by_cases same : key = agentId
    · subst same
      rw [SwarmCoordinator.settlePending, settle, OrderedMap.get_delete_self] at found
      cases found
    · obtain ⟨w, before, isKey⟩ := waits.keyed key waiter'
        ((OrderedMap.get_delete_ne _ same).symm.trans found)
      refine ⟨_, waiters_settle _ waiter settlement before, ?_⟩
      split <;> exact isKey
  · obtain ⟨before, ne⟩ := stillOpen waiter' w found isOpen
    exact waits.running waiter' w before isOpen (only _ ne) status
      ((status?_congr rfl rfl _).symm.trans reported)
  · obtain ⟨old, ne⟩ := List.mem_filter.1 mem
    obtain ⟨w, found, rest⟩ := waits.listening l old
    have apart : waiter ≠ l.waiter := fun same => by simp [same] at ne
    refine ⟨w, ?_, rest⟩
    exact (waiters_settle _ waiter settlement found).trans (by rw [if_neg apart])
  · intro summary count disposed waiter' lt
    obtain ⟨w, found, settled⟩ := waits.settled.disposed summary count disposed waiter' lt
    refine ⟨_, waiters_settle _ waiter settlement found, ?_⟩
    split
    · simp
    · exact settled
  · intro waiter' w signal found rejected
    obtain ⟨w', before, rfl⟩ := waiters_of_settle found
    split at rejected
    case isTrue same =>
      subst same
      rw [if_pos rfl]
      cases settled : w'.settlement with
      | none =>
        rw [settled] at rejected
        exact own signal (Option.some.inj rejected) w' before settled
      | some =>
        rw [settled] at rejected
        exact waits.settled.aborted waiter w' signal before (settled.trans rejected)
    case isFalse other =>
      rw [if_neg other]
      exact waits.settled.aborted waiter' w' signal before rejected

/-- A completion is resolved when one is pending and the member has ended; otherwise nothing is
done. -/
theorem resolve_cases (c : SwarmCoordinator) (agentId : String) :
    (∃ m waiter, c.member? agentId = some m ∧ m.status.isTerminal = true ∧
      c.pendingCompletions.get agentId = some waiter ∧
      c.resolvePendingCompletions agentId =
        c.settlePending agentId waiter (.resolved m.result)) ∨
    (c.resolvePendingCompletions agentId = c ∧ ∀ m waiter, c.member? agentId = some m →
      c.pendingCompletions.get agentId = some waiter → m.status.isTerminal = false) := by
  rw [resolvePendingCompletions]
  split
  case h_1 m waiter isMember pending =>
    split
    case isTrue ended => exact .inl ⟨m, waiter, isMember, ended, pending, rfl⟩
    case isFalse running =>
      refine .inr ⟨rfl, fun m' waiter' isMember' _ => ?_⟩
      cases isMember.symm.trans isMember'
      exact Bool.eq_false_iff.2 running
  case h_2 free =>
    exact .inr ⟨rfl, fun m waiter isMember pending => (free _ _ isMember pending).elim⟩

theorem Waits.resolve (waits : Waits c (some agentId)) :
    Waits (c.resolvePendingCompletions agentId) none := by
  rcases c.resolve_cases agentId with ⟨m, waiter, -, -, pending, same⟩ | ⟨same, running⟩
  · rw [same]
    refine waits.settlePending pending (fun other ne same => ne (Option.some.inj same)) ?_
    intro signal aborted
    cases aborted
  · rw [same]
    refine waits.frame rfl rfl rfl rfl fun waiter w found isOpen _ status reported => ?_
    by_cases mine : w.agentId = agentId
    · have tracked := waits.tracked waiter w found isOpen
      rw [mine] at tracked reported
      obtain ⟨m, isMember, rfl⟩ := Option.map_eq_some_iff.1 reported
      exact running m waiter isMember tracked
    · exact waits.running waiter w found isOpen (fun same => mine (Option.some.inj same)) status
        reported

/-- What was open in `s` is open in `c`, or resolved with the result of a member that has ended. -/
def Progress (s c : SwarmCoordinator) : Prop :=
  ∀ (waiter : ℕ) w', c.waiters[waiter]? = some w' →
    (∀ w, s.waiters[waiter]? = some w → w.settlement = none) → w'.settlement = none ∨
      ∃ m, c.member? w'.agentId = some m ∧ m.status.isTerminal = true ∧
        w'.settlement = some (.resolved m.result)

theorem Progress.resolves (progress : Progress s c) (waits : Waits c none) : Resolves s c := by
  intro waiter w' found wasOpen m isMember ended
  rcases progress waiter w' found wasOpen with isOpen | ⟨m', isMember', -, resolved⟩
  · have running := waits.running waiter w' found isOpen nofun m.status
      (by rw [status?, isMember, Option.map_some])
    rw [running] at ended
    cases ended
  · cases isMember.symm.trans isMember'
    exact resolved

theorem progress_of_waiters (same : c.waiters = s.waiters) : Progress s c := by
  intro waiter w' found wasOpen
  rw [same] at found
  exact .inl (wasOpen w' found)

theorem Progress.resolve (progress : Progress s c) (waits : Waits c (some agentId)) :
    Progress s (c.resolvePendingCompletions agentId) := by
  rcases c.resolve_cases agentId with ⟨m, waiter, isMember, ended, pending, same⟩ | ⟨same, -⟩
  · rw [same]
    intro waiter' w' found wasOpen
    obtain ⟨w, before, rfl⟩ := waiters_of_settle found
    have members : ∀ other, (c.settlePending agentId waiter (.resolved m.result)).member? other =
        c.member? other := member?_congr rfl rfl
    by_cases settled : waiter = waiter'
    · subst settled
      obtain ⟨w'', before', isKey⟩ := waits.keyed agentId waiter pending
      cases before.symm.trans before'
      rw [if_pos rfl]
      rcases progress waiter w before wasOpen with isOpen | ⟨m', isMember', ended', resolved⟩
      · refine .inr ⟨m, ?_, ended, by rw [isOpen]; rfl⟩
        rw [members, isKey, isMember]
      · exact .inr ⟨m', by rw [members, isMember'], ended', by rw [resolved]; rfl⟩
    · rw [if_neg settled]
      rcases progress waiter' w before wasOpen with isOpen | ⟨m', isMember', ended', resolved⟩
      · exact .inl isOpen
      · exact .inr ⟨m', by rw [members, isMember'], ended', resolved⟩
  · rw [same]
    exact progress

theorem Waits.modify (named : Named c) (waits : Waits c none)
    (held : c.members.get memberId = some ref) :
    Waits (c.modifyObject ref update) (some memberId) := by
  refine waits.frame rfl rfl rfl rfl fun waiter w found isOpen other status reported => ?_
  have same : (c.modifyObject ref update).status? w.agentId = c.status? w.agentId := by
    apply status?_modify_ne
    · rfl
    · rfl
    · exact fun held' => other (congrArg some (named.eq held' held))
  rw [same] at reported
  exact waits.running waiter w found isOpen (Option.some_ne_none _) status reported

theorem Progress.modify (progress : Progress s c)
    (fixes : ∀ m, c.objects[ref]? = some m → m.status.isTerminal = true → update m = m) :
    Progress s (c.modifyObject ref update) := by
  intro waiter w' found wasOpen
  refine (progress waiter w' found wasOpen).imp_right ?_
  rintro ⟨m, isMember, ended, resolved⟩
  refine ⟨m, ?_, ended, resolved⟩
  obtain ⟨ref', held, object⟩ := Option.bind_eq_some_iff.1 isMember
  rw [member?, modifyObject, held, Option.bind_some, List.getElem?_modify, object]
  by_cases same : ref = ref'
  · subst same
    simp [fixes m object ended]
  · simp [same]

/-! ## The steps -/

theorem Waits.onMember (named : Named c) (waits : Waits c none) (subagentId : String)
    (update : SwarmMember → SwarmMember) :
    Waits (c.onMember subagentId update) none ∧ Progress c (c.onMember subagentId update) := by
  rw [SwarmCoordinator.onMember]
  split
  case h_1 memberId _ =>
    split
    case h_1 ref held =>
      have modified : Waits (c.modifyObject ref update) (some memberId) := waits.modify named held
      have progress : Progress c (c.modifyObject ref update) := progress_of_waiters rfl
      exact ⟨modified.resolve, progress.resolve modified⟩
    case h_2 => exact ⟨waits, progress_of_waiters rfl⟩
  case h_2 => exact ⟨waits, progress_of_waiters rfl⟩

theorem Waits.cancelMembers (named : Named c) (waits : Waits c none) :
    Waits c.cancelMembers none ∧ Progress c c.cancelMembers := by
  let Kept (c' : SwarmCoordinator) : Prop := SameMembers c c' ∧ Waits c' none ∧ Progress c c'
  have start : Kept { c with cancelling := c.cancelling - 1 } :=
    ⟨.of_eq rfl rfl rfl, waits.frame rfl rfl rfl rfl waits.running, progress_of_waiters rfl⟩
  have kept : Kept c.cancelMembers := by
    refine List.foldlRecOn c.members.entries _ start fun c' kept entry mem => ?_
    obtain ⟨same, waits', progress⟩ := kept
    have held : c'.members.get entry.1 = some entry.2 := by
      rw [same.members]
      exact OrderedMap.mem_entries.1 mem
    have modified : Waits (c'.modifyObject entry.2 cancelStatus) (some entry.1) :=
      waits'.modify (same.named named) held
    exact ⟨same.trans (sameMembers_update c' entry.2 entry.1 cancelStatus_id), modified.resolve,
      (progress.modify fun _ _ => cancelStatus_of_ended).resolve modified⟩
  exact kept.2

theorem Waits.resolves_of_same (waits : Waits c none) (objects : c'.objects = c.objects)
    (members : c'.members = c.members)
    (agents : ∀ (waiter : ℕ) w', c'.waiters[waiter]? = some w' → ∃ w, c.waiters[waiter]? = some w ∧
      w.agentId = w'.agentId) : Resolves c c' := by
  intro waiter w' found wasOpen m isMember ended
  obtain ⟨w, before, same⟩ := agents waiter w' found
  rw [member?_congr objects members, ← same] at isMember
  have running := waits.running waiter w before (wasOpen w before) nofun m.status
    (by rw [status?, isMember, Option.map_some])
  rw [running] at ended
  cases ended

theorem Waits.onAbort (waits : Waits c none) {listener : AbortListener}
    (mem : listener ∈ c.listeners) :
    Waits (c.onAbort listener) none ∧ Resolves c (c.onAbort listener) := by
  -- the listener is that of the completion that is pending for its member
  obtain ⟨w, found, isOpen, isAgent, isSignal⟩ := waits.listening listener mem
  have tracked := waits.tracked listener.waiter w found isOpen
  rw [isAgent] at tracked
  have removed : Waits ({ c with listeners := c.listeners.filter (· ≠ listener) }) none :=
    { tracked := waits.tracked
      keyed := waits.keyed
      running := waits.running
      listening := fun l inside => waits.listening l (List.mem_filter.1 inside).1
      settled := ⟨waits.settled.disposed, waits.settled.aborted⟩ }
  have same : c.onAbort listener = SwarmCoordinator.settlePending
      { c with listeners := c.listeners.filter (· ≠ listener) } listener.agentId listener.waiter
      (.aborted listener.signal) := by
    rw [SwarmCoordinator.onAbort]
    rw [tracked]
  rw [same]
  refine ⟨removed.settlePending tracked (fun _ _ => Option.some_ne_none _)
    fun signal aborted w' found' _ => ?_, ?_⟩
  · cases aborted
    cases found.symm.trans found'
    exact isSignal
  · refine waits.resolves_of_same rfl rfl fun waiter w' found' => ?_
    obtain ⟨w'', before, rfl⟩ := waiters_of_settle found'
    refine ⟨w'', before, ?_⟩
    split <;> rfl

theorem endedResult_eq_none (running : c.endedResult agentId = none) {m : SwarmMember}
    (isMember : c.member? agentId = some m) : m.status.isTerminal = false := by
  rw [endedResult, isMember] at running
  dsimp only at running
  split at running
  case isTrue => cases running
  case isFalse not => exact Bool.eq_false_iff.2 not

theorem endedResult_eq_some {result : Option SubagentResult}
    (ended : c.endedResult agentId = some result) {m : SwarmMember}
    (isMember : c.member? agentId = some m) : m.result = result := by
  rw [endedResult, isMember] at ended
  dsimp only at ended
  split at ended
  case isTrue => exact Option.some.inj ended
  case isFalse => cases ended

theorem mem_waiters_concat {waiters : List Waiter} {new : Waiter}
    (found : (waiters ++ [new])[waiter]? = some w) :
    waiters[waiter]? = some w ∨ waiter = waiters.length ∧ w = new := by
  rw [List.getElem?_append] at found
  split at found
  case isTrue => exact .inl found
  case isFalse beyond =>
    have last := (List.getElem?_eq_some_iff.1 found).1
    rw [List.length_singleton] at last
    have zero : waiter - waiters.length = 0 := by omega
    rw [zero] at found
    exact .inr ⟨by omega, (Option.some.inj found).symm⟩

theorem waiters_concat {waiters : List Waiter} (new : Waiter) (found : waiters[waiter]? = some w) :
    (waiters ++ [new])[waiter]? = some w := by
  rw [List.getElem?_append_left (List.getElem?_eq_some_iff.1 found).1, found]

theorem Waits.concat (waits : Waits c none) {new : Waiter} (settled : new.settlement.isSome = true)
    (own : ∀ signal, new.settlement = some (.aborted signal) → new.signal = some signal) :
    Waits { c with waiters := c.waiters ++ [new] } none := by
  have stillOpen : ∀ (waiter : ℕ) w, (c.waiters ++ [new])[waiter]? = some w →
      w.settlement = none → c.waiters[waiter]? = some w := by
    intro waiter w found isOpen
    rcases mem_waiters_concat found with before | ⟨-, rfl⟩
    · exact before
    · rw [isOpen] at settled
      cases settled
  refine ⟨fun waiter w found isOpen => ?_, fun key waiter found => ?_,
    fun waiter w found isOpen _ status reported => ?_, fun l mem => ?_, ?_, ?_⟩
  · exact waits.tracked waiter w (stillOpen waiter w found isOpen) isOpen
  · obtain ⟨w, before, isKey⟩ := waits.keyed key waiter found
    exact ⟨w, waiters_concat new before, isKey⟩
  · exact waits.running waiter w (stillOpen waiter w found isOpen) isOpen nofun status reported
  · obtain ⟨w, before, rest⟩ := waits.listening l mem
    exact ⟨w, waiters_concat new before, rest⟩
  · intro summary count disposed waiter lt
    obtain ⟨w, before, settled⟩ := waits.settled.disposed summary count disposed waiter lt
    exact ⟨w, waiters_concat new before, settled⟩
  · intro waiter w signal found rejected
    rcases mem_waiters_concat found with before | ⟨-, rfl⟩
    · exact waits.settled.aborted waiter w signal before rejected
    · exact own signal rejected

theorem Waits.wait (waits : Waits c none) (signal : Option ℕ)
    (running : c.endedResult agentId = none)
    (sole : c.pendingCompletions.get agentId = none) :
    Waits { c with
      waiters := c.waiters ++ [({ agentId, signal } : Waiter)]
      pendingCompletions := c.pendingCompletions.set agentId c.waiters.length
      listeners := c.listeners ++
        signal.toList.map fun signal => { signal, agentId, waiter := c.waiters.length } }
      none := by
  have isNew : (c.waiters ++ [({ agentId, signal } : Waiter)])[c.waiters.length]? =
      some { agentId, signal } := List.getElem?_concat_length
  refine ⟨fun waiter w found isOpen => ?_, fun key waiter found => ?_,
    fun waiter w found isOpen _ status reported => ?_, fun l mem => ?_, ?_, ?_⟩
  · rcases mem_waiters_concat found with before | ⟨rfl, rfl⟩
    · have tracked := waits.tracked waiter w before isOpen
      have ne : w.agentId ≠ agentId := by
        intro same
        rw [same, sole] at tracked
        cases tracked
      exact (OrderedMap.get_set_ne _ _ ne).trans tracked
    · exact OrderedMap.get_set_self ..
  · by_cases same : key = agentId
    · subst same
      rw [OrderedMap.get_set_self] at found
      cases found
      exact ⟨_, isNew, rfl⟩
    · rw [OrderedMap.get_set_ne _ _ same] at found
      obtain ⟨w, before, isKey⟩ := waits.keyed key waiter found
      exact ⟨w, waiters_concat _ before, isKey⟩
  · rcases mem_waiters_concat found with before | ⟨rfl, rfl⟩
    · exact waits.running waiter w before isOpen nofun status reported
    · obtain ⟨m, isMember, rfl⟩ := Option.map_eq_some_iff.1 reported
      exact endedResult_eq_none running isMember
  · rcases List.mem_append.1 mem with before | new
    · obtain ⟨w, found, rest⟩ := waits.listening l before
      exact ⟨w, waiters_concat _ found, rest⟩
    · obtain ⟨cause, given, rfl⟩ := List.mem_map.1 new
      exact ⟨_, isNew, rfl, rfl, Option.mem_toList.1 given⟩
  · intro summary count disposed waiter lt
    obtain ⟨w, before, settled⟩ := waits.settled.disposed summary count disposed waiter lt
    exact ⟨w, waiters_concat _ before, settled⟩
  · intro waiter w signal found rejected
    rcases mem_waiters_concat found with before | ⟨-, rfl⟩
    · exact waits.settled.aborted waiter w signal before rejected
    · cases rejected

theorem Waits.awaitCompletion (waits : Waits c none) {signal : Option ℕ}
    (sole : SoleWaiter c (.awaitCompletion agentId signal)) :
    Waits (c.awaitCompletion agentId signal) none ∧
      Resolves c (c.awaitCompletion agentId signal) := by
  have resolves : ∀ new : Waiter, new.agentId = agentId → ∀ c' : SwarmCoordinator,
      c'.waiters = c.waiters ++ [new] → c'.objects = c.objects → c'.members = c.members →
      (∀ m, c.member? agentId = some m → m.status.isTerminal = true →
        new.settlement = some (.resolved m.result)) → Resolves c c' := by
    intro new isAgent c' waiters objects members ended waiter w' found wasOpen m isMember terminal
    rw [waiters] at found
    rw [member?_congr objects members] at isMember
    rcases mem_waiters_concat found with before | ⟨-, rfl⟩
    · have running := waits.running waiter w' before (wasOpen w' before) (Option.some_ne_none _)
        m.status
        (by rw [status?, isMember, Option.map_some])
      rw [running] at terminal
      cases terminal
    · rw [isAgent] at isMember
      exact ended m isMember terminal
  rw [SwarmCoordinator.awaitCompletion]
  split
  case h_1 result ended =>
    refine ⟨waits.concat rfl (fun _ aborted => by cases aborted), resolves _ rfl _ rfl rfl rfl ?_⟩
    intro m isMember _
    rw [endedResult_eq_some ended isMember]
  case h_2 running =>
    have notEnded : ∀ m, c.member? agentId = some m → m.status.isTerminal = true → False := by
      intro m isMember terminal
      rw [endedResult_eq_none running isMember] at terminal
      cases terminal
    split
    case h_1 cause aborted =>
      refine ⟨waits.concat rfl fun other rejected => ?_, resolves _ rfl _ rfl rfl rfl
        fun m isMember terminal => (notEnded m isMember terminal).elim⟩
      cases rejected
      exact (Option.filter_eq_some_iff.1 aborted).1
    case h_2 live =>
      exact ⟨waits.wait signal running (sole running live), resolves _ rfl _ rfl rfl rfl
        fun m isMember terminal => (notEnded m isMember terminal).elim⟩

/-- What the rejections of `dispose` leave: the listed promises are settled, with what they had or
as disposed. -/
structure Rejected (entries : List (String × ℕ)) (c c' : SwarmCoordinator) : Prop where
  waiters : ∀ (waiter : ℕ) w, c.waiters[waiter]? = some w → ∃ w', c'.waiters[waiter]? = some w' ∧
    w'.signal = w.signal ∧
    (w'.settlement = w.settlement ∨ w.settlement = none ∧ w'.settlement = some .disposed) ∧
    (waiter ∈ entries.map Prod.snd → w'.settlement.isSome = true)
  length : c'.waiters.length = c.waiters.length
  listeners : ∀ l ∈ c'.listeners, l ∈ c.listeners ∧ l.waiter ∉ entries.map Prod.snd

theorem rejected_settleAll (c : SwarmCoordinator) : ∀ entries : List (String × ℕ),
    Rejected entries c (entries.foldl (fun c entry => c.settle entry.2 .disposed) c)
  | [] => ⟨fun waiter w found => ⟨w, found, rfl, .inl rfl, nofun⟩, rfl, fun l mem => ⟨mem, nofun⟩⟩
  | (key, first) :: entries => by
    have later := rejected_settleAll (c.settle first .disposed) entries
    rw [List.foldl_cons]
    refine ⟨fun waiter w found => ?_, ?_, fun l mem => ?_⟩
    · obtain ⟨w', found', signal, settlement, listed⟩ :=
        later.waiters waiter _ (waiters_settle c first .disposed found)
      by_cases mine : first = waiter
      · rw [if_pos mine] at signal settlement
        refine ⟨w', found', signal, ?_, fun _ => ?_⟩
        · cases before : w.settlement with
          | none =>
            rw [before] at settlement
            rcases settlement with same | ⟨none, -⟩
            · exact .inr ⟨rfl, same⟩
            · cases none
          | some =>
            rw [before] at settlement
            rcases settlement with same | ⟨none, -⟩
            · exact .inl same
            · cases none
        · rcases settlement with same | ⟨-, disposed⟩
          · rw [same]
            simp
          · rw [disposed]
            rfl
      · rw [if_neg mine] at signal settlement
        refine ⟨w', found', signal, settlement, fun mem => listed ?_⟩
        exact (List.mem_cons.1 mem).resolve_left (Ne.symm mine)
    · rw [later.length, settle, List.length_modify]
    · obtain ⟨old, out⟩ := later.listeners l mem
      obtain ⟨old, ne⟩ := List.mem_filter.1 old
      refine ⟨old, fun mem => ?_⟩
      rcases List.mem_cons.1 mem with same | mem
      · simp [same] at ne
      · exact out mem

theorem Waits.dispose (waits : Waits c none) :
    Waits c.dispose none ∧ Resolves c c.dispose := by
  rw [SwarmCoordinator.dispose]
  split
  · exact ⟨waits, waits.resolves_of_same rfl rfl fun _ w' found => ⟨w', found, rfl⟩⟩
  · have rejected := rejected_settleAll c c.pendingCompletions.entries
    generalize c.pendingCompletions.entries.foldl _ c = c' at rejected
    -- an open promise is pending, so that it is rejected
    have listed : ∀ (waiter : ℕ) w, c.waiters[waiter]? = some w → w.settlement = none →
        waiter ∈ c.pendingCompletions.entries.map Prod.snd := by
      intro waiter w found isOpen
      exact List.mem_map_of_mem (OrderedMap.mem_entries.2 (waits.tracked waiter w found isOpen))
    have closed : ∀ (waiter : ℕ) w', c'.waiters[waiter]? = some w' →
        w'.settlement.isSome = true ∧ ∃ w, c.waiters[waiter]? = some w ∧ w'.signal = w.signal ∧
          (w'.settlement = w.settlement ∨ w'.settlement = some .disposed) := by
      intro waiter w' found
      have lt : waiter < c.waiters.length := by
        rw [← rejected.length]
        exact (List.getElem?_eq_some_iff.1 found).1
      obtain ⟨w, before⟩ : ∃ w, c.waiters[waiter]? = some w := ⟨_, List.getElem?_eq_getElem lt⟩
      obtain ⟨w'', found'', signal, settlement, isListed⟩ := rejected.waiters waiter w before
      cases found.symm.trans found''
      refine ⟨?_, w, before, signal, settlement.imp_right And.right⟩
      cases isOpen : w.settlement with
      | none => exact isListed (listed waiter w before isOpen)
      | some =>
        rw [isOpen] at settlement
        rcases settlement with same | ⟨none, -⟩
        · rw [same]
          rfl
        · cases none
    have noneOpen : ∀ (waiter : ℕ) w', c'.waiters[waiter]? = some w' → w'.settlement ≠ none := by
      intro waiter w' found isOpen
      have := (closed waiter w' found).1
      rw [isOpen] at this
      cases this
    refine ⟨⟨fun waiter w' found isOpen => (noneOpen waiter w' found isOpen).elim,
      (fun _ _ found => by cases found),
      fun waiter w' found isOpen => (noneOpen waiter w' found isOpen).elim, fun l mem => ?_,
      fun summary count disposed waiter lt => ?_, fun waiter w' signal found aborted => ?_⟩,
      fun _ _ _ _ _ isMember => by cases isMember⟩
    · obtain ⟨old, out⟩ := rejected.listeners l mem
      obtain ⟨w, found, isOpen, -⟩ := waits.listening l old
      exact absurd (listed l.waiter w found isOpen) out
    · cases disposed
      have lt' : waiter < c'.waiters.length := by
        rw [rejected.length]
        exact lt
      exact ⟨_, List.getElem?_eq_getElem lt', (closed waiter _ (List.getElem?_eq_getElem lt')).1⟩
    · obtain ⟨-, w, before, sameSignal, same | disposed⟩ := closed waiter w' found
      · rw [sameSignal]
        exact waits.settled.aborted waiter w signal before (same.symm.trans aborted)
      · rw [disposed] at aborted
        cases aborted

/-- A step that leaves the promises alone and ends no member that is waited for. -/
theorem Waits.of_running (waits : Waits c none) (waiters : c'.waiters = c.waiters)
    (pending : c'.pendingCompletions = c.pendingCompletions)
    (listeners : c'.listeners = c.listeners)
    (disposed : c'.disposed = c.disposed)
    (running : ∀ (waiter : ℕ) w, c.waiters[waiter]? = some w → w.settlement = none →
      ∀ status, c'.status? w.agentId = some status → status.isTerminal = false) :
    Waits c' none ∧ Resolves c c' := by
  have waits' : Waits c' none := waits.frame waiters pending listeners disposed
    fun waiter w found isOpen _ => running waiter w found isOpen
  exact ⟨waits', (progress_of_waiters waiters).resolves waits'⟩

theorem Waits.of_status (waits : Waits c none) (waiters : c'.waiters = c.waiters)
    (pending : c'.pendingCompletions = c.pendingCompletions)
    (listeners : c'.listeners = c.listeners)
    (disposed : c'.disposed = c.disposed) (same : ∀ other, c'.status? other = c.status? other) :
    Waits c' none ∧ Resolves c c' :=
  waits.of_running waiters pending listeners disposed fun waiter w found isOpen status reported =>
    waits.running waiter w found isOpen nofun status ((same _).symm.trans reported)

theorem Waits.retrySettled (named : Named c) (waits : Waits c none) {call : ℕ}
    {spawn : Except String String} (sole : SoleWaiter c (.retrySettled call spawn))
    (next : c.retrySettled call spawn = some c') : Waits c' none ∧ Resolves c c' := by
  obtain ⟨memberId, ref, todo, isCall, same⟩ := retrySettled_eq next
  obtain ⟨others, mine⟩ := status?_retrySettled next isCall
  have running : ∀ (waiter : ℕ) w, c.waiters[waiter]? = some w → w.settlement = none →
      ∀ status, c'.status? w.agentId = some status → status.isTerminal = false := by
    intro waiter w found isOpen status reported
    by_cases held : c.members.get w.agentId = some ref
    · obtain ⟨m, object, isNamed⟩ := named.members w.agentId ref held
      have before := status?_eq_some held object
      rw [mine w.agentId m.status held before] at reported
      cases spawn with
      | ok =>
        cases reported
        rfl
      | error =>
        obtain ⟨m', object', isNamed'⟩ := named.retries _ (List.mem_of_getElem? isCall)
          (memberId, ref) (List.mem_cons_self ..)
        cases object.symm.trans object'
        rw [← isNamed, isNamed'] at held
        have free := sole _ isCall _ rfl held
        have tracked := waits.tracked waiter w found isOpen
        rw [← isNamed, isNamed', free] at tracked
        cases tracked
    · rw [others w.agentId held] at reported
      exact waits.running waiter w found isOpen nofun status reported
  subst same
  cases spawn with
  | ok | error => exact waits.of_running rfl rfl rfl rfl running

theorem step_waits {label : SwarmLabel} (named : Named c) (waits : Waits c none)
    (sole : SoleWaiter c label) (next : c.step label = some c') :
    Waits c' none ∧ Resolves c c' := by
  have same : Waits c none ∧ Resolves c c := waits.of_status rfl rfl rfl rfl fun _ => rfl
  have handled : ∀ handle, Waits handle none ∧ Resolves c handle →
      Waits (c.subscribed handle) none ∧ Resolves c (c.subscribed handle) := by
    intro handle holds
    rw [subscribed]
    split
    · exact same
    · exact holds
  have event : ∀ subagentId update, Waits (c.onMember subagentId update) none ∧
      Resolves c (c.onMember subagentId update) := by
    intro subagentId update
    obtain ⟨waits', progress⟩ := waits.onMember named subagentId update
    exact ⟨waits', progress.resolves waits'⟩
  cases label with
  | registerMember memberId spec agentId =>
    cases next
    refine waits.of_running rfl rfl rfl rfl fun waiter w found isOpen status reported => ?_
    by_cases new : w.agentId = memberId
    · rw [new, status?_registerMember] at reported
      cases reported
      rfl
    · rw [status?_registerMember_ne named spec agentId new] at reported
      exact waits.running waiter w found isOpen (Option.some_ne_none _) status reported
  | spawned subagentId =>
    cases next
    refine handled _ ?_
    have statuses := status?_onSpawned c subagentId
    rw [onSpawned] at statuses ⊢
    split at statuses
    · exact waits.of_status rfl rfl rfl rfl statuses
    · exact same
  | started subagentId | suspended subagentId | completed subagentId =>
    cases next
    exact handled _ (event subagentId _)
  | failed subagentId error =>
    cases next
    refine handled _ ?_
    obtain ⟨waits', progress⟩ := waits.onMember named subagentId (·.fail error)
    rw [onFailed]
    split
    · exact ⟨waits'.frame rfl rfl rfl rfl waits'.running, progress.resolves waits'⟩
    · exact ⟨waits', progress.resolves waits'⟩
  | cancelAll =>
    cases next
    rw [cancelAll]
    split
    · exact same
    · exact waits.of_status rfl rfl rfl rfl fun _ => rfl
  | cancelMembers =>
    rw [step] at next
    split at next
    · cases next
    · cases next
      obtain ⟨waits', progress⟩ := waits.cancelMembers named
      exact ⟨waits', progress.resolves waits'⟩
  | retryFailed =>
    cases next
    rw [retryFailed]
    split
    · exact same
    · split
      · exact same
      · exact waits.of_status rfl rfl rfl rfl fun _ => rfl
  | retrySettled => exact waits.retrySettled named sole next
  | awaitCompletion =>
    cases next
    exact waits.awaitCompletion sole
  | abort =>
    cases next
    exact waits.of_status rfl rfl rfl rfl fun _ => rfl
  | onAbort =>
    rw [step] at next
    split at next
    case isTrue fires =>
      cases next
      exact waits.onAbort fires.1
    case isFalse => cases next
  | dispose =>
    cases next
    exact waits.dispose

/-! ## Runs -/

/-- When each member has at most one waiter, and no retry fails while somebody waits, `dispose`
leaves no promise open, and each step resolves the promises for the members that it ends. -/
theorem waiters_settled {labels : List SwarmLabel} (run : Run step SoleWaiter {} labels c) :
    Settled c ∧ ∀ label c', SoleWaiter c label → c.step label = some c' → Resolves c c' := by
  obtain ⟨named, waits⟩ := run.invariant (fun c => Named c ∧ Waits c none) ⟨named_init, waits_init⟩
    fun _ _ _ holds sole next =>
      ⟨step_named holds.1 next, (step_waits holds.1 holds.2 sole next).1⟩
  exact ⟨waits.settled, fun label c' sole next => (step_waits named waits sole next).2⟩

/-- One member completes, and one is still running when the swarm is disposed. -/
def completedAndDisposed : List SwarmLabel :=
  [.registerMember "a" (.spawn 1 "x" "do x") (some "a"),
    .registerMember "b" (.spawn 2 "y" "do y") (some "b"), .awaitCompletion "a" (some 1),
    .awaitCompletion "b" (some 1), .started "a", .completed "a" (some "done"), .dispose]

theorem waiters_settled_disposed : ∃ c,
    exec (guarded step SoleWaiter) {} completedAndDisposed = some c ∧
    c.waiters.map (·.settlement) =
      [some (.resolved (some (.summary "done"))), some .disposed] ∧
    Settled c ∧ ∀ label c', SoleWaiter c label → c.step label = some c' → Resolves c c' := by
  have run : exec (guarded step SoleWaiter) {} completedAndDisposed = some _ := rfl
  exact ⟨_, run, by decide, waiters_settled (.of_exec run)⟩

/-- The second of two waiters for one member overwrites the first, which `dispose` leaves open. -/
theorem secondWaiter_hangs : ¬∀ labels c, Run step Always {} labels c → Settled c := by
  intro settled
  have run : exec (guarded step Always) {}
      [.registerMember "a" (.spawn 1 "x" "do x") (some "a"), .awaitCompletion "a" none,
        .awaitCompletion "a" none, .completed "a" (some "done"), .dispose] = some _ := rfl
  obtain ⟨w, found, isSettled⟩ := (settled _ _ (.of_exec run)).disposed _ _ rfl 0 (by decide)
  cases found
  cases isSettled

end SwarmCoordinator

end KimiCli.Swarm
