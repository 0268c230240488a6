import KimiCli.OAuth.Manager

/-!
# Calls of `ensureFresh`

Which refresh a call waits for, over all runs.
-/

namespace KimiCli

namespace OAuthWorld

/-- A call waits for a refresh that is as forced as itself. -/
def CallOk (w : OAuthWorld) (call : EnsureFresh) : Prop :=
  call.begun ≤ w.stored.length ∧
    match call.status with
    | .queued _ => True
    | .awaiting i joined => ∃ refresh, w.refreshes[i]? = some refresh ∧
        (call.force = true → refresh.force = true) ∧
        (joined = false → call.begun ≤ refresh.begun)

structure CallsOk (w : OAuthWorld) : Prop where
  calls : ∀ call ∈ w.calls, w.CallOk call
  slots : ∀ manager i, w.inFlightRefresh manager = some i → i < w.refreshes.length

variable {w w' : OAuthWorld} {refreshThreshold : ℤ → ℤ} {i : ℕ} {refresh : Refresh}
  {token : TokenInfo}

theorem getElem?_append {more : List Refresh} (found : w.refreshes[i]? = some refresh) :
    (w.refreshes ++ more)[i]? = some refresh :=
  (List.getElem?_append_left (List.getElem?_eq_some_iff.1 found).1).trans found

/-! ## Steps -/

/-- A refresh stays that of the calls which wait for it. -/
structure Carries (w : OAuthWorld) (i : ℕ) (refresh : Refresh) (w' : OAuthWorld) : Prop where
  refreshes : ∃ next, w'.refreshes = w.refreshes.set i next ∧ next.force = refresh.force ∧
    next.begun = refresh.begun
  calls : w'.calls = w.calls
  stored : w.stored.length ≤ w'.stored.length
  slots : ∀ manager j, w'.inFlightRefresh manager = some j → w.inFlightRefresh manager = some j

variable {outcome : RefreshOutcome}

theorem carries_settle {lock : Option ℕ} :
    Carries w i refresh (({ w with lock } : OAuthWorld).settle i refresh outcome) := by
  refine ⟨⟨_, rfl, rfl, rfl⟩, rfl, Nat.le_refl _, fun manager j slot => ?_⟩
  unfold OAuthWorld.settle at slot
  dsimp only at slot
  split at slot
  · by_cases eq : manager = refresh.manager
    · rw [eq, Function.update_self] at slot
      cases slot
    · rwa [Function.update_of_ne eq] at slot
  · exact slot

theorem carries_setRefresh {phase : RefreshPhase} {origin : ℕ} :
    Carries w i refresh (w.setRefresh i { refresh with phase, origin }) :=
  ⟨⟨_, rfl, rfl, rfl⟩, rfl, Nat.le_refl _, fun _ _ slot => slot⟩

theorem carries_request {origin : ℕ} : Carries w i refresh (w.request i refresh token origin) := by
  unfold OAuthWorld.request
  split
  · exact carries_setRefresh
  · have moved : Carries w i refresh
        (w.setRefresh i { refresh with phase := .requesting token, origin }) := carries_setRefresh
    exact { moved with }

theorem Moves.carries {next : RefreshStep} (moves : Moves refreshThreshold w i refresh next w') :
    Carries w i refresh w' := by
  cases moves with
  | load =>
    unfold OAuthWorld.load
    split
    · exact carries_settle
    · exact carries_settle
    · split
      · exact carries_setRefresh
      · exact carries_settle
  | lock token phase =>
    have moved : Carries w i refresh (w.setRefresh i { refresh with phase := .rereading token }) :=
      carries_setRefresh
    exact { moved with }
  | lockFails | release => exact carries_settle
  | reread =>
    unfold OAuthWorld.reread
    split
    · exact carries_setRefresh
    · exact carries_request
    · dsimp only
      split
      · exact carries_setRefresh
      split
      · exact carries_setRefresh
      · exact carries_request
  | accept | fails => exact carries_setRefresh
  | reject activeToken phase =>
    have moved : Carries w i refresh
        (w.setRefresh i { refresh with phase := .recovering activeToken }) := carries_setRefresh
    exact { moved with }
  | save refreshed =>
    refine ⟨⟨_, rfl, rfl, rfl⟩, rfl, ?_, fun _ _ slot => slot⟩
    exact (List.prefix_append w.stored [refreshed]).length_le
  | recover =>
    unfold OAuthWorld.recover
    split
    · split <;> exact carries_setRefresh
    · exact carries_setRefresh
    · exact carries_setRefresh
  | tombstone =>
    exact ⟨⟨_, rfl, rfl, rfl⟩, rfl, Nat.le_refl _, fun _ _ slot => slot⟩

theorem CallsOk.carries (ok : w.CallsOk) (found : w.refreshes[i]? = some refresh)
    (carries : Carries w i refresh w') : w'.CallsOk := by
  obtain ⟨next, refreshes, force, begun⟩ := carries.refreshes
  refine ⟨fun call mem => ?_, fun manager j slot => ?_⟩
  · rw [carries.calls] at mem
    obtain ⟨bound, status⟩ := ok.calls call mem
    refine ⟨Nat.le_trans bound carries.stored, ?_⟩
    split
    · trivial
    · next j joined eq =>
      rw [eq] at status
      obtain ⟨other, found', forced, since⟩ := status
      rw [refreshes]
      by_cases same : j = i
      · subst same
        cases found.symm.trans found'
        refine ⟨next, List.getElem?_set_self (List.getElem?_eq_some_iff.1 found).1, ?_, ?_⟩
        · rwa [force]
        · rwa [begun]
      · exact ⟨other, (List.getElem?_set_ne (Ne.symm same)).trans found', forced, since⟩
  · rw [refreshes, List.length_set]
    exact ok.slots manager j (carries.slots manager j slot)

theorem CallsOk.ensureFresh (ok : w.CallsOk) (manager : ℕ) (force : Bool) {begun : ℕ}
    (le : begun ≤ w.stored.length) {calls : List EnsureFresh}
    (among : ∀ call ∈ calls, call ∈ w.calls ∨
      call = { manager, force, begun, status := (w.ensureFresh manager force).2 }) :
    ({ (w.ensureFresh manager force).1 with calls } : OAuthWorld).CallsOk := by
  unfold OAuthWorld.ensureFresh at among ⊢
  split at among
  · next current slot =>
    have bound := ok.slots manager current slot
    have found : w.refreshes[current]? = some w.refreshes[current] :=
      List.getElem?_eq_getElem bound
    refine ⟨fun call mem => ?_, ?_⟩
    · split at among
      · next joins =>
        rw [if_pos joins]
        rcases among call mem with old | rfl
        · exact ok.calls call old
        · refine ⟨le, _, found, fun forced => ?_, fun no => nomatch no⟩
          rw [show force = true from forced, found] at joins
          exact joins
      · next queues =>
        rw [if_neg queues]
        rcases among call mem with old | rfl
        · exact ok.calls call old
        · exact ⟨le, trivial⟩
    · split <;> exact ok.slots
  · refine ⟨fun call mem => ?_, fun manager' j slot => ?_⟩
    · rcases among call mem with old | rfl
      · obtain ⟨bound, status⟩ := ok.calls call old
        refine ⟨bound, ?_⟩
        split
        · trivial
        · next j joined eq =>
          rw [eq] at status
          obtain ⟨other, found, same⟩ := status
          exact ⟨other, getElem?_append found, same⟩
      · exact ⟨le, _, List.getElem?_concat_length, fun forced => forced, fun _ => le⟩
    · dsimp only at slot ⊢
      rw [List.length_append, List.length_singleton]
      by_cases eq : manager' = manager
      · rw [eq, Function.update_self] at slot
        cases slot
        omega
      · rw [Function.update_of_ne eq] at slot
        have old := ok.slots manager' j slot
        omega

theorem step_callsOk {label : OAuthStep} (ok : w.CallsOk)
    (next : w.step refreshThreshold label = some w') : w'.CallsOk := by
  cases label with
  | ensureFresh manager force =>
    cases next
    refine ok.ensureFresh manager force (Nat.le_refl _) fun call mem => ?_
    rcases List.mem_append.1 mem with old | last
    · exact .inl old
    · exact .inr (List.mem_singleton.1 last)
  | retry call =>
    simp only [step] at next
    split at next
    case h_2 => cases next
    case h_1 manager force begun j found =>
      split at next
      case isFalse => cases next
      case isTrue =>
        cases next
        exact ok.ensureFresh manager force (ok.calls _ (List.mem_of_getElem? found)).1
          fun call mem => List.mem_or_eq_of_mem_set mem
  | refresh =>
    obtain ⟨refresh, found, next⟩ := Option.bind_eq_some_iff.1 next
    exact ok.carries found (moves_of_step next).carries
  | login token =>
    cases next
    refine ⟨fun call mem => ?_, ok.slots⟩
    obtain ⟨bound, status⟩ := ok.calls call mem
    exact ⟨Nat.le_trans bound (List.prefix_append w.stored [token]).length_le, status⟩
  | logout =>
    cases next
    exact { ok with }

/-! ## Results -/

/-- What the call has settled to. -/
def result (w : OAuthWorld) (call : EnsureFresh) : Option RefreshOutcome :=
  match call.status with
  | .queued _ => none
  | .awaiting i _ => w.outcome i

/-- How many tokens had been stored when the call began, or when the refresh began which it has
joined. -/
def since (w : OAuthWorld) (call : EnsureFresh) : ℕ :=
  match call.status with
  | .awaiting i true => (w.refreshes[i]?.map (·.begun)).getD call.begun
  | _ => call.begun

theorem outcome_eq_some (settled : w.outcome i = some outcome) :
    ∃ refresh, w.refreshes[i]? = some refresh ∧ refresh.phase = .settled outcome := by
  obtain ⟨refresh, found, eq⟩ := Option.bind_eq_some_iff.1 settled
  split at eq
  · next phase => exact ⟨refresh, found, Option.some.inj eq ▸ phase⟩
  · cases eq

theorem CallsOk.settled {call : EnsureFresh} (ok : w.CallsOk) (mem : call ∈ w.calls)
    (settled : w.result call = some outcome) :
    ∃ i : ℕ, ∃ refresh, w.refreshes[i]? = some refresh ∧ refresh.phase = .settled outcome ∧
      (call.force = true → refresh.force = true) ∧ w.since call ≤ refresh.begun := by
  obtain ⟨-, status⟩ := ok.calls call mem
  unfold result at settled
  unfold since
  split at settled
  · cases settled
  · next i joined eq =>
    rw [eq] at status ⊢
    obtain ⟨refresh, found, forced, begun⟩ := status
    obtain ⟨other, found', phase⟩ := outcome_eq_some settled
    cases found.symm.trans found'
    refine ⟨i, refresh, found, phase, forced, ?_⟩
    cases joined with
    | false => exact begun rfl
    | true =>
      dsimp only
      rw [found]
      exact Nat.le_refl _

end OAuthWorld

end KimiCli
