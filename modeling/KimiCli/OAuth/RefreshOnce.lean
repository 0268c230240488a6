import KimiCli.OAuth.Calls
import KimiCli.OAuth.LastWord

/-!
# Refreshes under the lock

With the lock and a server that accepts each refresh token once, no refresh token is sent twice.
-/

namespace KimiCli

/-- The refresh holds the lock. -/
def RefreshPhase.locked : RefreshPhase → Bool
  | .loading | .locking _ | .settled _ => false
  | _ => true

/-- The refresh has read the storage under the lock, and may still write to it. -/
def RefreshPhase.writes : RefreshPhase → Bool
  | .requesting _ | .saving _ | .recovering _ | .tombstoning _ => true
  | _ => false

/-- Neither of its tokens is empty. -/
def TokenInfo.Whole (token : TokenInfo) : Prop := token.accessToken ≠ "" ∧ token.refreshToken ≠ ""

namespace OAuthWorld

/-- No login, no logout and no failed request or write; and the server answers with a token that is
new. -/
def Served (w : OAuthWorld) : OAuthStep → Prop
  | .refresh _ (.accept answer) => answer.Whole ∧ answer.refreshToken ∉ w.sent
  | .refresh _ .requestFails | .refresh _ .saveFails | .login _ | .logout => False
  | _ => True

/-- The token that was stored last is in the storage. -/
def Live (w : OAuthWorld) (token : TokenInfo) : Prop :=
  w.stored.getLast? = some token ∧ w.storage = some token

/-- The token that was stored last was rejected, and the storage holds its tombstone. -/
def Revoked (w : OAuthWorld) : Prop :=
  ∃ token, w.stored.getLast? = some token ∧ token.refreshToken ∈ w.rejected ∧
    w.storage = some (revokedTombstone token)

def OutcomeOk (w : OAuthWorld) (refresh : Refresh) : RefreshOutcome → Prop
  | .resolved accessToken => ∃ k token, w.stored[k]? = some token ∧
      token.accessToken = accessToken ∧ (refresh.force = true → refresh.begun ≤ k)
  | .unauthorized => w.Revoked
  | .failed => True

def PhaseOk (w : OAuthWorld) (refresh : Refresh) : RefreshPhase → Prop
  | .loading => True
  | .locking token | .rereading token => ∃ k, w.stored[k]? = some token ∧ refresh.begun ≤ k + 1
  | .requesting activeToken => w.Live activeToken
  | .saving refreshed => refreshed.Whole ∧ refreshed.refreshToken ∉ w.sent ∧ ∃ token, w.Live token
  | .recovering activeToken | .tombstoning activeToken =>
    w.Live activeToken ∧ activeToken.refreshToken ∈ w.rejected
  | .releasing outcome | .settled outcome => w.OutcomeOk refresh outcome

structure Inv (w : OAuthWorld) : Prop where
  enabled : w.lockEnabled = true
  sent : w.sent.Nodup
  whole : ∀ token ∈ w.stored, token.Whole
  storage : w.Revoked ∨ ∃ token, w.Live token
  exclusive : ∀ (i : ℕ) refresh, w.refreshes[i]? = some refresh → refresh.phase.locked = true →
    w.lock = some i
  /-- The live token was sent only by a refresh that has yet to write. -/
  unsent : ∀ token, w.Live token → token.refreshToken ∈ w.sent →
    ∃ i : ℕ, ∃ refresh, w.refreshes[i]? = some refresh ∧ refresh.phase.writes = true
  phases : ∀ (i : ℕ) refresh, w.refreshes[i]? = some refresh →
    refresh.begun ≤ w.stored.length ∧ w.PhaseOk refresh refresh.phase

variable {w w' : OAuthWorld} {refreshThreshold : ℤ → ℤ} {i j : ℕ} {refresh other : Refresh}
  {token : TokenInfo}

variable {phase : RefreshPhase} {next : Refresh} {labels : List OAuthStep}
  {storage : Option TokenInfo}

theorem locked_of_writes (writes : phase.writes = true) :
    phase.locked = true := by
  cases phase <;> first | rfl | cases writes

/-! ## The stored record -/

theorem Inv.whole_live (inv : w.Inv) (live : w.Live token) : token.Whole :=
  inv.whole token (List.mem_of_getLast? live.1)

theorem Inv.classify_live (inv : w.Inv) (live : w.Live token) :
    classifyToken w.storage = .valid token := by
  rw [live.2, classifyToken, if_neg (inv.whole_live live).1]

theorem Revoked.classify (revoked : w.Revoked) :
    ∃ scope tokenType, classifyToken w.storage = .revoked scope tokenType := by
  obtain ⟨token, -, -, storage⟩ := revoked
  rw [storage]
  exact ⟨_, _, rfl⟩

theorem Inv.classify (inv : w.Inv) :
    (w.Revoked ∧ ∃ scope tokenType, classifyToken w.storage = .revoked scope tokenType) ∨
      ∃ token, w.Live token ∧ classifyToken w.storage = .valid token := by
  rcases inv.storage with revoked | ⟨token, live⟩
  · exact .inl ⟨revoked, revoked.classify⟩
  · exact .inr ⟨token, live, inv.classify_live live⟩

theorem Inv.not_revoked (inv : w.Inv) (live : w.Live token) : ¬ w.Revoked := by
  intro revoked
  obtain ⟨scope, tokenType, eq⟩ := revoked.classify
  rw [inv.classify_live live] at eq
  cases eq

theorem Live.getElem? (live : w.Live token) :
    w.stored[w.stored.length - 1]? = some token ∧ 0 < w.stored.length := by
  have last := live.1
  rw [List.getLast?_eq_getElem?] at last
  refine ⟨last, Nat.pos_of_ne_zero fun empty => ?_⟩
  rw [List.length_eq_zero_iff.1 empty] at last
  cases last

/-! ## Frames -/

theorem Inv.alone (inv : w.Inv) (found : w.refreshes[i]? = some refresh)
    (locked : refresh.phase.locked = true) (found' : w.refreshes[j]? = some other) (ne : j ≠ i) :
    other.phase.locked = false := by
  refine Bool.eq_false_iff.2 fun locked' => ne ?_
  have own := inv.exclusive i refresh found locked
  rw [inv.exclusive j other found' locked'] at own
  exact Option.some.inj own

/-- What has been stored stays so, and a revoked credential stays revoked. -/
structure Grows (w w' : OAuthWorld) : Prop where
  stored : w.stored <+: w'.stored
  revoked : w.Revoked → w'.Revoked

theorem Grows.getElem? (grows : w.Grows w') {k : ℕ} (found : w.stored[k]? = some token) :
    w'.stored[k]? = some token := by
  obtain ⟨more, eq⟩ := grows.stored
  rw [← eq, List.getElem?_append_left (List.getElem?_eq_some_iff.1 found).1]
  exact found

theorem PhaseOk.mono (ok : w.PhaseOk refresh phase) (grows : w.Grows w')
    (unlocked : phase.locked = false) : w'.PhaseOk refresh phase := by
  cases phase with
  | loading => trivial
  | locking =>
    obtain ⟨k, found, le⟩ := ok
    exact ⟨k, grows.getElem? found, le⟩
  | settled outcome =>
    cases outcome with
    | resolved =>
      obtain ⟨k, token, found, same, le⟩ := ok
      exact ⟨k, token, grows.getElem? found, same, le⟩
    | unauthorized => exact grows.revoked ok
    | failed => trivial
  | _ => cases unlocked

/-- A refresh goes on as `next`. -/
structure Advance (w : OAuthWorld) (i : ℕ) (refresh next : Refresh) (w' : OAuthWorld) : Prop where
  refreshes : w'.refreshes = w.refreshes.set i next
  begun : next.begun = refresh.begun
  enabled : w'.lockEnabled = w.lockEnabled
  own : next.phase.locked = true → w'.lock = some i
  others : ∀ j ≠ i, w.lock = some j → w'.lock = some j
  grows : w.Grows w'
  sent : w'.sent.Nodup
  whole : ∀ token ∈ w'.stored, token.Whole
  storage : w'.Revoked ∨ ∃ token, w'.Live token
  unsent : next.phase.writes = true ∨ ∀ token, w'.Live token → token.refreshToken ∈ w'.sent →
    w.Live token ∧ token.refreshToken ∈ w.sent ∧ refresh.phase.writes = false
  ok : w'.PhaseOk next next.phase
  frame : ∀ j ≠ i, ∀ other, w.refreshes[j]? = some other → w'.PhaseOk other other.phase

theorem Inv.advance (inv : w.Inv) (found : w.refreshes[i]? = some refresh)
    (advance : Advance w i refresh next w') : w'.Inv := by
  have bound : i < w.refreshes.length := (List.getElem?_eq_some_iff.1 found).1
  have self : w'.refreshes[i]? = some next := by
    rw [advance.refreshes, List.getElem?_set_self bound]
  have rest : ∀ j, j ≠ i → w'.refreshes[j]? = w.refreshes[j]? := fun j ne => by
    rw [advance.refreshes, List.getElem?_set_ne (Ne.symm ne)]
  have longer : w.stored.length ≤ w'.stored.length := advance.grows.stored.length_le
  refine ⟨advance.enabled.trans inv.enabled, advance.sent, advance.whole, advance.storage,
    fun j other found' locked => ?_, fun token live mem => ?_, fun j other found' => ?_⟩
  · by_cases eq : j = i
    · subst eq
      cases self.symm.trans found'
      exact advance.own locked
    · exact advance.others j eq (inv.exclusive j other (rest j eq ▸ found') locked)
  · rcases advance.unsent with writes | back
    · exact ⟨i, next, self, writes⟩
    · obtain ⟨live, mem, quiet⟩ := back token live mem
      obtain ⟨j, other, found', writes⟩ := inv.unsent token live mem
      have ne : j ≠ i := by
        rintro rfl
        cases found.symm.trans found'
        rw [quiet] at writes
        cases writes
      exact ⟨j, other, (rest j ne).trans found', writes⟩
  · by_cases eq : j = i
    · subst eq
      cases self.symm.trans found'
      rw [advance.begun]
      exact ⟨Nat.le_trans (inv.phases j refresh found).1 longer, advance.ok⟩
    · rw [rest j eq] at found'
      exact ⟨Nat.le_trans (inv.phases j other found').1 longer, advance.frame j eq other found'⟩

theorem Inv.proceed {lock : Option ℕ} {inFlightRefresh : ℕ → Option ℕ} (inv : w.Inv)
    (found : w.refreshes[i]? = some refresh) (begun : next.begun = refresh.begun)
    (own : next.phase.locked = true → lock = some i)
    (others : ∀ j ≠ i, w.lock = some j → lock = some j)
    (writes : refresh.phase.writes = true → next.phase.writes = true)
    (ok : w.PhaseOk next next.phase) :
    ({ w with refreshes := w.refreshes.set i next, lock, inFlightRefresh } : OAuthWorld).Inv := by
  refine inv.advance found ⟨rfl, begun, rfl, own, others,
    ⟨List.prefix_rfl, fun revoked => revoked⟩, inv.sent, inv.whole, inv.storage, ?_, ok,
    fun j _ other found' => (inv.phases j other found').2⟩
  by_cases quiet : refresh.phase.writes = true
  · exact .inl (writes quiet)
  · exact .inr fun token live mem => ⟨live, mem, Bool.eq_false_iff.2 quiet⟩

theorem Inv.setRefresh (inv : w.Inv) (found : w.refreshes[i]? = some refresh)
    (begun : next.begun = refresh.begun)
    (locked : next.phase.locked = true → refresh.phase.locked = true)
    (writes : refresh.phase.writes = true → next.phase.writes = true)
    (ok : w.PhaseOk next next.phase) : (w.setRefresh i next).Inv :=
  inv.proceed found begun (fun holds => inv.exclusive i refresh found (locked holds))
    (fun _ _ held => held) writes ok

theorem Inv.settle {outcome : RefreshOutcome} {lock : Option ℕ} (inv : w.Inv)
    (found : w.refreshes[i]? = some refresh) (quiet : refresh.phase.writes = false)
    (others : ∀ j ≠ i, w.lock = some j → lock = some j) (ok : w.OutcomeOk refresh outcome) :
    (({ w with lock } : OAuthWorld).settle i refresh outcome).Inv := by
  refine inv.proceed found rfl (fun no => nomatch no) others (fun writes => ?_) ok
  rw [quiet] at writes
  cases writes

/-! ## The steps of a refresh -/

theorem not_forced {force : Bool} {now : ℤ}
    (kept : shouldRefreshToken refreshThreshold token force now = false) : force = false := by
  cases force with
  | false => rfl
  | true => cases kept

theorem Inv.notMem_sent (inv : w.Inv) (found : w.refreshes[i]? = some refresh)
    (locked : refresh.phase.locked = true) (quiet : refresh.phase.writes = false)
    (live : w.Live token) : token.refreshToken ∉ w.sent := by
  intro mem
  obtain ⟨j, other, found', writes⟩ := inv.unsent token live mem
  by_cases eq : j = i
  · subst eq
    cases found.symm.trans found'
    rw [quiet] at writes
    cases writes
  · have unlocked := inv.alone found locked found' eq
    rw [locked_of_writes writes] at unlocked
    cases unlocked

/-- What the lock protects may change under the other refreshes. -/
theorem Inv.frame (inv : w.Inv) (found : w.refreshes[i]? = some refresh)
    (locked : refresh.phase.locked = true) (grows : w.Grows w') :
    ∀ j ≠ i, ∀ other, w.refreshes[j]? = some other → w'.PhaseOk other other.phase :=
  fun j ne other found' =>
    (inv.phases j other found').2.mono grows (inv.alone found locked found' ne)

theorem Inv.load (inv : w.Inv) (found : w.refreshes[i]? = some refresh)
    (phase : refresh.phase = .loading) (now : ℤ) :
    (w.load refreshThreshold i refresh now).Inv := by
  have quiet : refresh.phase.writes = false := by rw [phase]; rfl
  have begun := (inv.phases i refresh found).1
  unfold OAuthWorld.load
  rcases inv.classify with ⟨revoked, scope, tokenType, eq⟩ | ⟨token, live, eq⟩
  · rw [eq]
    exact inv.settle found quiet (fun _ _ held => held) revoked
  obtain ⟨last, pos⟩ := live.getElem?
  rw [eq]
  dsimp only
  split
  · refine inv.setRefresh found rfl (fun no => nomatch no) (fun writes => ?_) ?_
    · rw [quiet] at writes
      cases writes
    · exact ⟨_, last, by dsimp only; omega⟩
  · next kept =>
    refine inv.settle found quiet (fun _ _ held => held) ⟨_, token, last, rfl, fun forced => ?_⟩
    rw [not_forced (Bool.eq_false_iff.2 kept)] at forced
    cases forced

theorem Inv.request {origin : ℕ} (inv : w.Inv) (found : w.refreshes[i]? = some refresh)
    (phase : refresh.phase = .rereading token) {active : TokenInfo} (live : w.Live active) :
    (w.request i refresh active origin).Inv := by
  have locked : refresh.phase.locked = true := by rw [phase]; rfl
  have grows : w.Grows { w with sent := w.sent ++ [active.refreshToken] } :=
    ⟨List.prefix_rfl, fun revoked => revoked⟩
  have fresh := inv.notMem_sent found locked (by rw [phase]; rfl) live
  unfold OAuthWorld.request
  rw [if_neg (inv.whole_live live).2]
  refine inv.advance found ⟨rfl, rfl, rfl,
    fun _ => inv.exclusive i refresh found locked, fun _ _ held => held,
    ⟨grows.stored, grows.revoked⟩, ?_, inv.whole, inv.storage, .inl rfl, live, ?_⟩
  · exact List.nodup_append.2 ⟨inv.sent, List.pairwise_singleton _ _, fun sent mem last single => by
      rw [List.mem_singleton.1 single]
      exact fun same => fresh (same ▸ mem)⟩
  · exact inv.frame found locked ⟨grows.stored, grows.revoked⟩

theorem Inv.reread (inv : w.Inv) (found : w.refreshes[i]? = some refresh)
    (phase : refresh.phase = .rereading token) (now : ℤ) :
    (w.reread refreshThreshold i refresh token now).Inv := by
  have locked : refresh.phase.locked = true := by rw [phase]; rfl
  have goesOn : ∀ outcome, w.OutcomeOk refresh outcome →
      (w.setRefresh i { refresh with phase := .releasing outcome }).Inv := fun outcome ok =>
    inv.setRefresh found rfl (fun _ => locked)
      (fun writes => by rw [phase] at writes; cases writes) ok
  unfold OAuthWorld.reread
  rcases inv.classify with ⟨revoked, scope, tokenType, eq⟩ | ⟨after, live, eq⟩
  · rw [eq]
    exact goesOn _ revoked
  obtain ⟨last, pos⟩ := live.getElem?
  rw [eq]
  dsimp only
  split
  · next kept =>
    refine goesOn _ ⟨_, after, last, rfl, fun forced => ?_⟩
    rw [Bool.not_eq_true'] at kept
    rw [not_forced kept] at forced
    cases forced
  split
  · next changed =>
    refine goesOn _ ⟨_, after, last, rfl, fun _ => ?_⟩
    have old := (inv.phases i refresh found).2
    rw [phase] at old
    obtain ⟨k, read, begun⟩ := old
    -- the token that was read before is not the last one
    have ne : k ≠ w.stored.length - 1 := by
      rintro rfl
      cases read.symm.trans last
      rcases changed.2 with no | no | no | no <;> exact no rfl
    have bound := (List.getElem?_eq_some_iff.1 read).1
    omega
  · exact inv.request found phase live

theorem Inv.reject (inv : w.Inv) (found : w.refreshes[i]? = some refresh)
    (phase : refresh.phase = .requesting token) :
    ({ w with rejected := w.rejected ++ [token.refreshToken] }.setRefresh i
      { refresh with phase := .recovering token }).Inv := by
  have locked : refresh.phase.locked = true := by rw [phase]; rfl
  have live := (inv.phases i refresh found).2
  rw [phase] at live
  have revoked : w.Revoked → ({ w with rejected := w.rejected ++ [token.refreshToken] } :
      OAuthWorld).Revoked := fun ⟨prior, last, mem, storage⟩ =>
    ⟨prior, last, List.mem_append_left _ mem, storage⟩
  exact inv.advance found ⟨rfl, rfl, rfl,
    fun _ => inv.exclusive i refresh found locked, fun _ _ held => held,
    ⟨List.prefix_rfl, revoked⟩, inv.sent, inv.whole, .inr ⟨token, live⟩, .inl rfl,
    ⟨live, List.mem_append_right _ (List.mem_singleton_self _)⟩,
    inv.frame found locked ⟨List.prefix_rfl, revoked⟩⟩

theorem Inv.save {refreshed : TokenInfo} (inv : w.Inv) (found : w.refreshes[i]? = some refresh)
    (phase : refresh.phase = .saving refreshed) :
    ({ w with
      storage := some refreshed
      stored := w.stored ++ [refreshed]
      storedEpoch := refresh.origin }.setRefresh i
        { refresh with phase := .releasing (.resolved refreshed.accessToken) }).Inv := by
  have locked : refresh.phase.locked = true := by rw [phase]; rfl
  obtain ⟨begun, ok⟩ := inv.phases i refresh found
  rw [phase] at ok
  obtain ⟨whole, fresh, prior, live⟩ := ok
  refine inv.advance found ⟨rfl, rfl, rfl,
    fun _ => inv.exclusive i refresh found locked, fun _ _ held => held, ?grows, inv.sent,
    fun token mem => ?_, .inr ⟨refreshed, List.getLast?_concat, rfl⟩, .inr ?_,
    ⟨w.stored.length, refreshed, List.getElem?_concat_length, rfl, fun _ => begun⟩,
    inv.frame found locked ?grows⟩
  · exact ⟨List.prefix_append _ _, fun revoked => absurd revoked (inv.not_revoked live)⟩
  · rcases List.mem_append.1 mem with old | new
    · exact inv.whole token old
    · exact List.mem_singleton.1 new ▸ whole
  · intro token live' mem
    obtain rfl : refreshed = token := Option.some.inj live'.2
    exact absurd mem fresh

theorem Inv.recover (inv : w.Inv) (found : w.refreshes[i]? = some refresh)
    (phase : refresh.phase = .recovering token) : (w.recover i refresh token).Inv := by
  have ok := (inv.phases i refresh found).2
  rw [phase] at ok
  unfold OAuthWorld.recover
  rw [inv.classify_live ok.1]
  dsimp only
  rw [if_neg (not_not.2 rfl)]
  exact inv.setRefresh found rfl (fun _ => by rw [phase]; rfl) (fun _ => rfl) ok

theorem Inv.tombstone (inv : w.Inv) (found : w.refreshes[i]? = some refresh)
    (phase : refresh.phase = .tombstoning token) :
    ({ w with
      storage := some (revokedTombstone token)
      storedEpoch := refresh.origin }.setRefresh i
        { refresh with phase := .releasing .unauthorized }).Inv := by
  have locked : refresh.phase.locked = true := by rw [phase]; rfl
  have ok := (inv.phases i refresh found).2
  rw [phase] at ok
  obtain ⟨live, rejected⟩ := ok
  have revoked : ({ w with
      storage := some (revokedTombstone token)
      storedEpoch := refresh.origin } : OAuthWorld).Revoked := ⟨token, live.1, rejected, rfl⟩
  refine inv.advance found ⟨rfl, rfl, rfl,
    fun _ => inv.exclusive i refresh found locked, fun _ _ held => held,
    ⟨List.prefix_rfl, fun _ => revoked⟩, inv.sent, inv.whole, .inl revoked, .inr ?_, revoked,
    inv.frame found locked ⟨List.prefix_rfl, fun _ => revoked⟩⟩
  intro token' live' mem
  -- a tombstone is no token that was stored
  obtain rfl : revokedTombstone token = token' := Option.some.inj live'.2
  exact absurd rfl (inv.whole _ (List.mem_of_getLast? live'.1)).1

theorem Inv.moves {next : RefreshStep} (inv : w.Inv) (found : w.refreshes[i]? = some refresh)
    (served : w.Served (.refresh i next)) (moves : Moves refreshThreshold w i refresh next w') :
    w'.Inv := by
  obtain ⟨begun, ok⟩ := inv.phases i refresh found
  cases moves with
  | load now phase => exact inv.load found phase now
  | lock token phase free =>
    rw [phase] at ok
    refine inv.proceed found rfl (fun _ => ?_) (fun j _ held => ?_)
      (fun writes => ?_) ok
    · rw [if_pos inv.enabled]
    · rw [free inv.enabled] at held
      cases held
    · rw [phase] at writes
      cases writes
  | lockFails token phase =>
    exact inv.settle found (by rw [phase]; rfl) (fun _ _ held => held) trivial
  | reread token now phase => exact inv.reread found phase now
  | accept activeToken answer phase =>
    rw [phase] at ok
    exact inv.setRefresh found rfl (fun _ => by rw [phase]; rfl) (fun _ => rfl)
      ⟨served.1, served.2, activeToken, ok⟩
  | reject activeToken phase => exact inv.reject found phase
  | save refreshed phase => exact inv.save found phase
  | recover activeToken phase => exact inv.recover found phase
  | tombstone activeToken phase => exact inv.tombstone found phase
  | fails next failing => rcases failing with rfl | rfl <;> exact served.elim
  | release outcome phase =>
    rw [phase] at ok
    refine inv.settle found (by rw [phase]; rfl) (fun j ne held => ?_) ok
    rw [if_neg fun own => ne (Option.some.inj (held.symm.trans own))]
    exact held

theorem Inv.begin (inv : w.Inv) (begun : Refresh) (le : begun.begun ≤ w.stored.length)
    (loading : begun.phase = .loading) :
    ({ w with refreshes := w.refreshes ++ [begun] } : OAuthWorld).Inv := by
  have cases : ∀ {j : ℕ} {other : Refresh}, (w.refreshes ++ [begun])[j]? = some other →
      w.refreshes[j]? = some other ∨ other = begun := by
    intro j other found
    by_cases lt : j < w.refreshes.length
    · exact .inl (List.getElem?_append_left lt ▸ found)
    · rw [List.getElem?_append_right (Nat.le_of_not_lt lt), List.getElem?_singleton] at found
      split at found <;> cases found
      exact .inr rfl
  refine { inv with
    exclusive := fun j other found locked => ?_
    unsent := fun token live mem => ?_
    phases := fun j other found => ?_ }
  · rcases cases found with old | rfl
    · exact inv.exclusive j other old locked
    · rw [loading] at locked
      cases locked
  · obtain ⟨j, other, found, writes⟩ := inv.unsent token live mem
    exact ⟨j, other, getElem?_append found, writes⟩
  · rcases cases found with old | rfl
    · exact inv.phases j other old
    · exact ⟨le, loading ▸ trivial⟩

theorem Inv.ensureFresh (inv : w.Inv) (manager : ℕ) (force : Bool) (calls : List EnsureFresh) :
    ({ (w.ensureFresh manager force).1 with calls } : OAuthWorld).Inv := by
  unfold OAuthWorld.ensureFresh
  split
  · split <;> exact { inv with }
  · have began := inv.begin { manager, force, begun := w.stored.length } (Nat.le_refl _) rfl
    exact { began with }

theorem step_inv {label : OAuthStep} (inv : w.Inv) (served : w.Served label)
    (next : w.step refreshThreshold label = some w') : w'.Inv := by
  cases label with
  | ensureFresh manager force =>
    cases next
    exact inv.ensureFresh manager force _
  | retry =>
    simp only [step] at next
    split at next
    case h_2 => cases next
    case h_1 =>
      split at next
      case isFalse => cases next
      case isTrue =>
        cases next
        exact inv.ensureFresh _ _ _
  | refresh =>
    obtain ⟨refresh, found, next⟩ := Option.bind_eq_some_iff.1 next
    exact inv.moves found served (moves_of_step next)
  | login => exact served.elim
  | logout => exact served.elim

/-! ## Nothing to refresh -/

def BarrenPhase (w : OAuthWorld) (refresh : Refresh) : RefreshPhase → Prop
  | .locking token | .rereading token => w.storage = some token
  | .releasing (.resolved accessToken) | .settled (.resolved accessToken) =>
    refresh.force = false ∧ ∃ token, w.storage = some token ∧ token.accessToken = accessToken
  | phase => phase.writes = false

/-- Without both tokens in the storage nothing is sent or written. -/
structure Barren (w : OAuthWorld) : Prop where
  storage : ∀ token, w.storage = some token → ¬ token.Whole
  stored : w.stored = w.storage.toList
  sent : w.sent = []
  phases : ∀ refresh ∈ w.refreshes, w.BarrenPhase refresh refresh.phase

theorem BarrenPhase.not_writes (ok : w.BarrenPhase refresh phase) :
    phase.writes = false := by
  cases phase <;> first | rfl | exact ok

theorem Barren.setRefresh (barren : w.Barren) (ok : w.BarrenPhase next next.phase) :
    (w.setRefresh i next).Barren := by
  refine { barren with phases := fun other mem => ?_ }
  rcases List.mem_or_eq_of_mem_set mem with old | rfl
  · exact barren.phases other old
  · exact ok

theorem Barren.settle {outcome : RefreshOutcome} (barren : w.Barren)
    (ok : w.BarrenPhase refresh (.settled outcome)) : (w.settle i refresh outcome).Barren := by
  have set : (w.setRefresh i { refresh with phase := .settled outcome }).Barren :=
    barren.setRefresh ok
  exact { set with }

theorem classify_valid (valid : classifyToken w.storage = .valid token) :
    w.storage = some token ∧ token.accessToken ≠ "" := by
  unfold classifyToken at valid
  split at valid
  · cases valid
  · next stored eq =>
    split at valid
    · cases valid
    · next full => exact TokenState.valid.inj valid ▸ ⟨eq, full⟩

theorem Barren.no_refreshToken (barren : w.Barren)
    (valid : classifyToken w.storage = .valid token) : token.refreshToken = "" := by
  obtain ⟨stored, full⟩ := classify_valid valid
  by_contra ne
  exact barren.storage token stored ⟨full, ne⟩

theorem Barren.reread (barren : w.Barren) (now : ℤ) (before : w.storage = some token) :
    (w.reread refreshThreshold i refresh token now).Barren := by
  unfold OAuthWorld.reread
  split
  · exact barren.setRefresh rfl
  · next missing =>
    rw [before, classifyToken] at missing
    split at missing <;> cases missing
  · next after valid =>
    obtain rfl : after = token :=
      Option.some.inj ((classify_valid valid).1.symm.trans before)
    dsimp only
    split
    · next kept =>
      rw [Bool.not_eq_true'] at kept
      exact barren.setRefresh ⟨not_forced kept, after, before, rfl⟩
    split
    · next changed => rcases changed.2 with no | no | no | no <;> exact absurd rfl no
    · unfold OAuthWorld.request
      rw [if_pos (barren.no_refreshToken valid)]
      exact barren.setRefresh rfl

theorem Barren.moves {next : RefreshStep} (barren : w.Barren) (mem : refresh ∈ w.refreshes)
    (moves : Moves refreshThreshold w i refresh next w') : w'.Barren := by
  have ok := barren.phases refresh mem
  have quiet := ok.not_writes
  cases moves with
  | load =>
    unfold OAuthWorld.load
    split
    · exact barren.settle rfl
    · exact barren.settle rfl
    · next token valid =>
      have stored := (classify_valid valid).1
      split
      · exact barren.setRefresh stored
      · next kept =>
        exact barren.settle ⟨not_forced (Bool.eq_false_iff.2 kept), token, stored, rfl⟩
  | lock token phase =>
    rw [phase] at ok
    have taken : (w.setRefresh i { refresh with phase := .rereading token }).Barren :=
      barren.setRefresh ok
    exact { taken with }
  | lockFails => exact barren.settle rfl
  | reread token now phase =>
    rw [phase] at ok
    exact barren.reread now ok
  | accept activeToken answer phase | reject activeToken phase | save refreshed phase
  | recover activeToken phase | tombstone activeToken phase => rw [phase] at quiet; cases quiet
  | fails => exact barren.setRefresh rfl
  | release outcome phase =>
    rw [phase] at ok
    have released : ({ w with lock := if w.lock = some i then none else w.lock } :
        OAuthWorld).Barren := { barren with }
    refine released.settle ?_
    cases outcome <;> exact ok

theorem Barren.ensureFresh (barren : w.Barren) (manager : ℕ) (force : Bool)
    (calls : List EnsureFresh) :
    ({ (w.ensureFresh manager force).1 with calls } : OAuthWorld).Barren := by
  unfold OAuthWorld.ensureFresh
  split
  · split <;> exact { barren with }
  · refine { barren with phases := fun refresh mem => ?_ }
    rcases List.mem_append.1 mem with old | new
    · exact barren.phases refresh old
    · obtain rfl := List.mem_singleton.1 new
      rfl

theorem step_barren {label : OAuthStep} (barren : w.Barren) (served : w.Served label)
    (next : w.step refreshThreshold label = some w') : w'.Barren := by
  cases label with
  | ensureFresh manager force =>
    cases next
    exact barren.ensureFresh manager force _
  | retry =>
    simp only [step] at next
    split at next
    case h_2 => cases next
    case h_1 =>
      split at next
      case isFalse => cases next
      case isTrue =>
        cases next
        exact barren.ensureFresh _ _ _
  | refresh =>
    obtain ⟨refresh, found, next⟩ := Option.bind_eq_some_iff.1 next
    exact barren.moves (List.mem_of_getElem? found) (moves_of_step next)
  | login => exact served.elim
  | logout => exact served.elim

/-! ## All runs -/

abbrev ServedRun (refreshThreshold : ℤ → ℤ) (initial : OAuthWorld) :
    List OAuthStep → OAuthWorld → Prop :=
  Transition.Run (step refreshThreshold) Served initial

/-- No token that can be refreshed. -/
def Unusable (storage : Option TokenInfo) : Prop := ∀ token, storage = some token → ¬ token.Whole

theorem inv_or_barren (run : ServedRun refreshThreshold (idle storage true) labels w) :
    w.Inv ∨ w.Barren ∧ Unusable storage := by
  by_cases unusable : Unusable storage
  · refine .inr ⟨run.invariant Barren ⟨unusable, rfl, rfl, ?_⟩ fun _ _ _ => step_barren, unusable⟩
    exact fun _ no => nomatch no
  · obtain ⟨token, no⟩ := not_forall.1 unusable
    obtain ⟨rfl, whole⟩ := Classical.not_imp.1 no
    refine .inl (run.invariant Inv ?_ fun _ _ _ => step_inv)
    refine ⟨rfl, List.nodup_nil, fun other mem => ?_, .inr ⟨token, rfl, rfl⟩,
      fun i refresh no => (nomatch no), fun _ _ no => (nomatch no), fun i refresh no => nomatch no⟩
    exact List.mem_singleton.1 mem ▸ not_not.1 whole

theorem callsOk_of_run (run : ServedRun refreshThreshold (idle storage true) labels w) :
    w.CallsOk :=
  run.invariant CallsOk ⟨fun _ no => (nomatch no), fun _ _ no => nomatch no⟩
    fun _ _ _ ok _ => step_callsOk ok

/-- In every run that the server answers: no refresh token is sent twice, and at most one refresh
waits for the server; a call resolves to a token that was stored, a forced call to one that was
stored since the call or the forced refresh which it has joined began; and a call rejects as
unauthorized, or a tombstone is written, only for a stored token that was rejected. -/
theorem refresh_once (run : ServedRun refreshThreshold (idle storage true) labels w) :
    w.sent.Nodup ∧
      (∀ (i j : ℕ) refresh other active active', w.refreshes[i]? = some refresh →
        w.refreshes[j]? = some other → refresh.phase = .requesting active →
        other.phase = .requesting active' → i = j) ∧
      (∀ call ∈ w.calls, ∀ accessToken, w.result call = some (.resolved accessToken) →
        ∃ k token, w.stored[k]? = some token ∧ token.accessToken = accessToken ∧
          (call.force = true → w.since call ≤ k)) ∧
      (∀ call ∈ w.calls, w.result call = some .unauthorized → w.Revoked ∨ Unusable storage) ∧
      ∀ refresh ∈ w.refreshes, ∀ active, refresh.phase = .tombstoning active →
        w.storage = some active ∧ active.refreshToken ∈ w.rejected := by
  have callsOk := callsOk_of_run run
  rcases inv_or_barren run with inv | ⟨barren, unusable⟩
  · refine ⟨inv.sent, fun i j refresh other active active' found found' phase phase' => ?_,
      fun call mem accessToken settled => ?_, fun call mem settled => .inl ?_,
      fun refresh mem active phase => ?_⟩
    · by_contra ne
      have unlocked := inv.alone found (by rw [phase]; rfl) found' (Ne.symm ne)
      rw [phase'] at unlocked
      cases unlocked
    · obtain ⟨i, refresh, found, phase, forced, le⟩ := callsOk.settled mem settled
      have ok := (inv.phases i refresh found).2
      rw [phase] at ok
      obtain ⟨k, token, stored, same, begun⟩ := ok
      exact ⟨k, token, stored, same, fun force => Nat.le_trans le (begun (forced force))⟩
    · obtain ⟨i, refresh, found, phase, -⟩ := callsOk.settled mem settled
      have ok := (inv.phases i refresh found).2
      rw [phase] at ok
      exact ok
    · obtain ⟨i, found⟩ := List.mem_iff_getElem?.1 mem
      have ok := (inv.phases i refresh found).2
      rw [phase] at ok
      exact ⟨ok.1.2, ok.2⟩
  · refine ⟨barren.sent ▸ List.nodup_nil, fun i j refresh other active active' found _ phase => ?_,
      fun call mem accessToken settled => ?_, fun _ _ _ => .inr unusable,
      fun refresh mem active phase => ?_⟩
    · have quiet := (barren.phases refresh (List.mem_of_getElem? found)).not_writes
      rw [phase] at quiet
      cases quiet
    · obtain ⟨i, refresh, found, phase, forced, -⟩ := callsOk.settled mem settled
      have ok := barren.phases refresh (List.mem_of_getElem? found)
      rw [phase] at ok
      obtain ⟨unforced, token, stored, same⟩ := ok
      refine ⟨0, token, by rw [barren.stored, stored]; rfl, same, fun force => ?_⟩
      rw [forced force] at unforced
      cases unforced
    · have quiet := (barren.phases refresh mem).not_writes
      rw [phase] at quiet
      cases quiet

/-! ## Sample runs -/

instance (w : OAuthWorld) : ∀ label, Decidable (w.Served label)
  | .refresh _ (.accept answer) =>
    inferInstanceAs (Decidable
      ((answer.accessToken ≠ "" ∧ answer.refreshToken ≠ "") ∧ answer.refreshToken ∉ w.sent))
  | .refresh _ .requestFails | .refresh _ .saveFails | .login _ | .logout => isFalse id
  | .refresh _ (.reread _) | .refresh _ (.load _) | .refresh _ .lock | .refresh _ .lockFails
  | .refresh _ .reject | .refresh _ .save | .refresh _ .recover | .refresh _ .release
  | .ensureFresh .. | .retry _ => isTrue trivial

/-- Two managers force a refresh; a second call of the first manager joins the one that waits for
the lock, after the other manager has stored its token. -/
def joinedLate : List OAuthStep :=
  [.ensureFresh 0 true, .refresh 0 (.load 0), .ensureFresh 1 true, .refresh 1 (.load 0),
    .refresh 1 .lock, .refresh 1 (.reread 0), .refresh 1 (.accept (issued 2)), .refresh 1 .save,
    .refresh 1 .release, .ensureFresh 0 true, .refresh 0 .lock, .refresh 0 (.reread 0),
    .refresh 0 .release]

theorem joinedLate_reached : ∃ w,
    ServedRun defaultRefreshThreshold (idle (some (issued 1)) true) joinedLate w ∧
    w.calls[2]? = some { manager := 0, force := true, begun := 2, status := .awaiting 0 true } ∧
      w.outcome 0 = some (.resolved "access-2") ∧ w.stored = [issued 1, issued 2] := by
  have reached : ((Transition.exec
      (Transition.guarded (step defaultRefreshThreshold) Served) (idle (some (issued 1)) true)
      joinedLate).map fun w => (w.calls[2]?, w.outcome 0, w.stored)) =
        some (some { manager := 0, force := true, begun := 2, status := .awaiting 0 true },
          some (.resolved "access-2"), [issued 1, issued 2]) := by
    decide +kernel
  obtain ⟨w, exec, eq⟩ := Option.map_eq_some_iff.1 reached
  simp only [Prod.mk.injEq] at eq
  exact ⟨w, Transition.Run.of_exec exec, eq⟩

theorem refresh_once_joinedLate : ∃ w : OAuthWorld, w.stored = [issued 1, issued 2] ∧ w.sent.Nodup ∧
    ∀ call ∈ w.calls, ∀ accessToken, w.result call = some (.resolved accessToken) →
      ∃ k token, w.stored[k]? = some token ∧ token.accessToken = accessToken ∧
        (call.force = true → w.since call ≤ k) := by
  obtain ⟨w, run, -, -, stored⟩ := joinedLate_reached
  obtain ⟨sent, -, resolved, -⟩ := refresh_once run
  exact ⟨w, stored, sent, resolved⟩

/-- The token to which the late call resolves was stored before it began. -/
theorem joined_late : ∃ w,
    ServedRun defaultRefreshThreshold (idle (some (issued 1)) true) joinedLate w ∧
    ∃ call ∈ w.calls, call.force = true ∧ w.result call = some (.resolved "access-2") ∧
      ∀ (k : ℕ) token, w.stored[k]? = some token → token.accessToken = "access-2" →
        k < call.begun := by
  obtain ⟨w, run, call, outcome, stored⟩ := joinedLate_reached
  refine ⟨w, run, _, List.mem_of_getElem? call, rfl, outcome, fun k token found _ => ?_⟩
  have bound := (List.getElem?_eq_some_iff.1 found).1
  rw [stored] at bound
  exact bound

end OAuthWorld

end KimiCli
