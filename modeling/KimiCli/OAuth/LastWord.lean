import KimiCli.OAuth.Manager

/-!
# Logins and logouts

What the storage holds after a login or a logout.  Neither takes the refresh lock, and a refresh
writes back what came of the token it has read, so that its answer must not be that of a token that
a login or a logout has overtaken.
-/

namespace KimiCli

/-- The refresh has read a token, and may still write what comes of it. -/
def RefreshPhase.holds : RefreshPhase → Bool
  | .loading | .releasing _ | .settled _ => false
  | _ => true

/-- What the refresh writes next is decided. -/
def RefreshPhase.decided : RefreshPhase → Bool
  | .saving _ | .tombstoning _ => true
  | _ => false

theorem RefreshPhase.decided_of_not_holds {phase : RefreshPhase} (quiet : phase.holds = false) :
    phase.decided = false := by
  cases phase <;> first | rfl | cases quiet

namespace OAuthWorld

/-- The refresh has been rejected, and the storage holds another refresh token than it had sent. -/
def superseded (w : OAuthWorld) : RefreshPhase → Bool
  | .recovering activeToken =>
    match classifyToken w.storage with
    | .valid token => token.refreshToken ≠ activeToken.refreshToken
    | _ => false
  | _ => false

/-- No login or logout completes between the decision of a refresh and its write.  A refresh whose
token a login or a logout has overtaken is not answered with another token, and finds another valid
one in the storage if it is rejected. -/
def Apart (w : OAuthWorld) : OAuthStep → Prop
  | .login _ | .logout => ∀ refresh ∈ w.refreshes, refresh.phase.decided = false
  | .refresh i (.accept _) => ∀ refresh ∈ w.refreshes[i]?, refresh.origin = w.epoch
  | .refresh i .recover =>
    ∀ refresh ∈ w.refreshes[i]?, refresh.origin = w.epoch ∨ w.superseded refresh.phase = true
  | _ => True

/-- A refresh of the last credential finds a record, and only such a refresh writes. -/
structure Holds (w : OAuthWorld) (refresh : Refresh) : Prop where
  known : refresh.phase.holds = true → refresh.origin ≤ w.epoch
  recorded : refresh.phase.holds = true → refresh.origin = w.epoch → w.storage ≠ none
  latest : refresh.phase.decided = true → refresh.origin = w.epoch

/-- The stored record, and every refresh that will write one, comes of the last login. -/
structure OfLastLogin (w : OAuthWorld) : Prop where
  recorded : w.storage ≠ none → w.storedEpoch = w.epoch
  each : ∀ refresh ∈ w.refreshes, w.Holds refresh
  logout : w.lastChange = some .logout → w.storage = none
  login : ∀ token, w.lastChange = some (.login token) → w.storage ≠ none

variable {w w' : OAuthWorld} {refreshThreshold : ℤ → ℤ} {i : ℕ} {refresh : Refresh}
  {phase : RefreshPhase}

theorem Holds.quiet (quiet : refresh.phase.holds = false) : w.Holds refresh where
  known := fun no => absurd no (by simp [quiet])
  recorded := fun no => absurd no (by simp [quiet])
  latest := fun no => absurd no (by simp [RefreshPhase.decided_of_not_holds quiet])

theorem Holds.proceed (own : w.Holds refresh) (held : refresh.phase.holds = true)
    (latest : phase.decided = true → refresh.origin = w.epoch) :
    w.Holds { refresh with phase } :=
  ⟨fun _ => own.known held, fun _ => own.recorded held, latest⟩

theorem OfLastLogin.setRefresh (inv : w.OfLastLogin) (own : w.Holds refresh) :
    (w.setRefresh i refresh).OfLastLogin := by
  refine ⟨inv.recorded, fun other mem => ?_, inv.logout, inv.login⟩
  rcases List.mem_or_eq_of_mem_set mem with old | rfl
  · exact { inv.each other old with }
  · exact { own with }

theorem OfLastLogin.proceed (inv : w.OfLastLogin) (quiet : phase.holds = false) :
    (w.setRefresh i { refresh with phase }).OfLastLogin :=
  inv.setRefresh (.quiet quiet)

theorem OfLastLogin.settle (inv : w.OfLastLogin) (outcome : RefreshOutcome) :
    (w.settle i refresh outcome).OfLastLogin := by
  have set : (w.setRefresh i { refresh with phase := .settled outcome }).OfLastLogin :=
    inv.proceed rfl
  exact { set with each := fun other mem => { set.each other mem with } }

variable {token : TokenInfo}

theorem OfLastLogin.request {origin : ℕ} (inv : w.OfLastLogin) (known : origin ≤ w.epoch)
    (recorded : origin = w.epoch → w.storage ≠ none) :
    (w.request i refresh token origin).OfLastLogin := by
  unfold OAuthWorld.request
  split
  · exact inv.proceed rfl
  · have sent : ({ w with sent := w.sent ++ [token.refreshToken] } : OAuthWorld).OfLastLogin :=
      { inv with each := fun other mem => { inv.each other mem with } }
    exact sent.setRefresh ⟨fun _ => known, fun _ => recorded, fun no => nomatch no⟩

theorem OfLastLogin.store {record : TokenInfo} {stored : List TokenInfo}
    {outcome : RefreshOutcome} (inv : w.OfLastLogin) (own : w.Holds refresh)
    (held : refresh.phase.holds = true) (decided : refresh.phase.decided = true) :
    (({ w with storage := some record, stored, storedEpoch := refresh.origin } :
      OAuthWorld).setRefresh i { refresh with phase := .releasing outcome }).OfLastLogin := by
  have latest := own.latest decided
  refine OfLastLogin.proceed ⟨fun _ => latest, fun other mem => ?_, fun logout => ?_,
    fun token login => ?_⟩ rfl
  · exact { inv.each other mem with recorded := fun _ _ => Option.some_ne_none _ }
  · exact absurd (inv.logout logout) (own.recorded held latest)
  · exact Option.some_ne_none _

theorem storage_of_valid (valid : classifyToken w.storage = .valid token) :
    w.storage ≠ none := by
  intro none
  rw [none] at valid
  cases valid

theorem OfLastLogin.load {now : ℤ} (inv : w.OfLastLogin) :
    (w.load refreshThreshold i refresh now).OfLastLogin := by
  unfold OAuthWorld.load
  split
  · exact inv.settle _
  · exact inv.settle _
  case h_3 token valid =>
    have recorded := storage_of_valid valid
    split
    · exact inv.setRefresh ⟨fun _ => Nat.le_of_eq (inv.recorded recorded), fun _ _ => recorded,
        fun no => nomatch no⟩
    · exact inv.settle _

theorem OfLastLogin.reread {now : ℤ} (inv : w.OfLastLogin) (own : w.Holds refresh)
    (held : refresh.phase.holds = true) :
    (w.reread refreshThreshold i refresh token now).OfLastLogin := by
  unfold OAuthWorld.reread
  split
  · exact inv.proceed rfl
  · exact inv.request (own.known held) (own.recorded held)
  case h_3 after valid =>
    have recorded := storage_of_valid valid
    dsimp only
    split
    · exact inv.proceed rfl
    split
    · exact inv.proceed rfl
    · exact inv.request (Nat.le_of_eq (inv.recorded recorded)) fun _ => recorded

theorem OfLastLogin.recover (inv : w.OfLastLogin) (own : w.Holds refresh)
    (held : refresh.phase.holds = true)
    (apart : refresh.origin = w.epoch ∨ w.superseded (.recovering token) = true) :
    (w.recover i refresh token).OfLastLogin := by
  have tombstone (kept : w.superseded (.recovering token) = false) :
      (w.setRefresh i { refresh with phase := .tombstoning token }).OfLastLogin :=
    inv.setRefresh (own.proceed held fun _ => apart.resolve_right (by simp [kept]))
  unfold OAuthWorld.recover
  split
  case h_1 found valid =>
    split
    case isTrue => exact inv.proceed rfl
    case isFalse same => exact tombstone (by simpa [superseded, valid] using same)
  case h_2 revoked => exact tombstone (by simp [superseded, revoked])
  case h_3 missing => exact tombstone (by simp [superseded, missing])

theorem OfLastLogin.moves {next : RefreshStep} (inv : w.OfLastLogin)
    (found : w.refreshes[i]? = some refresh) (apart : w.Apart (.refresh i next))
    (moves : Moves refreshThreshold w i refresh next w') : w'.OfLastLogin := by
  have own := inv.each refresh (List.mem_of_getElem? found)
  cases moves with
  | load => exact inv.load
  | lock token phase =>
    have taken : (w.setRefresh i { refresh with phase := .rereading token }).OfLastLogin :=
      inv.setRefresh (own.proceed (by rw [phase]; rfl) fun no => nomatch no)
    exact { taken with each := fun other mem => { taken.each other mem with } }
  | lockFails => exact inv.settle _
  | reread token now phase => exact inv.reread own (by rw [phase]; rfl)
  | accept activeToken answer phase =>
    exact inv.setRefresh (own.proceed (by rw [phase]; rfl) fun _ => apart refresh found)
  | reject activeToken phase =>
    have rejected : ({ w with rejected := w.rejected ++ [activeToken.refreshToken] } :
        OAuthWorld).OfLastLogin := { inv with each := fun other mem => { inv.each other mem with } }
    have own : Holds { w with rejected := w.rejected ++ [activeToken.refreshToken] } refresh :=
      { own with }
    exact rejected.setRefresh (own.proceed (by rw [phase]; rfl) fun no => nomatch no)
  | save refreshed phase | tombstone activeToken phase =>
    exact inv.store own (by rw [phase]; rfl) (by rw [phase]; rfl)
  | recover activeToken phase =>
    have apart := apart refresh found
    rw [phase] at apart
    exact inv.recover own (by rw [phase]; rfl) apart
  | fails => exact inv.proceed rfl
  | release =>
    have released : ({ w with lock := if w.lock = some i then none else w.lock } :
        OAuthWorld).OfLastLogin := { inv with each := fun other mem => { inv.each other mem with } }
    exact released.settle _

theorem OfLastLogin.ensureFresh (inv : w.OfLastLogin) (manager : ℕ) (force : Bool)
    (calls : List EnsureFresh) :
    ({ (w.ensureFresh manager force).1 with calls } : OAuthWorld).OfLastLogin := by
  unfold OAuthWorld.ensureFresh
  split
  · split <;> exact { inv with each := fun other mem => { inv.each other mem with } }
  · refine { inv with each := fun refresh mem => ?_ }
    rcases List.mem_append.1 mem with old | new
    · exact { inv.each refresh old with }
    · obtain rfl := List.mem_singleton.1 new
      exact .quiet rfl

theorem OfLastLogin.overtaken (inv : w.OfLastLogin)
    (apart : ∀ refresh ∈ w.refreshes, refresh.phase.decided = false)
    (epoch : w'.epoch = w.epoch + 1) (mem : refresh ∈ w.refreshes) : w'.Holds refresh := by
  refine ⟨fun held => ?_, fun held origin => ?_, fun decided => ?_⟩
  · have known := (inv.each refresh mem).known held
    omega
  · have known := (inv.each refresh mem).known held
    omega
  · rw [apart refresh mem] at decided
    cases decided

theorem step_ofLastLogin {label : OAuthStep} (inv : w.OfLastLogin) (apart : w.Apart label)
    (next : w.step refreshThreshold label = some w') : w'.OfLastLogin := by
  cases label with
  | ensureFresh manager force =>
    cases next
    exact inv.ensureFresh manager force _
  | retry =>
    simp only [step] at next
    split at next
    case h_2 => cases next
    case h_1 =>
      split at next
      case isFalse => cases next
      case isTrue =>
        cases next
        exact inv.ensureFresh _ _ _
  | refresh =>
    obtain ⟨refresh, found, next⟩ := Option.bind_eq_some_iff.1 next
    exact inv.moves found apart (moves_of_step next)
  | login =>
    cases next
    exact ⟨fun _ => rfl, fun refresh mem => inv.overtaken apart rfl mem, fun no => (nomatch no),
      fun _ _ => Option.some_ne_none _⟩
  | logout =>
    cases next
    exact ⟨fun no => absurd rfl no, fun refresh mem => inv.overtaken apart rfl mem, fun _ => rfl,
      fun _ no => nomatch no⟩

/-- A storage that holds some record or none, and no call under way. -/
def idle (storage : Option TokenInfo) (lockEnabled : Bool) : OAuthWorld :=
  { storage, lockEnabled, stored := storage.toList }

abbrev ApartRun (refreshThreshold : ℤ → ℤ) (initial : OAuthWorld) :
    List OAuthStep → OAuthWorld → Prop :=
  Transition.Run (step refreshThreshold) Apart initial

/-- In every run in which the answers to refreshes are apart from logins and logouts: after a logout
the storage is empty, and after a login it holds a record that comes of that login, also where a
refresh of an earlier token is rejected. -/
theorem login_logout_last {storage : Option TokenInfo} {lockEnabled : Bool}
    {labels : List OAuthStep}
    (run : ApartRun refreshThreshold (idle storage lockEnabled) labels w) :
    (w.lastChange = some .logout → w.storage = none) ∧
      ∀ token, w.lastChange = some (.login token) →
        w.storage ≠ none ∧ w.storedEpoch = w.epoch := by
  have inv : w.OfLastLogin := by
    refine run.invariant OfLastLogin ⟨fun _ => rfl, ?_, ?_, ?_⟩ fun _ _ _ => step_ofLastLogin
    · exact fun _ no => nomatch no
    · exact fun no => nomatch no
    · exact fun _ no => nomatch no
  exact ⟨inv.logout, fun token login =>
    ⟨inv.login token login, inv.recorded (inv.login token login)⟩⟩

/-! ## Sample runs -/

instance (w : OAuthWorld) : ∀ label, Decidable (w.Apart label)
  | .login _ | .logout =>
    inferInstanceAs (Decidable (∀ refresh ∈ w.refreshes, refresh.phase.decided = false))
  | .refresh i (.accept _) =>
    inferInstanceAs (Decidable (∀ refresh ∈ w.refreshes[i]?, refresh.origin = w.epoch))
  | .refresh i .recover =>
    inferInstanceAs (Decidable (∀ refresh ∈ w.refreshes[i]?,
      refresh.origin = w.epoch ∨ w.superseded refresh.phase = true))
  | .refresh _ (.load _) | .refresh _ .lock | .refresh _ .lockFails | .refresh _ (.reread _)
  | .refresh _ .reject | .refresh _ .requestFails | .refresh _ .save | .refresh _ .saveFails
  | .refresh _ .release | .ensureFresh .. | .retry _ => isTrue trivial

/-- The `n`th token of a server. -/
def issued (n : ℕ) : TokenInfo :=
  { accessToken := s!"access-{n}", refreshToken := s!"refresh-{n}", expiresAt := 3600
    expiresIn := 3600 }

/-- The forced refresh `i`, up to its request. -/
def requested (i : ℕ) : List OAuthStep :=
  [.ensureFresh 0 true, .refresh i (.load 0), .refresh i .lock, .refresh i (.reread 0)]

def answered : List OAuthStep := requested 0 ++ [.refresh 0 (.accept (issued 2))]

/-- The first refresh is accepted and the second one rejected, after another login. -/
def loginDuringRefresh : List OAuthStep :=
  [.login (issued 1)] ++ answered ++ [.refresh 0 .save, .refresh 0 .release] ++ requested 1 ++
    [.login (issued 3), .refresh 1 .reject, .refresh 1 .recover]

theorem login_kept : ∃ w,
    ApartRun defaultRefreshThreshold (idle none true) loginDuringRefresh w ∧
    w.storage = some (issued 3) ∧ w.storedEpoch = w.epoch := by
  have reached : ((Transition.exec
      (Transition.guarded (step defaultRefreshThreshold) Apart) (idle none true)
      loginDuringRefresh).map fun w => (w.storage, w.lastChange)) =
        some (some (issued 3), some (.login (issued 3))) := by
    decide +kernel
  obtain ⟨w, exec, eq⟩ := Option.map_eq_some_iff.1 reached
  simp only [Prod.mk.injEq] at eq
  have run := Transition.Run.of_exec exec
  exact ⟨w, run, eq.1, ((login_logout_last run).2 (issued 3) eq.2).2⟩

/-- A logout completes before the answer of the server is stored, which logs in again. -/
theorem logout_undone : ∃ w,
    Transition.exec (step defaultRefreshThreshold) (idle (some (issued 1)) true)
      (answered ++ [.logout, .refresh 0 .save]) = some w ∧
    w.lastChange = some .logout ∧ w.storage = some (issued 2) := by
  have reached : ((Transition.exec (step defaultRefreshThreshold) (idle (some (issued 1)) true)
      (answered ++ [.logout, .refresh 0 .save])).map fun w => (w.lastChange, w.storage)) =
        some (some .logout, some (issued 2)) := by
    decide +kernel
  obtain ⟨w, exec, eq⟩ := Option.map_eq_some_iff.1 reached
  simp only [Prod.mk.injEq] at eq
  exact ⟨w, exec, eq⟩

end OAuthWorld

end KimiCli
