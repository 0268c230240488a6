import KimiCli.Lib.Run
import Mathlib.Data.Int.Notation
import Mathlib.Logic.Function.Basic

/-!
# The OAuth manager

The credential of one provider under any number of `OAuthManager`s (`oauth/src/oauth-manager.ts`)
that share a storage.  A call of `ensureFresh` joins the refresh in flight of its manager or starts
one (`doEnsureFresh`), which is cut at its awaits.
-/

namespace KimiCli

structure TokenInfo where
  accessToken : String
  refreshToken : String
  expiresAt : ℤ
  scope : String := ""
  tokenType : String := "Bearer"
  expiresIn : ℤ
  deriving DecidableEq

inductive TokenState
  | valid (token : TokenInfo)
  | revoked (scope tokenType : String)
  | missing

def classifyToken : Option TokenInfo → TokenState
  | none => .missing
  | some token =>
    if token.accessToken = "" then .revoked token.scope token.tokenType else .valid token

def revokedTombstone (prior : TokenInfo) : TokenInfo :=
  { accessToken := "", refreshToken := "", expiresAt := 0, scope := prior.scope
    tokenType := prior.tokenType, expiresIn := 0 }

/-- Rounded up, which makes no difference to a whole number of seconds that is compared with it. -/
def defaultRefreshThreshold (expiresIn : ℤ) : ℤ :=
  if 0 < expiresIn then max 300 ((expiresIn + 1) / 2) else 300

def shouldRefreshToken (refreshThreshold : ℤ → ℤ) (token : TokenInfo) (force : Bool) (now : ℤ) :
    Bool :=
  if force then true
  else if token.expiresAt = 0 then false
  else token.expiresAt - now < refreshThreshold token.expiresIn

/-! ## Refreshes -/

inductive RefreshOutcome
  | resolved (accessToken : String)
  | unauthorized
  | failed
  deriving DecidableEq

/-- What a `doEnsureFresh` waits for. -/
inductive RefreshPhase
  | loading
  | locking (token : TokenInfo)
  /-- It holds the lock and reads the storage again. -/
  | rereading (token : TokenInfo)
  | requesting (activeToken : TokenInfo)
  | saving (refreshed : TokenInfo)
  /-- The server has rejected the refresh token. -/
  | recovering (activeToken : TokenInfo)
  | tombstoning (activeToken : TokenInfo)
  | releasing (outcome : RefreshOutcome)
  | settled (outcome : RefreshOutcome)

structure Refresh where
  manager : ℕ
  force : Bool
  phase : RefreshPhase := .loading
  /-- How many tokens had been stored when it began. -/
  begun : ℕ
  /-- How many logins and logouts there had been when the token that it uses was stored. -/
  origin : ℕ := 0

inductive CallStatus
  /-- It waits for this refresh to settle, and then calls `ensureFresh` again. -/
  | queued (refresh : ℕ)
  /-- It settles with this refresh, which was in flight before if it has `joined`. -/
  | awaiting (refresh : ℕ) (joined : Bool)
  deriving DecidableEq

structure EnsureFresh where
  manager : ℕ
  force : Bool
  begun : ℕ
  status : CallStatus
  deriving DecidableEq

inductive CredentialChange
  | login (token : TokenInfo)
  | logout
  deriving DecidableEq

structure OAuthWorld where
  storage : Option TokenInfo
  /-- `resolveLockTarget` gives a path. -/
  lockEnabled : Bool := true
  lock : Option ℕ := none
  refreshes : List Refresh := []
  inFlightRefresh : ℕ → Option ℕ := fun _ => none
  calls : List EnsureFresh := []
  /-- The tokens that were stored so far. -/
  stored : List TokenInfo
  /-- The refresh tokens that were sent to the server so far. -/
  sent : List String := []
  rejected : List String := []
  /-- How many logins and logouts have completed. -/
  epoch : ℕ := 0
  /-- How many had completed when the credential began from which the stored record comes. -/
  storedEpoch : ℕ := 0
  lastChange : Option CredentialChange := none

namespace OAuthWorld

variable (w : OAuthWorld)

def setRefresh (i : ℕ) (refresh : Refresh) : OAuthWorld :=
  { w with refreshes := w.refreshes.set i refresh }

/-- The promise of a refresh settles, and its slot is cleared. -/
def settle (i : ℕ) (refresh : Refresh) (outcome : RefreshOutcome) : OAuthWorld :=
  { w.setRefresh i { refresh with phase := .settled outcome } with
    inFlightRefresh := if w.inFlightRefresh refresh.manager = some i
      then Function.update w.inFlightRefresh refresh.manager none else w.inFlightRefresh }

/-- `ensureFresh` up to its first await. -/
def ensureFresh (manager : ℕ) (force : Bool) : OAuthWorld × CallStatus :=
  match w.inFlightRefresh manager with
  | some current =>
    if !force || w.refreshes[current]?.any (·.force) then (w, .awaiting current true)
    else (w, .queued current)
  | none =>
    ({ w with
        refreshes := w.refreshes ++ [{ manager, force, begun := w.stored.length }]
        inFlightRefresh := Function.update w.inFlightRefresh manager w.refreshes.length },
      .awaiting w.refreshes.length false)

def load (refreshThreshold : ℤ → ℤ) (i : ℕ) (refresh : Refresh) (now : ℤ) : OAuthWorld :=
  match classifyToken w.storage with
  | .missing | .revoked .. => w.settle i refresh .unauthorized
  | .valid token =>
    if shouldRefreshToken refreshThreshold token refresh.force now then
      w.setRefresh i { refresh with phase := .locking token, origin := w.storedEpoch }
    else w.settle i refresh (.resolved token.accessToken)

/-- The call of the server. -/
def request (i : ℕ) (refresh : Refresh) (activeToken : TokenInfo) (origin : ℕ) : OAuthWorld :=
  if activeToken.refreshToken = "" then
    w.setRefresh i { refresh with phase := .releasing .unauthorized }
  else
    { w with sent := w.sent ++ [activeToken.refreshToken] }.setRefresh i
      { refresh with phase := .requesting activeToken, origin }

def reread (refreshThreshold : ℤ → ℤ) (i : ℕ) (refresh : Refresh) (token : TokenInfo) (now : ℤ) :
    OAuthWorld :=
  match classifyToken w.storage with
  | .revoked .. => w.setRefresh i { refresh with phase := .releasing .unauthorized }
  | .missing => w.request i refresh token refresh.origin
  | .valid after =>
    let changedWhileWaiting := after.refreshToken ≠ token.refreshToken ∨
      after.accessToken ≠ token.accessToken ∨ after.expiresAt ≠ token.expiresAt ∨
      after.expiresIn ≠ token.expiresIn
    if !shouldRefreshToken refreshThreshold after refresh.force now then
      w.setRefresh i { refresh with phase := .releasing (.resolved after.accessToken) }
    else if refresh.force ∧ changedWhileWaiting then
      w.setRefresh i { refresh with phase := .releasing (.resolved after.accessToken) }
    else w.request i refresh after w.storedEpoch

/-- After a rejection: a token that a peer has stored is used, else the rejection is recorded. -/
def recover (i : ℕ) (refresh : Refresh) (activeToken : TokenInfo) : OAuthWorld :=
  match classifyToken w.storage with
  | .valid token =>
    if token.refreshToken ≠ activeToken.refreshToken then
      w.setRefresh i { refresh with phase := .releasing (.resolved token.accessToken) }
    else w.setRefresh i { refresh with phase := .tombstoning activeToken }
  | .revoked .. | .missing => w.setRefresh i { refresh with phase := .tombstoning activeToken }

end OAuthWorld

/-! ## Steps -/

inductive RefreshStep
  | load (now : ℤ)
  | lock
  | lockFails
  | reread (now : ℤ)
  | accept (answer : TokenInfo)
  | reject
  | requestFails
  | save
  | saveFails
  | recover
  | release

inductive OAuthStep
  | ensureFresh (manager : ℕ) (force : Bool)
  /-- A queued call goes on. -/
  | retry (call : ℕ)
  | refresh (i : ℕ) (next : RefreshStep)
  | login (token : TokenInfo)
  | logout

namespace OAuthWorld

def stepRefresh (refreshThreshold : ℤ → ℤ) (w : OAuthWorld) (i : ℕ) (refresh : Refresh) :
    RefreshPhase → RefreshStep → Option OAuthWorld
  | .loading, .load now => some (w.load refreshThreshold i refresh now)
  | .locking token, .lock =>
    if w.lockEnabled ∧ w.lock ≠ none then none
    else
      some { w.setRefresh i { refresh with phase := .rereading token } with
        lock := if w.lockEnabled then some i else w.lock }
  | .locking _, .lockFails => some (w.settle i refresh .failed)
  | .rereading token, .reread now => some (w.reread refreshThreshold i refresh token now)
  | .requesting _, .accept answer => some (w.setRefresh i { refresh with phase := .saving answer })
  | .requesting activeToken, .reject =>
    some ({ w with rejected := w.rejected ++ [activeToken.refreshToken] }.setRefresh i
      { refresh with phase := .recovering activeToken })
  | .requesting _, .requestFails =>
    some (w.setRefresh i { refresh with phase := .releasing .failed })
  | .saving refreshed, .save =>
    some ({ w with
      storage := some refreshed
      stored := w.stored ++ [refreshed]
      storedEpoch := refresh.origin }.setRefresh i
        { refresh with phase := .releasing (.resolved refreshed.accessToken) })
  | .recovering activeToken, .recover => some (w.recover i refresh activeToken)
  | .tombstoning activeToken, .save =>
    some ({ w with
      storage := some (revokedTombstone activeToken)
      storedEpoch := refresh.origin }.setRefresh i
        { refresh with phase := .releasing .unauthorized })
  | .saving _, .saveFails | .tombstoning _, .saveFails =>
    some (w.setRefresh i { refresh with phase := .releasing .failed })
  | .releasing outcome, .release =>
    some ({ w with lock := if w.lock = some i then none else w.lock }.settle i refresh outcome)
  | _, _ => none

/-- The outcome of a refresh that has settled. -/
def outcome (w : OAuthWorld) (i : ℕ) : Option RefreshOutcome :=
  w.refreshes[i]?.bind fun refresh =>
    match refresh.phase with
    | .settled outcome => some outcome
    | _ => none

def step (refreshThreshold : ℤ → ℤ) (w : OAuthWorld) : OAuthStep → Option OAuthWorld
  | .ensureFresh manager force =>
    let (w', status) := w.ensureFresh manager force
    some { w' with calls := w.calls ++ [{ manager, force, begun := w.stored.length, status }] }
  | .retry call =>
    match w.calls[call]? with
    | some { manager, force, begun, status := .queued i } =>
      if (w.outcome i).isSome then
        let (w', status) := w.ensureFresh manager force
        some { w' with calls := w.calls.set call { manager, force, begun, status } }
      else none
    | _ => none
  | .refresh i next =>
    w.refreshes[i]?.bind fun refresh =>
      w.stepRefresh refreshThreshold i refresh refresh.phase next
  | .login token =>
    some { w with
      storage := some token
      stored := w.stored ++ [token]
      epoch := w.epoch + 1
      storedEpoch := w.epoch + 1
      lastChange := some (.login token) }
  | .logout =>
    some { w with storage := none, epoch := w.epoch + 1, lastChange := some .logout }

/-! ## What a step can do -/

/-- The transitions of a refresh. -/
inductive Moves (refreshThreshold : ℤ → ℤ) (w : OAuthWorld) (i : ℕ) (refresh : Refresh) :
    RefreshStep → OAuthWorld → Prop
  | load (now : ℤ) (phase : refresh.phase = .loading) :
    Moves refreshThreshold w i refresh (.load now) (w.load refreshThreshold i refresh now)
  | lock (token : TokenInfo) (phase : refresh.phase = .locking token)
      (free : w.lockEnabled = true → w.lock = none) :
    Moves refreshThreshold w i refresh .lock
      { w.setRefresh i { refresh with phase := .rereading token } with
        lock := if w.lockEnabled then some i else w.lock }
  | lockFails (token : TokenInfo) (phase : refresh.phase = .locking token) :
    Moves refreshThreshold w i refresh .lockFails (w.settle i refresh .failed)
  | reread (token : TokenInfo) (now : ℤ) (phase : refresh.phase = .rereading token) :
    Moves refreshThreshold w i refresh (.reread now) (w.reread refreshThreshold i refresh token now)
  | accept (activeToken answer : TokenInfo) (phase : refresh.phase = .requesting activeToken) :
    Moves refreshThreshold w i refresh (.accept answer)
      (w.setRefresh i { refresh with phase := .saving answer })
  | reject (activeToken : TokenInfo) (phase : refresh.phase = .requesting activeToken) :
    Moves refreshThreshold w i refresh .reject
      ({ w with rejected := w.rejected ++ [activeToken.refreshToken] }.setRefresh i
        { refresh with phase := .recovering activeToken })
  | save (refreshed : TokenInfo) (phase : refresh.phase = .saving refreshed) :
    Moves refreshThreshold w i refresh .save
      ({ w with
        storage := some refreshed
        stored := w.stored ++ [refreshed]
        storedEpoch := refresh.origin }.setRefresh i
          { refresh with phase := .releasing (.resolved refreshed.accessToken) })
  | recover (activeToken : TokenInfo) (phase : refresh.phase = .recovering activeToken) :
    Moves refreshThreshold w i refresh .recover (w.recover i refresh activeToken)
  | tombstone (activeToken : TokenInfo) (phase : refresh.phase = .tombstoning activeToken) :
    Moves refreshThreshold w i refresh .save
      ({ w with
        storage := some (revokedTombstone activeToken)
        storedEpoch := refresh.origin }.setRefresh i
          { refresh with phase := .releasing .unauthorized })
  /-- The request or the write fails. -/
  | fails (next : RefreshStep) (failing : next = .requestFails ∨ next = .saveFails) :
    Moves refreshThreshold w i refresh next
      (w.setRefresh i { refresh with phase := .releasing .failed })
  | release (outcome : RefreshOutcome) (phase : refresh.phase = .releasing outcome) :
    Moves refreshThreshold w i refresh .release
      ({ w with lock := if w.lock = some i then none else w.lock }.settle i refresh outcome)

theorem moves_of_step {w w' : OAuthWorld} {refreshThreshold : ℤ → ℤ} {i : ℕ} {refresh : Refresh}
    {next : RefreshStep}
    (step : w.stepRefresh refreshThreshold i refresh refresh.phase next = some w') :
    Moves refreshThreshold w i refresh next w' := by
  unfold stepRefresh at step
  split at step
  case h_1 phase => exact Option.some.inj step ▸ .load _ phase
  case h_2 phase =>
    split at step
    case isTrue => cases step
    case isFalse free =>
      refine Option.some.inj step ▸ .lock _ phase fun enabled => ?_
      exact not_not.1 fun taken => free ⟨enabled, taken⟩
  case h_3 phase => exact Option.some.inj step ▸ .lockFails _ phase
  case h_4 phase => exact Option.some.inj step ▸ .reread _ _ phase
  case h_5 phase => exact Option.some.inj step ▸ .accept _ _ phase
  case h_6 phase => exact Option.some.inj step ▸ .reject _ phase
  case h_7 => exact Option.some.inj step ▸ .fails _ (.inl rfl)
  case h_8 phase => exact Option.some.inj step ▸ .save _ phase
  case h_9 phase => exact Option.some.inj step ▸ .recover _ phase
  case h_10 phase => exact Option.some.inj step ▸ .tombstone _ phase
  case h_11 => exact Option.some.inj step ▸ .fails _ (.inr rfl)
  case h_12 => exact Option.some.inj step ▸ .fails _ (.inr rfl)
  case h_13 phase => exact Option.some.inj step ▸ .release _ phase
  case h_14 => cases step

end OAuthWorld

end KimiCli
