import KimiCli.Permission.Policies
import KimiCli.Prompt.Scheduler

/-!
# The approval service

`server/src/services/approval/approvalService.ts`.  The listeners of the event bus run inside
`publish` and may call the service again, so a call is a frame on a stack: while the innermost frame
is inside `publish`, or no call is in progress, anything may be called; `proceed` lets the innermost
call go on.  The trace records what was called, published and settled, newest first.
-/

namespace KimiCli

open Transition

/-! ## Requests -/

structure ApprovalRequest where
  turnId : Option ℕ := none
  toolCallId : String
  toolName : String
  action : String
  display : Json := .null
  sessionId : String
  agentId : String

structure ProtocolApprovalRequest where
  approvalId : String
  sessionId : String
  turnId : Option ℕ
  toolCallId : String
  toolName : String
  action : String
  toolInputDisplay : Json
  createdAt : ℕ
  expiresAt : ℕ

def approvalDefaultTimeoutMs : ℕ := 60000
def approvalRecentlyResolvedCap : ℕ := 1024

/-- `toBrokerRequest`; the times are kept in milliseconds. -/
def toBrokerRequest (req : ApprovalRequest) (approvalId sessionId : String)
    (createdAt expiresAt : ℕ) : ProtocolApprovalRequest where
  approvalId := approvalId
  sessionId := sessionId
  turnId := req.turnId
  toolCallId := req.toolCallId
  toolName := req.toolName
  action := req.action
  toolInputDisplay := req.display
  createdAt := createdAt
  expiresAt := expiresAt

/-- `PendingApproval`.  `resolve` marks an entry as settled and takes it out of the map in one go,
so that an entry of the map is never marked. -/
structure PendingApproval where
  approvalId : String
  sessionId : String
  toolCallId : String
  createdAt : ℕ
  expiresAt : ℕ
  protocolRequest : ProtocolApprovalRequest

/-- What `request` builds before it publishes. -/
def PendingApproval.create (approvalId : String) (now : ℕ) (req : ApprovalRequest) :
    PendingApproval :=
  let expiresAt := now + approvalDefaultTimeoutMs
  { approvalId := approvalId
    sessionId := req.sessionId
    toolCallId := req.toolCallId
    createdAt := now
    expiresAt := expiresAt
    protocolRequest := toBrokerRequest req approvalId req.sessionId now expiresAt }

@[grind] def PendingApproval.is (id : String) (entry : PendingApproval) : Bool :=
  entry.approvalId = id

/-- A `turn.ended` event; a missing session id is the empty one. -/
structure TurnEndedEvent where
  sessionId : String
  agentId : String
  reason : TurnEndReason

/-- The condition under which the listener calls `dismissForSession`. -/
def TurnEndedEvent.dismisses (event : TurnEndedEvent) : Bool :=
  (event.reason = .cancelled || event.reason = .failed || event.reason = .filtered) &&
    event.sessionId ≠ ""

/-- The response of a dismissal. -/
def cancelledAnswer : ApprovalAnswer where
  decision := .cancelled
  session := false

/-! ## The service -/

inductive ApprovalEntry
  /-- `request` was called; unless it is refused, `event.approval.requested` is published. -/
  | called (id : String) (now : ℕ) (req : ApprovalRequest)
  /-- The promise of a call after the disposal rejects. -/
  | refused (id : String)
  | stored (id : String)
  | resolveCalled (id : String) (response : ApprovalAnswer)
  | turnEnded (event : TurnEndedEvent)
  | disposed
  /-- `event.approval.resolved` is published. -/
  | resolved (id : String) (response : ApprovalAnswer)
  /-- The promise resolves. -/
  | answered (id : String) (response : ApprovalAnswer)
  /-- The promise rejects on disposal. -/
  | rejected (id : String)

inductive ApprovalFrame
  /-- `request`, inside `publish`. -/
  | request (entry : PendingApproval)
  /-- `resolve`, inside `publish`. -/
  | resolve (entry : PendingApproval) (response : ApprovalAnswer)
  /-- The second loop of `dismissForSession`, with the ids that are left. -/
  | dismiss (ids : List String)

structure ApprovalService where
  disposed : Bool := false
  pending : List PendingApproval := []
  recentlyResolved : List String := []
  calls : List ApprovalFrame := []
  trace : List ApprovalEntry := []

inductive ApprovalAction
  /-- `id` is what `ulid()` returns in the call. -/
  | request (id : String) (now : ℕ) (req : ApprovalRequest)
  | resolve (id : String) (response : ApprovalAnswer)
  | turnEnded (event : TurnEndedEvent)
  | dispose
  | proceed

namespace ApprovalService

/-- Calls may come in: no listener runs between the rounds of `dismissForSession`. -/
def listening (s : ApprovalService) : Bool :=
  match s.calls with
  | .dismiss _ :: _ => false
  | _ => true

def isPending (s : ApprovalService) (id : String) : Bool := s.pending.any (·.approvalId = id)

def listPending (s : ApprovalService) (sessionId : String) : List ProtocolApprovalRequest :=
  (s.pending.filter (·.sessionId = sessionId)).map (·.protocolRequest)

/-- `markResolved`: a set that forgets its oldest element when it is full. -/
def markResolved (recent : List String) (id : String) : List String :=
  let recent := if approvalRecentlyResolvedCap ≤ recent.length then recent.tail else recent
  if id ∈ recent then recent else recent ++ [id]

/-- `request` up to the `publish`. -/
def beginRequest (s : ApprovalService) (id : String) (now : ℕ) (req : ApprovalRequest) :
    ApprovalService :=
  if s.disposed then { s with trace := .refused id :: .called id now req :: s.trace }
  else
    { s with
      calls := .request (.create id now req) :: s.calls
      trace := .called id now req :: s.trace }

/-- `request` after the `publish`; a disposed map takes nothing in. -/
def store (s : ApprovalService) (entry : PendingApproval) : ApprovalService :=
  if s.disposed then s
  else
    { s with
      pending := s.pending ++ [entry]
      trace := .stored entry.approvalId :: s.trace }

/-- `resolve` up to the `publish`. -/
def resolve (s : ApprovalService) (id : String) (response : ApprovalAnswer) : ApprovalService :=
  match s.pending.find? (·.approvalId = id) with
  | none => s
  | some entry =>
    { s with
      pending := s.pending.filter (·.approvalId ≠ id)
      recentlyResolved := markResolved s.recentlyResolved entry.approvalId
      calls := .resolve entry response :: s.calls
      trace := .resolved id response :: s.trace }

/-- The listener of `turn.ended`, up to the second loop of `dismissForSession`. -/
def onTurnEnded (s : ApprovalService) (event : TurnEndedEvent) : ApprovalService :=
  if event.dismisses then
    { s with
      calls := .dismiss ((s.pending.filter (·.sessionId = event.sessionId)).map (·.approvalId)) ::
        s.calls }
  else s

def dispose (s : ApprovalService) : ApprovalService :=
  if s.disposed then s
  else
    { s with
      disposed := true
      pending := []
      recentlyResolved := []
      trace := (s.pending.map fun entry => .rejected entry.approvalId) ++ .disposed :: s.trace }

/-- The innermost call goes on: a `publish` is over, or `dismissForSession` takes its next id. -/
def proceed (s : ApprovalService) : Option ApprovalService :=
  match s.calls with
  | [] => none
  | .request entry :: calls => some ({ s with calls := calls }.store entry)
  | .resolve entry response :: calls =>
    some { s with calls := calls, trace := .answered entry.approvalId response :: s.trace }
  | .dismiss [] :: calls => some { s with calls := calls }
  | .dismiss (id :: ids) :: calls =>
    some ({ s with calls := .dismiss ids :: calls }.resolve id cancelledAnswer)

def step (s : ApprovalService) (action : ApprovalAction) : Option ApprovalService :=
  match action with
  | .proceed => s.proceed
  | .request id now req => if s.listening then some (s.beginRequest id now req) else none
  | .resolve id response =>
    if s.listening then
      some ({ s with trace := .resolveCalled id response :: s.trace }.resolve id response)
    else none
  | .turnEnded event =>
    if s.listening then
      some ({ s with trace := .turnEnded event :: s.trace }.onTurnEnded event)
    else none
  | .dispose => if s.listening then some s.dispose else none

end ApprovalService

/-! ## What the trace tells -/

namespace ApprovalEntry

variable (id : String)

@[grind] def asks : ApprovalEntry → Bool
  | called id' _ _ => id' = id
  | _ => false

@[grind] def refuses : ApprovalEntry → Bool
  | refused id' => id' = id
  | _ => false

@[grind] def stores : ApprovalEntry → Bool
  | stored id' => id' = id
  | _ => false

/-- The publication of `event.approval.resolved`. -/
@[grind] def announces : ApprovalEntry → Bool
  | resolved id' _ => id' = id
  | _ => false

@[grind] def answers : ApprovalEntry → Bool
  | answered id' _ => id' = id
  | _ => false

@[grind] def rejects : ApprovalEntry → Bool
  | rejected id' => id' = id
  | _ => false

/-- The promise settles. -/
@[grind] def settles (entry : ApprovalEntry) : Bool :=
  entry.answers id || entry.rejects id || entry.refuses id

end ApprovalEntry

namespace ApprovalFrame

@[grind] def requests (id : String) : ApprovalFrame → Bool
  | request entry => entry.approvalId = id
  | _ => false

@[grind] def resolves (id : String) : ApprovalFrame → Bool
  | resolve entry _ => entry.approvalId = id
  | _ => false

end ApprovalFrame

/-- An id that no request before has got. -/
def FreshIds (s : ApprovalService) : ApprovalAction → Prop
  | .request id _ _ => s.trace.countP (ApprovalEntry.asks id) = 0
  | _ => True

/-- A turn of the session that the request was made in has ended as cancelled, failed or
filtered. -/
def Dismissed (trace : List ApprovalEntry) (id : String) : Prop :=
  ∃ now req event, .called id now req ∈ trace ∧ .turnEnded event ∈ trace ∧
    event.dismisses = true ∧ event.sessionId = req.sessionId

@[grind ←]
theorem Dismissed.cons {trace : List ApprovalEntry} {id : String} {entry : ApprovalEntry}
    (dismissed : Dismissed trace id) : Dismissed (entry :: trace) id := by
  obtain ⟨now, req, event, asked, ended, rest⟩ := dismissed
  exact ⟨now, req, event, List.mem_cons_of_mem _ asked, List.mem_cons_of_mem _ ended, rest⟩

namespace ApprovalService

/-- `resolve` has taken the request out of the map and is publishing. -/
def Settling (s : ApprovalService) (id : String) : Prop :=
  ∃ entry response, .resolve entry response ∈ s.calls ∧ entry.approvalId = id

/-- What holds after every run. -/
structure Contract (s : ApprovalService) : Prop where
  settledOnce : ∀ id, s.trace.countP (ApprovalEntry.settles id) ≤ 1
  resolvedOnce : ∀ id, s.trace.countP (ApprovalEntry.announces id) ≤ 1
  ownReason : ∀ id response, .answered id response ∈ s.trace →
    .resolveCalled id response ∈ s.trace ∨
      response = cancelledAnswer ∧ Dismissed s.trace id
  rejected : ∀ id, .rejected id ∈ s.trace ∨ .refused id ∈ s.trace → .disposed ∈ s.trace
  isPending_iff : ∀ id, s.isPending id = true ↔
    .stored id ∈ s.trace ∧ s.trace.countP (ApprovalEntry.settles id) = 0 ∧ ¬ s.Settling id
  listPending_iff : ∀ sessionId id,
    id ∈ (s.listPending sessionId).map (·.approvalId) ↔ s.isPending id = true ∧
      ∃ now req, .called id now req ∈ s.trace ∧ req.sessionId = sessionId
  disposed : s.calls = [] → .disposed ∈ s.trace → ∀ id, .stored id ∈ s.trace →
    s.trace.countP (ApprovalEntry.settles id) = 1
  heard : ∀ id response t, s.isPending id = true → s.step (.resolve id response) = some t →
    ∀ more u, Run step FreshIds t more u → u.calls = [] → .answered id response ∈ u.trace

/-! ## The books -/

/-- Where the requests are, counted for each id. -/
structure Books (s : ApprovalService) : Prop where
  fresh : ∀ id, s.trace.countP (ApprovalEntry.asks id) ≤ 1
  /-- A request is in one place at most. -/
  places : ∀ id, s.calls.countP (ApprovalFrame.requests id) +
    s.pending.countP (PendingApproval.is id) + s.calls.countP (ApprovalFrame.resolves id) +
      s.trace.countP (ApprovalEntry.settles id) ≤ s.trace.countP (ApprovalEntry.asks id)
  stored : ∀ id, s.trace.countP (ApprovalEntry.stores id) +
      s.trace.countP (ApprovalEntry.refuses id) =
    s.pending.countP (PendingApproval.is id) + s.calls.countP (ApprovalFrame.resolves id) +
      s.trace.countP (ApprovalEntry.settles id)
  announced : ∀ id, s.trace.countP (ApprovalEntry.announces id) =
    s.calls.countP (ApprovalFrame.resolves id) + s.trace.countP (ApprovalEntry.answers id)
  disposed : s.disposed = true ↔ .disposed ∈ s.trace
  empty : s.disposed = true → s.pending = []
  rejected : ∀ id, .rejected id ∈ s.trace ∨ .refused id ∈ s.trace → s.disposed = true
  /-- Entries are what their requests made them. -/
  made : ∀ entry, entry ∈ s.pending ∨ .request entry ∈ s.calls →
    ∃ now req, .called entry.approvalId now req ∈ s.trace ∧ entry = .create entry.approvalId now req
  dismissing : ∀ ids, .dismiss ids ∈ s.calls → ∀ id ∈ ids, Dismissed s.trace id
  answered : ∀ id response, .answered id response ∈ s.trace → .resolved id response ∈ s.trace
  resolved : ∀ id response, .resolved id response ∈ s.trace →
    .resolveCalled id response ∈ s.trace ∨ response = cancelledAnswer ∧ Dismissed s.trace id
  publishing : ∀ id response, .resolved id response ∈ s.trace →
    .answered id response ∈ s.trace ∨
      ∃ entry, .resolve entry response ∈ s.calls ∧ entry.approvalId = id
  announcedFirst : ∀ entry response, .resolve entry response ∈ s.calls →
    .resolved entry.approvalId response ∈ s.trace

theorem books_init : Books {} where
  fresh _ := Nat.zero_le _
  places _ := le_rfl
  stored _ := rfl
  announced _ := rfl
  disposed := by simp
  empty _ := rfl
  rejected := by simp
  made := by simp
  dismissing := by simp
  answered := by simp
  resolved := by simp
  publishing := by simp
  announcedFirst := by simp

variable {s t : ApprovalService} {id : String} {response : ApprovalAnswer}

theorem Books.note {entry : ApprovalEntry} (books : s.Books)
    (plain : (∃ id response, entry = .resolveCalled id response) ∨
      ∃ event, entry = .turnEnded event) : Books { s with trace := entry :: s.trace } where
  fresh id := by have := books.fresh id; grind
  places id := by have := books.places id; grind
  stored id := by have := books.stored id; grind
  announced id := by have := books.announced id; grind
  disposed := by have := books.disposed; grind
  empty := books.empty
  rejected id := by have := books.rejected id; grind
  made pending mem := by have := books.made pending mem; grind
  dismissing ids mem id mem' := .cons (books.dismissing ids mem id mem')
  answered id response := by have := books.answered id response; grind
  resolved id response := by have := books.resolved id response; grind
  publishing id response := by have := books.publishing id response; grind
  announcedFirst pending response := by have := books.announcedFirst pending response; grind

theorem Books.refuse (books : s.Books) (now : ℕ) (req : ApprovalRequest)
    (fresh : s.trace.countP (ApprovalEntry.asks id) = 0) (disposed : s.disposed = true) :
    Books { s with trace := .refused id :: .called id now req :: s.trace } where
  fresh id := by have := books.fresh id; grind
  places id := by have := books.places id; grind
  stored id := by have := books.stored id; grind
  announced id := by have := books.announced id; grind
  disposed := by have := books.disposed; grind
  empty := books.empty
  rejected id := by have := books.rejected id; grind
  made pending mem := by have := books.made pending mem; grind
  dismissing ids mem id mem' := .cons (.cons (books.dismissing ids mem id mem'))
  answered id response := by have := books.answered id response; grind
  resolved id response := by have := books.resolved id response; grind
  publishing id response := by have := books.publishing id response; grind
  announcedFirst pending response := by have := books.announcedFirst pending response; grind

theorem Books.beginRequest (books : s.Books) (now : ℕ) (req : ApprovalRequest)
    (fresh : s.trace.countP (ApprovalEntry.asks id) = 0) : (s.beginRequest id now req).Books := by
  unfold ApprovalService.beginRequest
  split
  case isTrue disposed => exact books.refuse now req fresh disposed
  case isFalse alive =>
    exact
      { books with
        fresh := fun id => by have := books.fresh id; grind
        places := fun id => by have := books.places id; grind [PendingApproval.create]
        stored := fun id => by have := books.stored id; grind
        announced := fun id => by have := books.announced id; grind
        disposed := by have := books.disposed; grind
        rejected := fun id => by have := books.rejected id; grind
        made := fun pending => by have := books.made pending; grind [PendingApproval.create]
        dismissing := fun ids => by have := books.dismissing ids; grind
        answered := fun id response => by have := books.answered id response; grind
        resolved := fun id response => by have := books.resolved id response; grind
        publishing := fun id response => by have := books.publishing id response; grind
        announcedFirst := fun pending response => by
          have := books.announcedFirst pending response
          grind }

variable {calls : List ApprovalFrame} {actions : List ApprovalAction}

theorem Books.store {entry : PendingApproval} (books : s.Books)
    (top : s.calls = .request entry :: calls) : ({ s with calls := calls }.store entry).Books := by
  unfold ApprovalService.store
  split
  case isTrue disposed =>
    exact
      { books with
        places := fun id => by have := books.places id; grind
        stored := fun id => by have := books.stored id; grind
        announced := fun id => by have := books.announced id; grind
        made := fun pending => by have := books.made pending; grind
        dismissing := fun ids => by have := books.dismissing ids; grind
        publishing := fun id response => by have := books.publishing id response; grind
        announcedFirst := fun pending response => by
          have := books.announcedFirst pending response
          grind }
  case isFalse alive =>
    exact
      { fresh := fun id => by have := books.fresh id; grind
        places := fun id => by have := books.places id; grind
        stored := fun id => by have := books.stored id; have := books.places id; grind
        announced := fun id => by have := books.announced id; grind
        disposed := by have := books.disposed; grind
        empty := fun disposed => absurd disposed alive
        rejected := fun id => by have := books.rejected id; grind
        made := fun pending => by have := books.made pending; grind
        dismissing := fun ids => by have := books.dismissing ids; grind
        answered := fun id response => by have := books.answered id response; grind
        resolved := fun id response => by have := books.resolved id response; grind
        publishing := fun id response => by have := books.publishing id response; grind
        announcedFirst := fun pending response => by
          have := books.announcedFirst pending response
          grind }

theorem Books.resolve (books : s.Books)
    (reason : .resolveCalled id response ∈ s.trace ∨
      response = cancelledAnswer ∧ Dismissed s.trace id) : (s.resolve id response).Books := by
  unfold ApprovalService.resolve
  split
  case h_1 => exact books
  case h_2 entry found =>
    have mem := List.mem_of_find?_eq_some found
    have same : entry.approvalId = id := by simpa using List.find?_some found
    have kept : ∀ id', (s.pending.filter (·.approvalId ≠ id)).countP (PendingApproval.is id') =
        if id' = id then 0 else s.pending.countP (PendingApproval.is id') := by
      intro id'
      rw [List.countP_filter]
      split
      case isTrue eq =>
        refine List.countP_eq_zero.2 fun entry' _ => ?_
        simp [PendingApproval.is, eq]
      case isFalse ne =>
        refine List.countP_congr fun entry' _ => ?_
        grind
    have present : 0 < s.pending.countP (PendingApproval.is id) :=
      List.countP_pos_iff.2 ⟨entry, mem, by simp [PendingApproval.is, same]⟩
    have one := books.places id
    have asked := books.fresh id
    exact
      { fresh := fun id => by have := books.fresh id; grind
        places := fun id => by have := books.places id; grind
        stored := fun id => by have := books.stored id; grind
        announced := fun id => by have := books.announced id; grind
        disposed := by have := books.disposed; grind
        empty := fun disposed => by rw [books.empty disposed] at mem; cases mem
        rejected := fun id => by have := books.rejected id; grind
        made := fun pending => by have := books.made pending; grind
        dismissing := fun ids => by have := books.dismissing ids; grind
        answered := fun id response => by have := books.answered id response; grind
        resolved := fun id response => by have := books.resolved id response; grind
        publishing := fun id response => by have := books.publishing id response; grind
        announcedFirst := fun pending response => by
          have := books.announcedFirst pending response
          grind }

theorem Books.answer {entry : PendingApproval} (books : s.Books)
    (top : s.calls = .resolve entry response :: calls) :
    Books { s with calls := calls, trace := .answered entry.approvalId response :: s.trace } where
  fresh id := by have := books.fresh id; grind
  places id := by have := books.places id; grind
  stored id := by have := books.stored id; grind
  announced id := by have := books.announced id; grind
  disposed := by have := books.disposed; grind
  empty := books.empty
  rejected id := by have := books.rejected id; grind
  made pending := by have := books.made pending; grind
  dismissing ids := by have := books.dismissing ids; grind
  answered id response' := by
    have := books.answered id response'
    have := books.announcedFirst entry response
    grind
  resolved id response := by have := books.resolved id response; grind
  publishing id response := by have := books.publishing id response; grind
  announcedFirst pending response := by have := books.announcedFirst pending response; grind

theorem Books.dismiss {calls' : List ApprovalFrame} {ids ids' : List String} (books : s.Books)
    (top : s.calls = .dismiss ids :: calls) (sub : ids' ⊆ ids)
    (frames : calls' = calls ∨ calls' = .dismiss ids' :: calls) :
    Books { s with calls := calls' } where
  fresh := books.fresh
  places id := by have := books.places id; grind
  stored id := by have := books.stored id; grind
  announced id := by have := books.announced id; grind
  disposed := books.disposed
  empty := books.empty
  rejected := books.rejected
  made pending := by have := books.made pending; grind
  dismissing ids' := by have := books.dismissing ids'; have := books.dismissing ids; grind
  answered := books.answered
  resolved := books.resolved
  publishing id response := by have := books.publishing id response; grind
  announcedFirst pending response := by have := books.announcedFirst pending response; grind

theorem Books.onTurnEnded {event : TurnEndedEvent} (books : s.Books)
    (ended : .turnEnded event ∈ s.trace) : (s.onTurnEnded event).Books := by
  unfold ApprovalService.onTurnEnded
  split
  case isFalse => exact books
  case isTrue dismisses =>
    have dismissed : ∀ entry ∈ s.pending, entry.sessionId = event.sessionId →
        Dismissed s.trace entry.approvalId := by
      intro entry mem session
      obtain ⟨now, req, asked, eq⟩ := books.made entry (.inl mem)
      refine ⟨now, req, event, asked, ended, dismisses, ?_⟩
      rw [← session, eq]
      rfl
    exact
      { books with
        places := fun id => by have := books.places id; grind
        stored := fun id => by have := books.stored id; grind
        announced := fun id => by have := books.announced id; grind
        made := fun pending => by have := books.made pending; grind
        dismissing := fun ids => by have := books.dismissing ids; grind
        publishing := fun id response => by have := books.publishing id response; grind
        announcedFirst := fun pending response => by
          have := books.announcedFirst pending response
          grind }

theorem countP_rejections (p : ApprovalEntry → Bool) (pending : List PendingApproval) :
    (pending.map fun entry => ApprovalEntry.rejected entry.approvalId).countP p =
      pending.countP fun entry => p (.rejected entry.approvalId) := by
  rw [List.countP_map]
  rfl

theorem Books.dispose (books : s.Books) : s.dispose.Books := by
  unfold ApprovalService.dispose
  split
  case isTrue => exact books
  case isFalse alive =>
    have dismissed : ∀ {rejections id}, Dismissed s.trace id →
        Dismissed (rejections ++ .disposed :: s.trace) id := by
      rintro rejections id ⟨now, req, event, asked, ended, rest⟩
      exact ⟨now, req, event, by simp [asked], by simp [ended], rest⟩
    have silent : ∀ {p : ApprovalEntry → Bool}, (∀ id, p (.rejected id) = false) →
        (s.pending.map fun entry => ApprovalEntry.rejected entry.approvalId).countP p = 0 := by
      intro p quiet
      simp [quiet]
    have settled : ∀ id, (s.pending.map fun entry =>
        ApprovalEntry.rejected entry.approvalId).countP (ApprovalEntry.settles id) =
          s.pending.countP (PendingApproval.is id) := by
      intro id
      rw [countP_rejections]
      refine List.countP_congr fun entry _ => ?_
      grind
    have asks := fun id => silent (p := ApprovalEntry.asks id) fun _ => rfl
    have stores := fun id => silent (p := ApprovalEntry.stores id) fun _ => rfl
    have refuses := fun id => silent (p := ApprovalEntry.refuses id) fun _ => rfl
    have announces := fun id => silent (p := ApprovalEntry.announces id) fun _ => rfl
    have answers := fun id => silent (p := ApprovalEntry.answers id) fun _ => rfl
    exact
      { fresh := fun id => by have := books.fresh id; grind
        places := fun id => by have := books.places id; grind
        stored := fun id => by have := books.stored id; grind
        announced := fun id => by have := books.announced id; grind
        disposed := by simp
        empty := fun _ => rfl
        rejected := fun id _ => rfl
        made := fun pending => by have := books.made pending; grind
        dismissing := fun ids mem id mem' => dismissed (books.dismissing ids mem id mem')
        answered := fun id response => by have := books.answered id response; grind
        resolved := fun id response => by have := books.resolved id response; grind
        publishing := fun id response => by have := books.publishing id response; grind
        announcedFirst := fun pending response => by
          have := books.announcedFirst pending response
          grind }

/-- Every step keeps the books. -/
theorem Books.step {action : ApprovalAction} (books : s.Books) (fresh : FreshIds s action)
    (next : s.step action = some t) : t.Books := by
  cases action with
  | proceed =>
    change s.proceed = some t at next
    unfold ApprovalService.proceed at next
    split at next
    case h_1 => cases next
    case h_2 entry calls top =>
      cases next
      exact books.store top
    case h_3 entry response calls top =>
      cases next
      exact books.answer top
    case h_4 calls top =>
      cases next
      exact books.dismiss top (List.nil_subset _) (.inl rfl)
    case h_5 id ids calls top =>
      cases next
      have rest := books.dismiss top (List.subset_cons_self id ids) (.inr rfl)
      refine rest.resolve (.inr ⟨rfl, ?_⟩)
      exact books.dismissing (id :: ids) (by simp [top]) id List.mem_cons_self
  | request id now req =>
    obtain ⟨-, rfl⟩ : _ ∧ _ = t := by simpa [ApprovalService.step] using next
    exact books.beginRequest now req fresh
  | resolve id response =>
    obtain ⟨-, rfl⟩ : _ ∧ _ = t := by simpa [ApprovalService.step] using next
    exact (books.note (.inl ⟨id, response, rfl⟩)).resolve (.inl List.mem_cons_self)
  | turnEnded event =>
    obtain ⟨-, rfl⟩ : _ ∧ _ = t := by simpa [ApprovalService.step] using next
    exact (books.note (.inr ⟨event, rfl⟩)).onTurnEnded List.mem_cons_self
  | dispose =>
    obtain ⟨-, rfl⟩ : _ ∧ _ = t := by simpa [ApprovalService.step] using next
    exact books.dispose

theorem books_run (run : Run step FreshIds {} actions s) :
    s.Books :=
  run.invariant Books books_init fun _ _ _ books fresh next => books.step fresh next

/-! ## The contract -/

theorem trace_mono {action : ApprovalAction} {entry : ApprovalEntry} (next : s.step action = some t)
    (mem : entry ∈ s.trace) : entry ∈ t.trace := by
  have resolve_trace : ∀ (s : ApprovalService) id response, entry ∈ s.trace →
      entry ∈ (s.resolve id response).trace := by
    intro s id response mem
    unfold ApprovalService.resolve
    split
    · exact mem
    · exact List.mem_cons_of_mem _ mem
  cases action with
  | proceed =>
    change s.proceed = some t at next
    unfold ApprovalService.proceed ApprovalService.store at next
    grind
  | request =>
    obtain ⟨-, rfl⟩ : _ ∧ _ = t := by simpa [ApprovalService.step] using next
    unfold ApprovalService.beginRequest
    split <;> simp [mem]
  | resolve =>
    obtain ⟨-, rfl⟩ : _ ∧ _ = t := by simpa [ApprovalService.step] using next
    exact resolve_trace _ _ _ (List.mem_cons_of_mem _ mem)
  | turnEnded =>
    obtain ⟨-, rfl⟩ : _ ∧ _ = t := by simpa [ApprovalService.step] using next
    unfold ApprovalService.onTurnEnded
    split <;> exact List.mem_cons_of_mem _ mem
  | dispose =>
    obtain ⟨-, rfl⟩ : _ ∧ _ = t := by simpa [ApprovalService.step] using next
    unfold ApprovalService.dispose
    split <;> simp [mem]

theorem Run.trace_mono {entry : ApprovalEntry} (run : Run step FreshIds s actions t)
    (mem : entry ∈ s.trace) : entry ∈ t.trace :=
  run.invariant (entry ∈ ·.trace) mem fun _ _ _ mem _ next => ApprovalService.trace_mono next mem

theorem isPending_eq (s : ApprovalService) (id : String) :
    s.isPending id = true ↔ 0 < s.pending.countP (PendingApproval.is id) := by
  rw [List.countP_pos_iff, isPending, List.any_eq_true]
  rfl

theorem settling_iff (s : ApprovalService) (id : String) :
    s.Settling id ↔ 0 < s.calls.countP (ApprovalFrame.resolves id) := by
  rw [List.countP_pos_iff]
  constructor
  · rintro ⟨entry, response, mem, rfl⟩
    exact ⟨_, mem, by simp [ApprovalFrame.resolves]⟩
  · rintro ⟨frame, mem, found⟩
    cases frame with
    | resolve entry response => exact ⟨entry, response, mem, of_decide_eq_true found⟩
    | request | dismiss => cases found

theorem stored_iff (trace : List ApprovalEntry) (id : String) :
    .stored id ∈ trace ↔ 0 < trace.countP (ApprovalEntry.stores id) := by
  rw [List.countP_pos_iff]
  constructor
  · exact fun mem => ⟨_, mem, by simp [ApprovalEntry.stores]⟩
  · rintro ⟨entry, mem, found⟩
    cases entry with
    | stored id' =>
      obtain rfl : id' = id := of_decide_eq_true found
      exact mem
    | _ => cases found

theorem Books.called_unique {now now' : ℕ} {req req' : ApprovalRequest} (books : s.Books)
    (mem : .called id now req ∈ s.trace) (mem' : .called id now' req' ∈ s.trace) :
    req = req' := by
  have once := books.fresh id
  rw [List.countP_eq_length_filter] at once
  have left := List.mem_filter (p := ApprovalEntry.asks id).2 ⟨mem, by simp [ApprovalEntry.asks]⟩
  have right := List.mem_filter (p := ApprovalEntry.asks id).2 ⟨mem', by simp [ApprovalEntry.asks]⟩
  obtain ⟨entry, one⟩ := List.length_eq_one_iff.1
    (le_antisymm once (List.length_pos_of_mem left))
  rw [one, List.mem_singleton] at left right
  exact (ApprovalEntry.called.inj (left.trans right.symm)).2.2

theorem Books.listPending_iff (books : s.Books) (sessionId : String) (id : String) :
    id ∈ (s.listPending sessionId).map (·.approvalId) ↔ s.isPending id = true ∧
      ∃ now req, .called id now req ∈ s.trace ∧ req.sessionId = sessionId := by
  simp only [listPending, List.mem_map, List.mem_filter, decide_eq_true_eq, isPending,
    List.any_eq_true]
  constructor
  · rintro ⟨_, ⟨entry, ⟨mem, session⟩, rfl⟩, same⟩
    obtain ⟨now, req, asked, eq⟩ := books.made entry (.inl mem)
    have id_eq : entry.protocolRequest.approvalId = entry.approvalId := by rw [eq]; rfl
    have session_eq : entry.sessionId = req.sessionId := by rw [eq]; rfl
    rw [id_eq] at same
    exact ⟨⟨entry, mem, same⟩, now, req, same ▸ asked, session_eq ▸ session⟩
  · rintro ⟨⟨entry, mem, same⟩, now, req, asked, session⟩
    obtain ⟨now', req', asked', eq⟩ := books.made entry (.inl mem)
    have id_eq : entry.protocolRequest.approvalId = entry.approvalId := by rw [eq]; rfl
    have session_eq : entry.sessionId = req'.sessionId := by rw [eq]; rfl
    rw [same] at asked'
    refine ⟨_, ⟨entry, ⟨mem, ?_⟩, rfl⟩, id_eq.trans same⟩
    rw [session_eq, ← books.called_unique asked asked', session]

theorem Books.contract (books : s.Books) : s.Contract := by
  have answers_le : ∀ id, s.trace.countP (ApprovalEntry.answers id) ≤
      s.trace.countP (ApprovalEntry.settles id) := fun id =>
    List.countP_mono_left fun entry _ answers => by simp [ApprovalEntry.settles, answers]
  have refuses_le : ∀ id, s.trace.countP (ApprovalEntry.refuses id) ≤
      s.trace.countP (ApprovalEntry.settles id) := fun id =>
    List.countP_mono_left fun entry _ refuses => by simp [ApprovalEntry.settles, refuses]
  refine
    { settledOnce := fun id => ?settledOnce
      resolvedOnce := fun id => ?resolvedOnce
      ownReason := fun id response mem =>
        books.resolved id response (books.answered id response mem)
      rejected := fun id either => books.disposed.1 (books.rejected id either)
      isPending_iff := fun id => ?isPending_iff
      listPending_iff := books.listPending_iff
      disposed := fun idle gone id mem => ?disposed
      heard := fun id response t pending next more u run idle => ?heard }
  case settledOnce =>
    have places := books.places id
    have fresh := books.fresh id
    omega
  case resolvedOnce =>
    have places := books.places id
    have fresh := books.fresh id
    have announced := books.announced id
    have le := answers_le id
    omega
  case isPending_iff =>
    have places := books.places id
    have fresh := books.fresh id
    have stored := books.stored id
    have le := refuses_le id
    rw [isPending_eq, stored_iff, settling_iff]
    omega
  case disposed =>
    have places := books.places id
    have fresh := books.fresh id
    have stored := books.stored id
    have le := refuses_le id
    rw [stored_iff] at mem
    rw [idle, books.empty (books.disposed.2 gone), List.countP_nil, List.countP_nil] at stored
    omega
  case heard =>
    obtain ⟨entry, found⟩ := Option.isSome_iff_exists.1
      (List.find?_isSome.2 (List.any_eq_true.1 pending))
    have announced : .resolved id response ∈ t.trace := by
      obtain ⟨-, rfl⟩ : _ ∧ _ = t := by simpa [ApprovalService.step] using next
      simp [ApprovalService.resolve, found]
    have now : FreshIds s (.resolve id response) := trivial
    have later := run.invariant Books (books.step now next)
      fun _ _ _ books fresh next => books.step fresh next
    rcases later.publishing id response (Run.trace_mono run announced) with answered | ⟨_, mem, -⟩
    · exact answered
    · rw [idle] at mem
      cases mem

/-- The service keeps its contract in every run in which `ulid()` returns no id twice. -/
theorem approval_contract (run : Run step FreshIds {} actions s) : s.Contract :=
  (books_run run).contract

instance (s : ApprovalService) : (action : ApprovalAction) → Decidable (FreshIds s action)
  | .request _ _ _ => inferInstanceAs (Decidable (_ = 0))
  | .resolve _ _ | .turnEnded _ | .dispose | .proceed => isTrue trivial

/-- What the main agent of a session asks. -/
def mainAgentRequest : ApprovalRequest where
  toolCallId := "call"
  toolName := "Bash"
  action := "run"
  sessionId := "session"
  agentId := "main"

/-- The turn of a subagent of the session. -/
def subagentTurnEnded : TurnEndedEvent := ⟨"session", "sub", .cancelled⟩

/-- The subagent's turn is cancelled while the main agent waits for an answer. -/
def subagentCancelled : List ApprovalAction :=
  [.request "a" 0 mainAgentRequest, .proceed, .turnEnded subagentTurnEnded, .proceed, .proceed,
    .proceed]

theorem subagentCancelled_trace :
    (exec (guarded step FreshIds) {} subagentCancelled).map (·.trace) =
      some [.answered "a" cancelledAnswer, .resolved "a" cancelledAnswer,
        .turnEnded subagentTurnEnded, .stored "a", .called "a" 0 mainAgentRequest] := by
  rfl

theorem subagentCancelled_contract :
    ∃ s, Run step FreshIds {} subagentCancelled s ∧ s.Contract := by
  obtain ⟨s, ran, -⟩ := Option.map_eq_some_iff.1 subagentCancelled_trace
  have run := Run.of_exec ran
  exact ⟨s, run, approval_contract run⟩

/-- A listener answers inside the publication of `event.approval.requested`. -/
def answeredAtOnce : List ApprovalAction :=
  [.request "a" 0 mainAgentRequest, .resolve "a" cancelledAnswer, .proceed]

/-- A listener disposes the service there. -/
def disposedAtOnce : List ApprovalAction := [.request "a" 0 mainAgentRequest, .dispose, .proceed]

theorem answeredAtOnce_state :
    (exec (guarded step FreshIds) {} answeredAtOnce).map (fun s => (s.trace, s.isPending "a")) =
      some ([.stored "a", .resolveCalled "a" cancelledAnswer, .called "a" 0 mainAgentRequest],
        true) := by
  rfl

theorem disposedAtOnce_state :
    (exec (guarded step FreshIds) {} disposedAtOnce).map
        (fun s => (s.trace, s.calls.length, s.isPending "a")) =
      some ([.disposed, .called "a" 0 mainAgentRequest], 0, false) := by
  rfl

/-- The main agent's request is cancelled although its turn has not ended and nobody has resolved
it: dismissal goes by the session.  An answer inside the publication of the request is dropped, and
a request whose publication sees the disposal never settles and is not listed as pending. -/
theorem approval_exceptions :
    (∃ s, Run step FreshIds {} subagentCancelled s ∧ .answered "a" cancelledAnswer ∈ s.trace ∧
      (∀ response, .resolveCalled "a" response ∉ s.trace) ∧
      ∀ now req event, .called "a" now req ∈ s.trace → .turnEnded event ∈ s.trace →
        event.agentId ≠ req.agentId) ∧
    (∃ s, Run step FreshIds {} answeredAtOnce s ∧ s.isPending "a" = true ∧
      s.trace = [.stored "a", .resolveCalled "a" cancelledAnswer, .called "a" 0 mainAgentRequest]) ∧
    ∃ s, Run step FreshIds {} disposedAtOnce s ∧ s.isPending "a" = false ∧
      s.trace = [.disposed, .called "a" 0 mainAgentRequest] := by
  refine ⟨?_, ?_, ?_⟩
  · obtain ⟨s, ran, trace⟩ := Option.map_eq_some_iff.1 subagentCancelled_trace
    refine ⟨s, Run.of_exec ran, ?_⟩
    rw [trace]
    refine ⟨by simp, by simp, fun now req event asked ended => ?_⟩
    obtain rfl : event = subagentTurnEnded := by simpa using ended
    obtain ⟨-, rfl⟩ : now = 0 ∧ req = mainAgentRequest := by simpa using asked
    decide
  · obtain ⟨s, ran, state⟩ := Option.map_eq_some_iff.1 answeredAtOnce_state
    exact ⟨s, Run.of_exec ran, (Prod.mk.inj state).2, (Prod.mk.inj state).1⟩
  · obtain ⟨s, ran, state⟩ := Option.map_eq_some_iff.1 disposedAtOnce_state
    obtain ⟨trace, rest⟩ := Prod.mk.inj state
    exact ⟨s, Run.of_exec ran, (Prod.mk.inj rest).2, trace⟩

end ApprovalService

end KimiCli
