import KimiCli.Gateway.Broadcast

/-!
# The client's cursor

`DaemonEventSocket` (`kimi-web/src/api/daemon/ws.ts`) and `WsConnection.syncSessions`
(`server/src/ws/connection.ts`) for one session: the frames and messages in flight on the present
connection, the calls of `syncSessions` that are under way on it, and the cursor the client tracks.
The server behind it is `SessionBroadcast`.  An event of type `error` is delivered like the others,
but does not move the cursor, so how far the client has come is told by the events it has received.
-/

namespace KimiCli

/-- A frame of the session from the server. -/
inductive ServerFrame
  | serverHello
  | event (isVolatile : Bool) (seq : ℕ) (epoch : Epoch)
  /-- A durable event whose type is `error`. -/
  | error (seq : ℕ)
  | resyncRequired (currentSeq : ℕ) (epoch : Epoch)
  deriving DecidableEq

inductive ClientMessage
  /-- The cursor is there if the client has a subscription of the session. -/
  | clientHello (cursor : Option SessionCursor)
  | subscribe (cursor : SessionCursor)
  deriving DecidableEq

/-- The cursor that a message carries. -/
def ClientMessage.cursor : ClientMessage → Option SessionCursor
  | .clientHello cursor => cursor
  | .subscribe cursor => some cursor

/-- A call of `syncSessions` for the session. -/
inductive SyncTask
  /-- It waits for the syncs of other sessions. -/
  | registered (cursor : SessionCursor)
  /-- It waits for call `call` of `getBufferedSince`. -/
  | waiting (cursor : SessionCursor) (call : ℕ)
  deriving DecidableEq

/-- The cursor from which a sync starts. -/
def SyncTask.cursor : SyncTask → SessionCursor
  | .registered cursor => cursor
  | .waiting cursor _ => cursor

/-- A WebSocket connection. -/
structure WsLink where
  toClient : List ServerFrame := [.serverHello]
  toServer : List ClientMessage := []
  /-- The connection is among those of the session. -/
  subscribed : Bool := false
  syncs : List SyncTask := []
  deriving DecidableEq

/-- The client: its entries for the session in `subscriptions` and `pendingSubscriptions`. -/
structure EventSocket where
  connected : Bool := false
  subscription : Option SessionCursor := none
  pendingSubscription : Option SessionCursor := none
  /-- The `seq` of the last snapshot or resync. -/
  base : ℕ := 0
  /-- The durable events delivered since. -/
  delivered : List ℕ := []

namespace EventSocket

/-- `trackCursor` on a durable frame. -/
def trackCursor (existing : Option SessionCursor) (seq : ℕ) (epoch : Epoch) :
    Option SessionCursor :=
  match existing with
  | none => none
  | some existing =>
    if seq ≤ existing.seq ∧ existing.epoch.isSome then some existing
    else some { seq := max seq existing.seq, epoch := some epoch }

/-- `handleFrame`, with the message it sends. -/
def handleFrame (c : EventSocket) : ServerFrame → EventSocket × List ClientMessage
  | .serverHello =>
    let subscription := c.pendingSubscription <|> c.subscription
    ({ c with connected := true, subscription, pendingSubscription := none },
      [.clientHello subscription])
  | .event isVolatile seq epoch =>
    if isVolatile then (c, [])
    else
      ({ c with
          subscription := trackCursor c.subscription seq epoch
          delivered := seq :: c.delivered }, [])
  -- `case 'error'` hands the event on and leaves out `trackCursor`.
  | .error seq => ({ c with delivered := seq :: c.delivered }, [])
  | .resyncRequired currentSeq epoch =>
    ({ c with
        subscription := some { seq := currentSeq, epoch := some epoch }
        base := currentSeq
        delivered := [] }, [])

/-- `subscribe`. -/
def subscribe (c : EventSocket) (cursor : SessionCursor) : EventSocket × List ClientMessage :=
  let c := { c with subscription := some cursor, base := cursor.seq, delivered := [] }
  if c.connected then (c, [.subscribe cursor])
  else ({ c with pendingSubscription := some cursor }, [])

end EventSocket

/-- Neither a dispatch nor a restart. -/
def BroadcastEvent.isInternal {Ev : Type} : BroadcastEvent Ev → Bool
  | .dispatch | .restart => false
  | _ => true

structure SyncWorld (Ev : Type) where
  server : SessionBroadcast Ev := {}
  link : Option WsLink := none
  client : EventSocket := {}
  /-- The cursors of the snapshots that the server has served. -/
  snapshots : List SessionCursor := []

inductive SyncEvent (Ev : Type)
  /-- The server goes on with anything but a dispatch or a restart. -/
  | server (event : BroadcastEvent Ev)
  /-- The first queued event is dispatched; `isGlobal` if it goes to every connection. -/
  | dispatch (isGlobal : Bool)
  | restart
  | connect
  | disconnect
  /-- The first frame in flight reaches the client. -/
  | receive
  /-- The first message in flight reaches the server. -/
  | handle
  /-- Sync `i` calls `getBufferedSince`. -/
  | begin (i : ℕ)
  /-- Sync `i` goes on with the result of its call. -/
  | finish (i : ℕ)
  /-- The server serves a snapshot. -/
  | snapshot
  /-- The client subscribes at the cursor of a snapshot, or at the default one. -/
  | subscribe (cursor : SessionCursor)

namespace SyncWorld

open SessionBroadcast

variable {Ev : Type} (isError : Ev → Bool)

/-- The frame of a durable event; `isError` is whether its type is `error`. -/
def frameOf (envelope : EventEnvelope Ev) : ServerFrame :=
  if isError envelope.payload then .error envelope.seq
  else .event false envelope.seq envelope.epoch

/-- The frame of the next dispatch. -/
def nextFrame (s : SessionBroadcast Ev) : Option ServerFrame :=
  match s.journal, s.queue with
  | some j, (true, _) :: _ => some (.event true j.seq j.epoch)
  | some j, (false, event) :: _ =>
    some (frameOf isError { seq := j.seq + 1, epoch := j.epoch, payload := event })
  | _, _ => none

/-- A connection that the dispatch of an event reaches gets its frame. -/
def fanOut (link : WsLink) (isGlobal : Bool) (frame : ServerFrame) : WsLink :=
  if isGlobal ∨ link.subscribed then { link with toClient := link.toClient ++ [frame] } else link

/-- The frames of the replayed envelopes. -/
def replayFrames (events : List (JournalEntry (EventEnvelope Ev))) : List ServerFrame :=
  events.map fun entry => frameOf isError entry.envelope

/-- What a sync sends for the result of `getBufferedSince`. -/
def answerFrames (result : BufferedSinceResult Ev) : List ServerFrame :=
  if result.resyncRequired.isSome then [.resyncRequired result.currentSeq result.epoch]
  else replayFrames isError result.events

/-- A message registers the subscription and begins a sync. -/
def handleMessage (link : WsLink) (message : ClientMessage) : WsLink :=
  match message.cursor with
  | none => link
  | some cursor => { link with subscribed := true, syncs := link.syncs ++ [.registered cursor] }

/-- What `getBufferedSince` has returned to a sync. -/
def resultOf (w : SyncWorld Ev) : SyncTask → Option (BufferedSinceResult Ev)
  | .registered _ => none
  | .waiting _ call =>
    match w.server.calls[call]? with
    | some (.returned _ _ result) => some result
    | _ => none

def step (w : SyncWorld Ev) : SyncEvent Ev → Option (SyncWorld Ev)
  | .server event =>
    if event.isInternal then (w.server.step event).map fun server => { w with server } else none
  | .dispatch isGlobal =>
    match w.server.step .dispatch, nextFrame isError w.server with
    | some server, some frame =>
      some { w with server, link := w.link.map (fanOut · isGlobal frame) }
    | _, _ => none
  | .restart =>
    (w.server.step .restart).map fun server =>
      { w with server, link := none, client := { w.client with connected := false } }
  | .connect => if w.link.isNone then some { w with link := some {} } else none
  | .disconnect =>
    if w.link.isSome then
      some { w with link := none, client := { w.client with connected := false } }
    else none
  | .receive => do
    let link ← w.link
    let frame ← link.toClient.head?
    let handled := w.client.handleFrame frame
    let toServer := link.toServer ++ handled.2
    some { w with
      client := handled.1, link := some { link with toClient := link.toClient.tail, toServer } }
  | .handle => do
    let link ← w.link
    let message ← link.toServer.head?
    some { w with
      link := some (handleMessage { link with toServer := link.toServer.tail } message) }
  | .begin i => do
    let link ← w.link
    let task ← link.syncs[i]?
    match task with
    | .registered cursor =>
      (w.server.step (.getBufferedSince cursor)).map fun server =>
        let syncs := link.syncs.set i (.waiting cursor w.server.calls.length)
        { w with server, link := some { link with syncs } }
    | .waiting _ _ => none
  | .finish i => do
    let link ← w.link
    let task ← link.syncs[i]?
    let result ← w.resultOf task
    let toClient := link.toClient ++ answerFrames isError result
    some { w with link := some { link with toClient, syncs := link.syncs.eraseIdx i } }
  | .snapshot =>
    w.server.journal.map fun j =>
      { w with snapshots := w.snapshots ++ [{ seq := j.seq, epoch := some j.epoch }] }
  | .subscribe cursor =>
    if cursor ∈ w.snapshots ∨ cursor = { seq := 0 } then
      let asked := w.client.subscribe cursor
      let link := w.link.map fun link => { link with toServer := link.toServer ++ asked.2 }
      some { w with client := asked.1, link }
    else none

end SyncWorld

/-! ## Frames in flight -/

def ServerFrame.isResync : ServerFrame → Bool
  | .resyncRequired _ _ => true
  | _ => false

/-- The sequence number up to which a frame takes the client. -/
def ServerFrame.seq : ServerFrame → ℕ
  | .event false seq _ | .error seq | .resyncRequired seq _ => seq
  | .event true _ _ | .serverHello => 0

/-- How far the client has come after a frame; `none` without a subscription. -/
def ServerFrame.track (n : Option ℕ) (frame : ServerFrame) : Option ℕ :=
  if frame.isResync then some frame.seq else n.map (max frame.seq)

/-- How far the client has come after all the frames. -/
def drain (n : Option ℕ) (frames : List ServerFrame) : Option ℕ := frames.foldl ServerFrame.track n

/-- A frame skips no event behind `n`. -/
def ServerFrame.Follows (frame : ServerFrame) (n : Option ℕ) : Prop :=
  frame.isResync = true ∨ ∀ k ∈ n, frame.seq ≤ k + 1

/-- No frame skips an event. -/
def InOrder : Option ℕ → List ServerFrame → Prop
  | _, [] => True
  | n, frame :: rest => frame.Follows n ∧ InOrder (frame.track n) rest

instance (frame : ServerFrame) (n : Option ℕ) : Decidable (frame.Follows n) :=
  inferInstanceAs (Decidable (_ ∨ _))

instance decidableInOrder :
    ∀ (n : Option ℕ) (frames : List ServerFrame), Decidable (InOrder n frames)
  | _, [] => inferInstanceAs (Decidable True)
  | n, frame :: rest =>
    have := decidableInOrder (frame.track n) rest
    inferInstanceAs (Decidable (_ ∧ _))

section

variable {n : Option ℕ} {m : ℕ} {frame : ServerFrame} {frames rest : List ServerFrame}

@[simp] theorem drain_nil : drain n [] = n := rfl

@[simp] theorem drain_cons : drain n (frame :: rest) = drain (frame.track n) rest := rfl

theorem drain_append : drain n (frames ++ rest) = drain (drain n frames) rest := List.foldl_append

theorem inOrder_append :
    InOrder n (frames ++ rest) ↔ InOrder n frames ∧ InOrder (drain n frames) rest := by
  induction frames generalizing n with
  | nil => simp [InOrder]
  | cons frame frames ih => simp [InOrder, ih, and_assoc]

theorem track_of (noResync : frame.isResync = false) : frame.track n = n.map (max frame.seq) := by
  simp [ServerFrame.track, noResync]

theorem track_quiet (noResync : frame.isResync = false) (quiet : frame.seq = 0) :
    frame.track n = n := by
  rw [track_of noResync, quiet]
  cases n <;> simp

theorem drain_none (noResync : ∀ frame ∈ frames, frame.isResync = false) :
    drain none frames = none := by
  induction frames with
  | nil => rfl
  | cons frame frames ih =>
    rw [drain_cons, track_of (noResync frame (List.mem_cons_self ..))]
    exact ih fun frame mem => noResync frame (List.mem_cons_of_mem _ mem)

theorem drain_some (k : ℕ) (frames : List ServerFrame) :
    ∃ next, drain (some k) frames = some next ∧
      ((∀ frame ∈ frames, frame.isResync = false) → k ≤ next) := by
  induction frames generalizing k with
  | nil => exact ⟨k, rfl, fun _ => Nat.le_refl _⟩
  | cons frame frames ih =>
    cases resync : frame.isResync with
    | true =>
      obtain ⟨next, eq, -⟩ := ih frame.seq
      refine ⟨next, by simpa [ServerFrame.track, resync] using eq, fun no => ?_⟩
      simp [no frame (List.mem_cons_self ..)] at resync
    | false =>
      obtain ⟨next, eq, lower⟩ := ih (max frame.seq k)
      refine ⟨next, by simpa [track_of resync] using eq, fun no => ?_⟩
      have le := lower fun frame mem => no frame (List.mem_cons_of_mem _ mem)
      omega

theorem drain_le (below : ∀ k, n = some k → k ≤ m) (bounded : ∀ frame ∈ frames, frame.seq ≤ m) :
    ∀ k, drain n frames = some k → k ≤ m := by
  induction frames generalizing n with
  | nil => exact below
  | cons frame frames ih =>
    have first := bounded frame (List.mem_cons_self ..)
    refine ih (fun k eq => ?_) fun frame mem => bounded frame (List.mem_cons_of_mem _ mem)
    unfold ServerFrame.track at eq
    split at eq
    · exact Option.some.inj eq ▸ first
    · obtain ⟨k', eq', rfl⟩ := Option.map_eq_some_iff.1 eq
      exact Nat.max_le.2 ⟨first, below k' eq'⟩

end

/-! ## The client -/

namespace EventSocket

/-- How far the client has received the durable events. -/
def received (c : EventSocket) : ℕ := c.delivered.foldr max c.base

/-- The same for a client that has a subscription. -/
def position (c : EventSocket) : Option ℕ := c.subscription.map fun _ => c.received

/-- The client of a session with `m` durable events: its cursor is not ahead of what it has
received, which has no gap. -/
structure Ok (c : EventSocket) (m : ℕ) : Prop where
  cursor : ∀ cursor, c.subscription = some cursor → cursor.seq ≤ c.received
  below : ∀ n, c.position = some n → n ≤ m
  covered : c.subscription ≠ none → ∀ k, c.base < k → k ≤ c.received → k ∈ c.delivered
  pending : ∀ cursor, c.pendingSubscription = some cursor →
    c.subscription = some cursor ∧ c.connected = false

variable {c : EventSocket} {m : ℕ} {frame : ServerFrame}

theorem position_eq_none : c.position = none ↔ c.subscription = none := by simp [position]

theorem trackCursor_le {existing : Option SessionCursor} {n : ℕ} (seq : ℕ) (epoch : Epoch)
    (below : ∀ cursor, existing = some cursor → cursor.seq ≤ n) :
    (trackCursor existing seq epoch).isSome = existing.isSome ∧
      ∀ cursor, trackCursor existing seq epoch = some cursor → cursor.seq ≤ max seq n := by
  cases existing with
  | none => exact ⟨rfl, fun cursor no => by cases no⟩
  | some old =>
    have le := below old rfl
    unfold trackCursor
    dsimp only
    split
    · exact ⟨rfl, fun cursor eq => by obtain rfl := Option.some.inj eq; omega⟩
    · exact ⟨rfl, fun cursor eq => by obtain rfl := Option.some.inj eq; dsimp only; omega⟩

theorem position_deliver {subscription : Option SessionCursor} (seq : ℕ)
    (kept : subscription.isSome = c.subscription.isSome) :
    position { c with subscription, delivered := seq :: c.delivered } =
      c.position.map (max seq) := by
  cases subscription <;> cases old : c.subscription <;> simp_all [position, received]

theorem Ok.mono {m' : ℕ} (ok : c.Ok m) (le : m ≤ m') : c.Ok m' :=
  { ok with below := fun n eq => Nat.le_trans (ok.below n eq) le }

theorem Ok.deliver (ok : c.Ok m) (online : c.connected = true) {seq : ℕ} (bounded : seq ≤ m)
    (follows : ∀ k ∈ c.position, seq ≤ k + 1) {subscription : Option SessionCursor}
    (kept : subscription.isSome = c.subscription.isSome)
    (moved : ∀ cursor, subscription = some cursor → cursor.seq ≤ max seq c.received) :
    Ok { c with subscription, delivered := seq :: c.delivered } m where
  cursor := moved
  below k eq := by
    obtain ⟨k', eq', rfl⟩ := Option.map_eq_some_iff.1 ((position_deliver seq kept).symm.trans eq)
    exact Nat.max_le.2 ⟨bounded, ok.below k' eq'⟩
  covered managed k above upto := by
    have managed : c.subscription ≠ none := by
      simpa [← Option.isSome_iff_ne_none, kept] using managed
    obtain ⟨cursor, eq⟩ := Option.ne_none_iff_exists'.1 managed
    have next := follows c.received (by simp [position, eq])
    have upto : k ≤ max seq c.received := upto
    by_cases new : k = seq
    · exact new ▸ List.mem_cons_self ..
    · exact List.mem_cons_of_mem _ (ok.covered managed k above (by omega))
  pending cursor eq := by simp [(ok.pending cursor eq).2] at online

theorem Ok.handleHello (ok : c.Ok m) : c.handleFrame .serverHello =
    ({ c with connected := true, pendingSubscription := none }, [.clientHello c.subscription]) := by
  have kept : (c.pendingSubscription <|> c.subscription) = c.subscription := by
    cases pending : c.pendingSubscription with
    | none => rfl
    | some cursor => exact (ok.pending cursor pending).1.symm
  simp [EventSocket.handleFrame, kept]

theorem Ok.handleFrame (ok : c.Ok m) (greeted : frame = .serverHello ∨ c.connected = true)
    (bounded : frame.seq ≤ m) (follows : frame.Follows c.position) :
    (c.handleFrame frame).1.Ok m ∧ (c.handleFrame frame).1.position = frame.track c.position := by
  cases frame with
  | serverHello =>
    rw [ok.handleHello]
    exact ⟨{ ok with pending := fun cursor no => by cases no }, (track_quiet rfl rfl).symm⟩
  | resyncRequired =>
    obtain online := greeted.resolve_left (by simp)
    exact ⟨{
      cursor := fun cursor eq => by
        cases eq
        exact Nat.le_refl _
      below := fun n eq => Option.some.inj eq ▸ bounded
      covered := fun _ k above upto => absurd (Nat.lt_of_lt_of_le above upto) (Nat.lt_irrefl _)
      pending := fun cursor eq => by simp [(ok.pending cursor eq).2] at online }, rfl⟩
  | error seq =>
    exact ⟨ok.deliver (greeted.resolve_left (by simp)) bounded
      (follows.resolve_left (by simp [ServerFrame.isResync])) rfl
      fun cursor eq => Nat.le_trans (ok.cursor cursor eq) (Nat.le_max_right _ _),
      position_deliver seq rfl⟩
  | event isVolatile seq epoch =>
    cases isVolatile with
    | true => exact ⟨ok, (track_quiet rfl rfl).symm⟩
    | false =>
      obtain ⟨kept, moved⟩ := trackCursor_le seq epoch ok.cursor
      exact ⟨ok.deliver (greeted.resolve_left (by simp)) bounded
        (follows.resolve_left (by simp [ServerFrame.isResync])) kept moved,
        position_deliver seq kept⟩

theorem handleFrame_other (notHello : frame ≠ .serverHello) :
    (c.handleFrame frame).1.connected = c.connected ∧ (c.handleFrame frame).2 = [] := by
  cases frame with
  | serverHello => exact absurd rfl notHello
  | event isVolatile => cases isVolatile <;> exact ⟨rfl, rfl⟩
  | error | resyncRequired => exact ⟨rfl, rfl⟩

theorem Ok.subscribe (ok : c.Ok m) {cursor : SessionCursor} (served : cursor.seq ≤ m) :
    (c.subscribe cursor).1.Ok m := by
  unfold EventSocket.subscribe
  dsimp only
  split
  case isTrue online => exact {
      cursor := fun other eq => by
        cases eq
        exact Nat.le_refl _
      below := fun n eq => Option.some.inj eq ▸ served
      covered := fun _ k above upto => absurd (Nat.lt_of_lt_of_le above upto) (Nat.lt_irrefl _)
      pending := fun other eq => by
        have offline := (ok.pending other eq).2
        rw [online] at offline
        cases offline }
  case isFalse offline => exact {
      cursor := fun other eq => by
        cases eq
        exact Nat.le_refl _
      below := fun n eq => Option.some.inj eq ▸ served
      covered := fun _ k above upto => absurd (Nat.lt_of_lt_of_le above upto) (Nat.lt_irrefl _)
      pending := fun other eq => ⟨eq, Bool.eq_false_iff.2 offline⟩ }

theorem subscribe_spec (c : EventSocket) (cursor : SessionCursor) :
    (c.subscribe cursor).1.position = some cursor.seq ∧
      (c.subscribe cursor).1.connected = c.connected ∧
      (c.subscribe cursor).2 = if c.connected then [.subscribe cursor] else [] := by
  unfold EventSocket.subscribe
  dsimp only
  split <;> exact ⟨rfl, rfl, rfl⟩

end EventSocket

/-! ## The connection -/

/-- The cursor of a call of `getBufferedSince`. -/
def BufferedSinceCall.cursor {Ev : Type} : BufferedSinceCall Ev → SessionCursor
  | .opening cursor | .draining cursor _ | .flushing cursor _ _ | .reading cursor _ _ _
  | .returned cursor _ _ => cursor

/-- The watermark that a call has taken. -/
def BufferedSinceCall.watermark {Ev : Type} : BufferedSinceCall Ev → Option ℕ
  | .opening _ | .draining _ _ => none
  | .flushing _ currentSeq _ | .reading _ currentSeq _ _ => some currentSeq
  | .returned _ _ result => some result.currentSeq

namespace WsLink

/-- The cursors from which syncs are under way, or will be when the messages in flight arrive. -/
def underWay (link : WsLink) : List SessionCursor :=
  link.toServer.filterMap ClientMessage.cursor ++ link.syncs.map SyncTask.cursor

/-- A sync of the session is under way, or the handshake that begins one. -/
def busy (link : WsLink) : Bool :=
  link.toClient.contains .serverHello || !link.toServer.isEmpty || !link.syncs.isEmpty

/-- A message that begins a sync is in flight. -/
def Asked (link : WsLink) : Prop := ∃ message ∈ link.toServer, message.cursor.isSome

end WsLink

namespace SyncWorld

open SessionBroadcast

variable {Ev : Type}

/-- The number of durable events so far, which is `journal.seq` once the journal is open. -/
def watermark (w : SyncWorld Ev) : ℕ := w.server.history.length

/-- The next dispatch is one of a durable event. -/
def dispatchesDurable (w : SyncWorld Ev) : Bool :=
  match w.server.queue with
  | (isVolatile, _) :: _ => !isVolatile
  | [] => false

/-- When a step is safe.  A journal write succeeds.  While a sync of the session is under way on a
connection, a durable event is dispatched to it only if the client has received all earlier ones
once it has received what is in flight.  A client that subscribes on an open connection has nothing
in flight that skips an event behind its snapshot or takes it back, and no sync under way that
starts ahead of it.  A resync is answered before another durable event is dispatched. -/
def Timely (w : SyncWorld Ev) : SyncEvent Ev → Prop
  | .server event => event ≠ .written false
  | .dispatch isGlobal => w.dispatchesDurable = true → ∀ link ∈ w.link,
      isGlobal = true ∨ link.subscribed = true → link.busy = true →
        ∀ n ∈ drain w.client.position link.toClient, n = w.watermark
  | .subscribe cursor => ∀ link ∈ w.link,
      InOrder (some cursor.seq) link.toClient ∧ ∀ n ∈ drain (some cursor.seq) link.toClient,
        ∀ c ∈ cursor :: link.underWay, c.seq ≤ n
  | .finish i => ∀ link ∈ w.link, ∀ task ∈ link.syncs[i]?, ∀ result ∈ w.resultOf task,
      result.resyncRequired.isSome = true → result.currentSeq = w.watermark
  | _ => True

instance (w : SyncWorld Ev) (event : SyncEvent Ev) : Decidable (Timely w event) :=
  match event with
  | .server _ => inferInstanceAs (Decidable (_ ≠ _))
  | .dispatch _ => inferInstanceAs (Decidable (_ → ∀ link ∈ w.link, _ → _ → ∀ n ∈ drain _ _, _))
  | .subscribe cursor => inferInstanceAs (Decidable (∀ link ∈ w.link,
      InOrder _ _ ∧ ∀ n ∈ drain _ _, ∀ c ∈ cursor :: link.underWay, c.seq ≤ n))
  | .finish i => inferInstanceAs (Decidable (∀ link ∈ w.link, ∀ task ∈ link.syncs[i]?,
      ∀ result ∈ w.resultOf task, _ → result.currentSeq = _))
  | .restart | .connect | .disconnect | .receive | .handle | .begin _ | .snapshot =>
    inferInstanceAs (Decidable True)

/-- A connection to a client that is at `position`. -/
structure LinkOk (s : SessionBroadcast Ev) (online : Bool) (position : Option ℕ) (link : WsLink) :
    Prop where
  greeting : online = false ∧ link.toServer = [] ∧ link.subscribed = false ∧
      (∃ rest, link.toClient = .serverHello :: rest ∧ .serverHello ∉ rest) ∨
    online = true ∧ .serverHello ∉ link.toClient
  inOrder : InOrder position link.toClient
  bounded : ∀ frame ∈ link.toClient, frame.seq ≤ s.history.length
  fresh : link.subscribed = false →
    link.syncs = [] ∧ ∀ frame ∈ link.toClient, frame.isResync = false
  registered : position ≠ none → link.subscribed = true ∨ online = false ∨ link.Asked
  behind : ∀ c ∈ link.underWay, ∃ n, drain position link.toClient = some n ∧ c.seq ≤ n
  calls : ∀ cursor i, .waiting cursor i ∈ link.syncs →
    ∃ call, s.calls[i]? = some call ∧ call.cursor = cursor

/-- The client is at the watermark once it has received what is in flight, or something under way
will bring it there. -/
def Awaited (s : SessionBroadcast Ev) (online : Bool) (position : Option ℕ) (link : WsLink) :
    Prop :=
  (∀ n, drain position link.toClient = some n → n = s.history.length) ∨ online = false ∨
    link.Asked ∨ ∃ task ∈ link.syncs, ∀ cursor i, task = .waiting cursor i →
      ∀ call, s.calls[i]? = some call → ∀ seq, call.watermark = some seq → seq = s.history.length

structure Synced (w : SyncWorld Ev) : Prop where
  server : w.server.Inv
  snapshots : ∀ c ∈ w.snapshots, c.seq ≤ w.watermark
  client : w.client.Ok w.watermark
  unlinked : w.link = none → w.client.connected = false
  link : ∀ link, w.link = some link →
    LinkOk w.server w.client.connected w.client.position link ∧
      Awaited w.server w.client.connected w.client.position link

/-! ## Steps of the server -/

section

variable {s t : SessionBroadcast Ev} {online : Bool} {position : Option ℕ} {link : WsLink}
  {w w' : SyncWorld Ev} {isError : Ev → Bool}

/-- The calls go on: they keep their cursors, and a watermark they take is the present one. -/
def CallsGrow (s t : SessionBroadcast Ev) : Prop :=
  ∀ (i : ℕ) (call : BufferedSinceCall Ev), s.calls[i]? = some call →
    ∃ call' : BufferedSinceCall Ev, t.calls[i]? = some call' ∧ call'.cursor = call.cursor ∧
      (call'.watermark = call.watermark ∨ call'.watermark = some t.history.length)

theorem CallsGrow.of_eq (same : t.calls = s.calls) : CallsGrow s t := fun i call at_i =>
  ⟨call, by rw [same]; exact at_i, rfl, .inl rfl⟩

theorem bufferedSince_taken (s : SessionBroadcast Ev)
    (j : SessionEventJournal (EventEnvelope Ev)) (cursor : SessionCursor) :
    (s.bufferedSince j cursor).cursor = cursor ∧
      (s.bufferedSince j cursor).watermark = some j.seq := by
  unfold bufferedSince
  dsimp only
  split_ifs
  case neg =>
    split
    · split <;> exact ⟨rfl, rfl⟩
    · exact ⟨rfl, rfl⟩
  all_goals exact ⟨rfl, rfl⟩

theorem resumeCall_grow {j j' : SessionEventJournal (EventEnvelope Ev)}
    (seq : j.seq = s.history.length) {lines : ℕ} {call call' : BufferedSinceCall Ev}
    (next : s.resumeCall j lines call = some (j', call')) :
    call'.cursor = call.cursor ∧
      (call'.watermark = call.watermark ∨ call'.watermark = some s.history.length) := by
  cases call with
  | opening =>
    obtain ⟨-, rfl⟩ := Prod.mk.inj (Option.some.inj next)
    exact ⟨rfl, .inl rfl⟩
  | draining cursor =>
    simp only [resumeCall] at next
    split at next
    case isFalse => cases next
    case isTrue =>
      obtain ⟨-, rfl⟩ := Prod.mk.inj (Option.some.inj next)
      obtain ⟨kept, taken⟩ := bufferedSince_taken s j cursor
      exact ⟨kept, .inr (seq ▸ taken)⟩
  | flushing =>
    simp only [resumeCall] at next
    split at next
    · obtain ⟨-, rfl⟩ := Prod.mk.inj (Option.some.inj next)
      exact ⟨rfl, .inl rfl⟩
    · split at next
      · obtain ⟨-, rfl⟩ := Prod.mk.inj (Option.some.inj next)
        exact ⟨rfl, .inl rfl⟩
      · cases next
  | reading =>
    simp only [resumeCall] at next
    split at next
    · obtain ⟨-, rfl⟩ := Prod.mk.inj (Option.some.inj next)
      exact ⟨rfl, .inl rfl⟩
    · cases next
  | returned => cases next

theorem internal_step (inv : Inv s) {event : BroadcastEvent Ev} (internal : event.isInternal = true)
    (next : s.step event = some t) : t.history = s.history ∧ CallsGrow s t := by
  cases event with
  | publish =>
    cases next
    exact ⟨rfl, .of_eq rfl⟩
  | ready =>
    simp only [SessionBroadcast.step] at next
    split at next
    · cases next
      exact ⟨rfl, .of_eq rfl⟩
    · cases next
  | dispatch | restart => cases internal
  | written | finallyFlush =>
    simp only [SessionBroadcast.step] at next
    split at next
    · split at next
      · cases next
        exact ⟨rfl, .of_eq rfl⟩
      · cases next
    · cases next
  | getBufferedSince =>
    cases next
    refine ⟨rfl, fun i call at_i => ⟨call, ?_, rfl, .inl rfl⟩⟩
    exact (List.getElem?_append_left (List.getElem?_eq_some_iff.1 at_i).1).trans at_i
  | resume i =>
    simp only [SessionBroadcast.step] at next
    split at next
    case h_2 => cases next
    case h_1 j call journal at_i =>
      obtain ⟨⟨j', call'⟩, resumed, rfl⟩ := Option.map_eq_some_iff.1 next
      have grown := resumeCall_grow (inv.journal j journal).seq resumed
      refine ⟨rfl, fun k other at_k => ?_⟩
      by_cases same : i = k
      · subst same
        obtain rfl : call = other := Option.some.inj (at_i.symm.trans at_k)
        exact ⟨call', by simp [(List.getElem?_eq_some_iff.1 at_i).1], grown⟩
      · exact ⟨other, by simp [List.getElem?_set_ne same, at_k], rfl, .inl rfl⟩

theorem dispatched_grow (s : SessionBroadcast Ev)
    (eq : t.calls = s.calls.map BufferedSinceCall.dispatched) : CallsGrow s t := by
  intro i call at_i
  refine ⟨BufferedSinceCall.dispatched call, by rw [eq, List.getElem?_map, at_i]; rfl, ?_⟩
  cases call <;> exact ⟨rfl, .inl rfl⟩

theorem LinkOk.of_server (ok : LinkOk s online position link)
    (longer : s.history.length ≤ t.history.length) (grow : CallsGrow s t) :
    LinkOk t online position link :=
  { ok with
    bounded := fun frame mem => Nat.le_trans (ok.bounded frame mem) longer
    calls := fun cursor i mem => by
      obtain ⟨call, at_i, eq⟩ := ok.calls cursor i mem
      obtain ⟨call', at_i', eq', -⟩ := grow i call at_i
      exact ⟨call', at_i', eq'.trans eq⟩ }

theorem Awaited.of_server (awaited : Awaited s online position link)
    (ok : LinkOk s online position link) (same : t.history.length = s.history.length)
    (grow : CallsGrow s t) : Awaited t online position link := by
  unfold Awaited
  rw [same]
  refine awaited.imp_right fun rest => rest.imp_right fun more => more.imp_right ?_
  rintro ⟨task, mem, current⟩
  refine ⟨task, mem, fun cursor i eq call' at_i' seq taken => ?_⟩
  obtain ⟨call, at_i, -⟩ := ok.calls cursor i (eq ▸ mem)
  obtain ⟨call'', at_i'', -, watermark⟩ := grow i call at_i
  cases at_i''.symm.trans at_i'
  rcases watermark with kept | now
  · exact current cursor i eq call at_i seq (kept ▸ taken)
  · exact (Option.some.inj (taken.symm.trans now)).trans same

theorem LinkOk.send (ok : LinkOk s online position link) {frames : List ServerFrame}
    (notHello : .serverHello ∉ frames)
    (inOrder : InOrder (drain position link.toClient) frames)
    (bounded : ∀ frame ∈ frames, frame.seq ≤ s.history.length)
    (managed : link.subscribed = false → ∀ frame ∈ frames, frame.isResync = false)
    (further : ∀ k, drain position link.toClient = some k →
      ∃ next, drain (some k) frames = some next ∧ k ≤ next) :
    LinkOk s online position { link with toClient := link.toClient ++ frames } :=
  { ok with
    greeting := by
      rcases ok.greeting with ⟨offline, sent, unsubscribed, rest, eq, never⟩ | ⟨online, never⟩
      · exact .inl ⟨offline, sent, unsubscribed, rest ++ frames, by rw [eq, List.cons_append],
          by simp [never, notHello]⟩
      · exact .inr ⟨online, by simp [never, notHello]⟩
    inOrder := inOrder_append.2 ⟨ok.inOrder, inOrder⟩
    bounded := fun frame mem => (List.mem_append.1 mem).elim (ok.bounded frame) (bounded frame)
    fresh := fun unsubscribed => ⟨(ok.fresh unsubscribed).1, fun frame mem =>
      (List.mem_append.1 mem).elim ((ok.fresh unsubscribed).2 frame)
        (managed unsubscribed frame)⟩
    behind := fun c mem => by
      obtain ⟨k, eq, le⟩ := ok.behind c mem
      obtain ⟨next, eq', le'⟩ := further k eq
      exact ⟨next, by rw [drain_append, eq, eq'], Nat.le_trans le le'⟩ }

theorem LinkOk.sendEvent (ok : LinkOk s online position link) {frame : ServerFrame}
    (notHello : frame ≠ .serverHello) (noResync : frame.isResync = false)
    (bounded : frame.seq ≤ s.history.length)
    (follows : ∀ k, drain position link.toClient = some k → frame.seq ≤ k + 1) :
    LinkOk s online position { link with toClient := link.toClient ++ [frame] } := by
  refine ok.send (by simpa using notHello.symm) ⟨.inr follows, trivial⟩ ?_ ?_ fun k eq => ?_
  · simpa using bounded
  · simpa using fun _ => noResync
  · exact ⟨max frame.seq k, track_of noResync, Nat.le_max_right _ _⟩

theorem frameOf_spec (isError : Ev → Bool) (envelope : EventEnvelope Ev) :
    (frameOf isError envelope).seq = envelope.seq ∧
      (frameOf isError envelope).isResync = false ∧
      frameOf isError envelope ≠ .serverHello := by
  unfold frameOf
  split <;> exact ⟨rfl, rfl, by simp⟩

theorem LinkOk.volatile (ok : LinkOk s online position link)
    (awaited : Awaited s online position link) (isGlobal : Bool) (seq : ℕ) (epoch : Epoch) :
    LinkOk s online position (fanOut link isGlobal (.event true seq epoch)) ∧
      Awaited s online position (fanOut link isGlobal (.event true seq epoch)) := by
  unfold fanOut
  split
  case isFalse => exact ⟨ok, awaited⟩
  case isTrue =>
    refine ⟨ok.sendEvent (by simp) rfl (Nat.zero_le _) fun k _ => Nat.zero_le _, ?_⟩
    refine awaited.imp_left fun there n eq => there n ?_
    rwa [drain_append, drain_cons, track_quiet rfl rfl] at eq

theorem Awaited.there (awaited : Awaited s online position link)
    (ok : LinkOk s online position link) (idle : link.busy = false) :
    ∀ n, drain position link.toClient = some n → n = s.history.length := by
  simp only [WsLink.busy, Bool.or_eq_false_iff, Bool.not_eq_false', List.isEmpty_iff] at idle
  obtain ⟨⟨greeted, sent⟩, tasks⟩ := idle
  rcases awaited with there | offline | ⟨message, mem, -⟩ | ⟨task, mem, -⟩
  · exact there
  · rcases ok.greeting with ⟨-, -, -, rest, first, -⟩ | ⟨online, -⟩
    · simp [first] at greeted
    · rw [offline] at online
      cases online
  · simp [sent] at mem
  · simp [tasks] at mem

section

variable (ok : LinkOk s online position link)
include ok

/-- A durable event is dispatched to a client that has received the earlier ones, or one for which
more is to come. -/
theorem LinkOk.durable
    (awaited : Awaited s online position link)
    (grown : t.history.length = s.history.length + 1) (grow : CallsGrow s t) (isGlobal : Bool)
    {envelope : EventEnvelope Ev} (numbered : envelope.seq = s.history.length + 1)
    (timely : isGlobal = true ∨ link.subscribed = true → link.busy = true →
      ∀ n, drain position link.toClient = some n → n = s.history.length) :
    LinkOk t online position (fanOut link isGlobal (frameOf isError envelope)) ∧
      Awaited t online position (fanOut link isGlobal (frameOf isError envelope)) := by
  have later := ok.of_server (Nat.le.intro grown.symm) grow
  obtain ⟨seq, noResync, notHello⟩ := frameOf_spec isError envelope
  unfold fanOut
  split
  case isFalse unreached =>
    -- Nothing has been asked for yet, or the message that asks for it is still to be handled.
    obtain ⟨-, unsubscribed⟩ := not_or.1 unreached
    refine ⟨later, ?_⟩
    by_cases unmanaged : position = none
    · refine .inl fun n eq => ?_
      rw [unmanaged, drain_none (ok.fresh (Bool.eq_false_iff.2 unsubscribed)).2] at eq
      cases eq
    · exact .inr (((ok.registered unmanaged).resolve_left unsubscribed).imp_right .inl)
  case isTrue reached =>
    have current : ∀ n, drain position link.toClient = some n → n = s.history.length := by
      cases busy : link.busy with
      | true => exact timely reached busy
      | false => exact awaited.there ok busy
    refine ⟨later.sendEvent notHello noResync (by omega) fun k eq => ?_, .inl fun n eq => ?_⟩
    · have at_k := current k eq
      omega
    · rw [drain_append, drain_cons, track_of noResync] at eq
      obtain ⟨k, at_k, rfl⟩ := Option.map_eq_some_iff.1 eq
      have at_k := current k at_k
      omega

/-! ## Steps of the client -/

theorem LinkOk.greeted (up : link.subscribed = true) :
    online = true ∧ .serverHello ∉ link.toClient := by
  refine ok.greeting.resolve_left fun ⟨_, _, unsubscribed, _⟩ => ?_
  rw [up] at unsubscribed
  cases unsubscribed

theorem LinkOk.hello {toClient : List ServerFrame}
    (frames : link.toClient = .serverHello :: toClient) {cursor : Option SessionCursor}
    (behind : ∀ c, cursor = some c → ∃ n, position = some n ∧ c.seq ≤ n)
    (managed : position ≠ none → cursor.isSome) :
    let link' := { link with toClient, toServer := link.toServer ++ [.clientHello cursor] }
    LinkOk s true position link' ∧ Awaited s true position link' := by
  obtain ⟨offline, sent, unsubscribed, rest, eq, once⟩ | ⟨-, none⟩ := ok.greeting
  case inr => simp [frames] at none
  obtain rfl : toClient = rest := (List.cons.inj (frames.symm.trans eq)).2
  obtain ⟨idle, noResync⟩ := ok.fresh unsubscribed
  have inOrder := ok.inOrder
  rw [frames] at inOrder
  have others {frame : ServerFrame} (mem : frame ∈ toClient) : frame ∈ link.toClient :=
    frames ▸ List.mem_cons_of_mem _ mem
  have asked (known : position ≠ none) : ∃ message ∈ link.toServer ++ [.clientHello cursor],
      message.cursor.isSome :=
    ⟨_, List.mem_append_right _ (List.mem_singleton_self _), managed known⟩
  refine ⟨{ ok with
    greeting := .inr ⟨rfl, once⟩
    inOrder := (track_quiet rfl rfl : ServerFrame.serverHello.track position = position) ▸ inOrder.2
    bounded := fun frame mem => ok.bounded frame (others mem)
    fresh := fun _ => ⟨idle, fun frame mem => noResync frame (others mem)⟩
    registered := fun known => .inr (.inr (asked known))
    behind := fun c mem => by
      obtain ⟨n, eq, le⟩ := behind c (by
        simpa [WsLink.underWay, sent, idle, ClientMessage.cursor] using mem)
      obtain ⟨next, eq', le'⟩ := drain_some n toClient
      exact ⟨next, by rw [eq, eq'], Nat.le_trans le (le' fun frame mem =>
        noResync frame (others mem))⟩ }, ?_⟩
  by_cases known : position = none
  · refine .inl fun n eq => ?_
    have eq : drain position toClient = some n := eq
    rw [known, drain_none fun frame mem => noResync frame (others mem)] at eq
    cases eq
  · exact .inr (.inr (.inl (asked known)))

theorem LinkOk.received (awaited : Awaited s online position link) {frame : ServerFrame}
    {toClient : List ServerFrame} (frames : link.toClient = frame :: toClient)
    (notHello : frame ≠ .serverHello) :
    LinkOk s online (frame.track position) { link with toClient } ∧
      Awaited s online (frame.track position) { link with toClient } := by
  have drained : drain (frame.track position) toClient = drain position link.toClient := by
    rw [frames, drain_cons]
  have others {frame' : ServerFrame} (mem : frame' ∈ toClient) : frame' ∈ link.toClient :=
    frames ▸ List.mem_cons_of_mem _ mem
  have inOrder := ok.inOrder
  rw [frames] at inOrder
  refine ⟨{ ok with
    greeting := by
      rcases ok.greeting with ⟨-, -, -, rest, eq, -⟩ | ⟨online, once⟩
      · exact absurd (List.cons.inj (frames.symm.trans eq)).1 notHello
      · exact .inr ⟨online, fun mem => once (others mem)⟩
    inOrder := inOrder.2
    bounded := fun frame' mem => ok.bounded frame' (others mem)
    fresh := fun unsubscribed => ⟨(ok.fresh unsubscribed).1, fun frame' mem =>
      (ok.fresh unsubscribed).2 frame' (others mem)⟩
    registered := fun known => by
      cases subscribed : link.subscribed with
      | true => exact .inl rfl
      | false =>
        have noResync := (ok.fresh subscribed).2 frame (frames ▸ List.mem_cons_self ..)
        have rest := ok.registered fun none => known (by simp [track_of noResync, none])
        simpa [subscribed, WsLink.Asked] using rest
    behind := fun c mem => by
      obtain ⟨n, eq, le⟩ := ok.behind c mem
      exact ⟨n, drained.trans eq, le⟩ }, ?_⟩
  exact awaited.imp_left fun there n eq => there n (drained.symm.trans eq)

theorem LinkOk.subscribed (cursor : SessionCursor)
    (inOrder : InOrder (some cursor.seq) link.toClient)
    (ahead : ∀ n, drain (some cursor.seq) link.toClient = some n →
      ∀ c ∈ cursor :: link.underWay, c.seq ≤ n) :
    let messages := if online then [.subscribe cursor] else []
    let link' := { link with toServer := link.toServer ++ messages }
    LinkOk s online (some cursor.seq) link' ∧ Awaited s online (some cursor.seq) link' := by
  obtain ⟨n, eq, -⟩ := drain_some cursor.seq link.toClient
  cases online with
  | false =>
    simp only [Bool.false_eq_true, if_false, List.append_nil]
    exact ⟨{ ok with
      inOrder := inOrder
      registered := fun _ => .inr (.inl rfl)
      behind := fun c mem => ⟨n, eq, ahead n eq c (List.mem_cons_of_mem _ mem)⟩ },
      .inr (.inl rfl)⟩
  | true =>
    have asked : WsLink.Asked { link with toServer := link.toServer ++ [.subscribe cursor] } :=
      ⟨.subscribe cursor, by simp, rfl⟩
    simp only [if_true]
    exact ⟨{ ok with
      greeting := .inr (ok.greeting.resolve_left fun no => by simp at no)
      inOrder := inOrder
      registered := fun _ => .inr (.inr asked)
      behind := fun c mem => ⟨n, eq, ahead n eq c (by
        simp only [WsLink.underWay, List.filterMap_append, List.filterMap_cons,
          List.filterMap_nil, ClientMessage.cursor, List.mem_append, List.mem_cons] at mem ⊢
        tauto)⟩ }, .inr (.inr (.inl asked))⟩

/-! ## Steps of a sync -/

theorem LinkOk.handled (awaited : Awaited s online position link) {message : ClientMessage}
    {toServer : List ClientMessage} (messages : link.toServer = message :: toServer) :
    LinkOk s online position (handleMessage { link with toServer } message) ∧
      Awaited s online position (handleMessage { link with toServer } message) := by
  have greeting : online = true ∧ .serverHello ∉ link.toClient :=
    ok.greeting.resolve_left fun no => by simp [messages] at no
  have behind := ok.behind
  simp only [WsLink.underWay, messages] at behind
  have registered := ok.registered
  simp only [WsLink.Asked, messages] at registered
  unfold handleMessage
  split
  case h_1 none =>
    rw [List.filterMap_cons_none none] at behind
    simp only [Awaited, WsLink.Asked, messages, List.mem_cons, exists_eq_or_imp, none,
      Option.isSome_none, Bool.false_eq_true, false_or] at awaited registered ⊢
    exact ⟨{ ok with greeting := .inr greeting, registered := registered, behind := behind },
      awaited⟩
  case h_2 cursor cursor_eq =>
    rw [List.filterMap_cons_some cursor_eq] at behind
    refine ⟨{ ok with
      greeting := .inr greeting
      fresh := fun never => by cases never
      registered := fun _ => .inl rfl
      behind := fun c mem => behind c (by
        simp only [WsLink.underWay, List.map_append, List.map_cons, List.map_nil, List.mem_append,
          SyncTask.cursor, List.cons_append, List.mem_cons] at mem ⊢
        tauto)
      calls := fun cursor i mem => ok.calls cursor i (by simpa using mem) }, ?_⟩
    refine awaited.imp_right fun rest => rest.imp_right fun more => .inr ?_
    rcases more with - | ⟨task, mem, current⟩
    · exact ⟨.registered cursor, by simp, fun _ _ no => by cases no⟩
    · exact ⟨task, List.mem_append_left _ mem, current⟩

theorem LinkOk.synced {i : ℕ} {task : SyncTask}
    (at_i : link.syncs[i]? = some task) {syncs : List SyncTask}
    (cursors : ∀ task ∈ syncs, task.cursor ∈ link.syncs.map SyncTask.cursor)
    (calls : ∀ cursor i, .waiting cursor i ∈ syncs →
      ∃ call, s.calls[i]? = some call ∧ call.cursor = cursor) :
    link.subscribed = true ∧ LinkOk s online position { link with syncs } := by
  have up : link.subscribed = true := by
    by_contra down
    simp [(ok.fresh (Bool.eq_false_iff.2 down)).1] at at_i
  refine ⟨up, { ok with
    greeting := .inr (ok.greeted up)
    fresh := fun down => absurd up (Bool.eq_false_iff.1 down)
    registered := fun _ => .inl up
    behind := fun c mem => ok.behind c ?_
    calls := calls }⟩
  simp only [WsLink.underWay, List.mem_append] at mem ⊢
  refine mem.imp_right fun new => ?_
  obtain ⟨task, sync, rfl⟩ := List.mem_map.1 new
  exact cursors task sync

end

variable {cursor : SessionCursor}

theorem LinkOk.begun (ok : LinkOk s online position link) (awaited : Awaited s online position link)
    {i : ℕ} (at_i : link.syncs[i]? = some (.registered cursor)) (same : t.history = s.history)
    (called : t.calls = s.calls ++ [.opening cursor]) :
    let link' := { link with syncs := link.syncs.set i (.waiting cursor s.calls.length) }
    LinkOk t online position link' ∧ Awaited t online position link' := by
  have last : t.calls[s.calls.length]? = some (.opening cursor) := by simp [called]
  have grow : CallsGrow s t := fun k call at_k =>
    ⟨call, by rw [called, List.getElem?_append_left (List.getElem?_eq_some_iff.1 at_k).1, at_k],
      rfl, .inl rfl⟩
  have length := congrArg List.length same
  have awaited := awaited.of_server ok length grow
  have ok := ok.of_server (Nat.le_of_eq length.symm) grow
  refine ⟨(ok.synced at_i (fun task mem => ?_) fun cursor' k mem => ?_).2, ?_⟩
  · rcases List.mem_or_eq_of_mem_set mem with old | rfl
    · exact List.mem_map_of_mem old
    · exact List.mem_map.2 ⟨_, List.mem_of_getElem? at_i, rfl⟩
  · rcases List.mem_or_eq_of_mem_set mem with old | eq
    · exact ok.calls cursor' k old
    · obtain ⟨rfl, rfl⟩ := SyncTask.waiting.inj eq
      exact ⟨_, last, rfl⟩
  · refine awaited.imp_right fun rest => rest.imp_right fun more => more.imp_right ?_
    rintro ⟨task, mem, current⟩
    obtain ⟨k, at_k⟩ := List.getElem?_of_mem mem
    by_cases here : i = k
    · subst here
      refine ⟨_, List.mem_set (List.getElem?_eq_some_iff.1 at_i).1 _,
        fun cursor' k eq call at_k seq taken => ?_⟩
      obtain ⟨rfl, rfl⟩ := SyncTask.waiting.inj eq
      cases last.symm.trans at_k
      cases taken
    · exact ⟨task, List.mem_of_getElem? ((List.getElem?_set_ne here).trans at_k), current⟩

theorem replay_inOrder (n k : ℕ) (entries : List (JournalEntry (EventEnvelope Ev)))
    (reached : k ≤ n)
    (positions : ∀ i entry, entries[i]? = some entry → entry.envelope.seq = k + i + 1) :
    InOrder (some n) (replayFrames isError entries) ∧
      drain (some n) (replayFrames isError entries) = some (max n (k + entries.length)) := by
  induction entries generalizing n k with
  | nil => exact ⟨trivial, congrArg some (Nat.max_eq_left reached).symm⟩
  | cons entry entries ih =>
    obtain ⟨seq, noResync, -⟩ := frameOf_spec isError entry.envelope
    have first : entry.envelope.seq = k + 1 := positions 0 entry rfl
    obtain ⟨inOrder, drained⟩ := ih (max (k + 1) n) (k + 1) (Nat.le_max_left _ _)
      fun i entry at_i => (positions (i + 1) entry at_i).trans (by omega)
    have moved : (frameOf isError entry.envelope).track (some n) = some (max (k + 1) n) := by
      simp [track_of noResync, seq, first]
    refine ⟨⟨.inr fun k' eq => ?_, moved ▸ inOrder⟩, ?_⟩
    · cases eq
      change (frameOf isError entry.envelope).seq ≤ n + 1
      omega
    · rw [replayFrames, List.map_cons, drain_cons, moved]
      exact drained.trans (congrArg some (by simp only [List.length_cons]; omega))

/-- The answer of a call takes a client that is not behind its cursor on, and no further than the
watermark; it takes the client there if the call has seen the watermark. -/
theorem answer_frames (inv : s.Inv) {seq n : ℕ} {result : BufferedSinceResult Ev}
    (returned : .returned cursor seq result ∈ s.calls)
    (timely : result.resyncRequired.isSome = true → result.currentSeq = s.history.length)
    (behind : cursor.seq ≤ n) (upper : n ≤ s.history.length) :
    InOrder (some n) (answerFrames isError result) ∧
      (∀ frame ∈ answerFrames isError result,
        frame.seq ≤ s.history.length ∧ frame ≠ .serverHello) ∧
      ∃ next, drain (some n) (answerFrames isError result) = some next ∧ n ≤ next ∧
        (n = s.history.length ∨ result.currentSeq = s.history.length →
          next = s.history.length) := by
  cases resync : result.resyncRequired with
  | some =>
    have current := timely (by simp [resync])
    rw [answerFrames, if_pos (by simp [resync])]
    refine ⟨⟨.inl rfl, trivial⟩, fun frame mem => ?_, _, rfl, current ▸ upper, fun _ => current⟩
    obtain rfl := List.mem_singleton.1 mem
    exact ⟨Nat.le_of_eq current, by simp⟩
  | none =>
    obtain ⟨known, served⟩ := inv.calls _ returned
    obtain ⟨m, from_current, upto, events⟩ := served resync
    have known : m ≤ s.history.length := Nat.le_trans upto known
    have positions (k : ℕ) (entry : JournalEntry (EventEnvelope Ev))
        (at_k : result.events[k]? = some entry) :
        entry.envelope.seq = cursor.seq + k + 1 ∧ cursor.seq + k < m := by
      rw [events, List.getElem?_drop, List.getElem?_take] at at_k
      split at at_k
      case isTrue inside =>
        exact ⟨(inv.stamped entry (List.mem_of_getElem? at_k)).trans
          (inv.numbered (cursor.seq + k) entry at_k), inside⟩
      case isFalse => cases at_k
    have length : result.events.length = m - cursor.seq := by
      rw [events, List.length_drop, List.length_take]
      exact congrArg (· - cursor.seq) (Nat.min_eq_left known)
    obtain ⟨inOrder, drained⟩ := replay_inOrder n cursor.seq result.events
      behind fun k entry at_k => (positions k entry at_k).1
    rw [answerFrames, if_neg (by simp [resync])]
    refine ⟨inOrder, fun frame mem => ?_, _, drained, by omega, fun whole => by omega⟩
    obtain ⟨entry, replayed, rfl⟩ := List.mem_map.1 mem
    obtain ⟨k, at_k⟩ := List.getElem?_of_mem replayed
    obtain ⟨numbered, inside⟩ := positions k entry at_k
    obtain ⟨seq, -, notHello⟩ := frameOf_spec isError entry.envelope
    exact ⟨by omega, notHello⟩

theorem LinkOk.finished (ok : LinkOk s online position link)
    (awaited : Awaited s online position link) (inv : s.Inv)
    (below : ∀ n, position = some n → n ≤ s.history.length) {i call seq : ℕ}
    {cursor' : SessionCursor} {result : BufferedSinceResult Ev}
    (at_i : link.syncs[i]? = some (.waiting cursor call))
    (returned : s.calls[call]? = some (.returned cursor' seq result))
    (timely : result.resyncRequired.isSome = true → result.currentSeq = s.history.length) :
    let link' := { link with
      toClient := link.toClient ++ answerFrames isError result
      syncs := link.syncs.eraseIdx i }
    LinkOk s online position link' ∧ Awaited s online position link' := by
  have mem_i := List.mem_of_getElem? at_i
  obtain rfl : cursor' = cursor := by
    obtain ⟨other, at_call, eq⟩ := ok.calls cursor call mem_i
    cases at_call.symm.trans returned
    exact eq
  obtain ⟨n, drained, behind⟩ := ok.behind cursor'
    (List.mem_append_right _ (List.mem_map.2 ⟨_, mem_i, rfl⟩))
  obtain ⟨inOrder, frames, next, eq, further, there⟩ := answer_frames inv
    (List.mem_of_getElem? returned) timely behind (drain_le below ok.bounded n drained)
  obtain ⟨up, left⟩ := ok.synced at_i
    (fun task mem => List.mem_map_of_mem (List.mem_of_mem_eraseIdx mem))
    fun cursor k mem => ok.calls cursor k (List.mem_of_mem_eraseIdx mem)
  refine ⟨left.send (fun mem => (frames _ mem).2 rfl) (drained ▸ inOrder)
    (fun frame mem => (frames frame mem).1) (fun down => absurd up (Bool.eq_false_iff.1 down))
    fun k at_k => ?_, ?_⟩
  · cases drained.symm.trans at_k
    exact ⟨next, eq, further⟩
  · have reached (whole : n = s.history.length ∨ result.currentSeq = s.history.length) (n' : ℕ)
        (eq' : drain position (link.toClient ++ answerFrames isError result) = some n') :
        n' = s.history.length := by
      rw [drain_append, drained, eq] at eq'
      exact Option.some.inj eq' ▸ there whole
    rcases awaited with current | offline | asked | ⟨task, mem, fresh⟩
    · exact .inl (reached (.inl (current n drained)))
    · exact .inr (.inl offline)
    · exact .inr (.inr (.inl asked))
    · -- The promise was this sync, or it is another one that goes on.
      obtain ⟨k, at_k⟩ := List.getElem?_of_mem mem
      by_cases same : k = i
      · subst same
        cases at_k.symm.trans at_i
        exact .inl (reached (.inr (fresh _ _ rfl _ returned _ rfl)))
      · exact .inr (.inr (.inr ⟨task, List.mem_eraseIdx_iff_getElem?.2 ⟨k, same, at_k⟩, fresh⟩))

/-! ## Runs -/

section

variable (synced : Synced w)
include synced

theorem Synced.onServer {event : BroadcastEvent Ev} (timely : Timely w (.server event))
    (next : w.step isError (.server event) = some w') :
    Synced w' := by
  simp only [step] at next
  split at next
  case isFalse => cases next
  case isTrue internal =>
    obtain ⟨server, stepped, rfl⟩ := Option.map_eq_some_iff.1 next
    obtain ⟨same, grow⟩ := internal_step synced.server internal stepped
    have length : server.history.length = w.watermark := congrArg List.length same
    exact {
      server := step_inv synced.server timely stepped
      snapshots := fun c mem => Nat.le_trans (synced.snapshots c mem) (Nat.le_of_eq length.symm)
      client := synced.client.mono (Nat.le_of_eq length.symm)
      unlinked := synced.unlinked
      link := fun link linked =>
        ⟨(synced.link link linked).1.of_server (Nat.le_of_eq length.symm) grow,
          (synced.link link linked).2.of_server (synced.link link linked).1 length grow⟩ }

theorem Synced.dispatch {isGlobal : Bool} (timely : Timely w (.dispatch isGlobal))
    (next : w.step isError (.dispatch isGlobal) = some w') : Synced w' := by
  simp only [step] at next
  split at next
  case h_2 => cases next
  case h_1 server frame stepped sent =>
    cases next
    have inv := step_inv synced.server (by simp) stepped
    simp only [SessionBroadcast.step] at stepped
    split at stepped
    case h_2 => cases stepped
    case h_1 j isVolatile event queue journal queued =>
      cases stepped
      have numbered : j.seq = w.watermark := (synced.server.journal j journal).seq
      cases isVolatile with
      | true =>
        simp only [nextFrame, journal, queued, Option.some.injEq] at sent
        subst sent
        exact { synced with
          server := inv
          unlinked := fun eq => synced.unlinked (Option.map_eq_none_iff.1 eq)
          link := fun link' eq => by
            obtain ⟨link, linked, rfl⟩ := Option.map_eq_some_iff.1 eq
            obtain ⟨ok, awaited⟩ := synced.link link linked
            refine LinkOk.volatile (ok.of_server ?_ ?_) (awaited.of_server ok ?_ ?_) isGlobal _ _
            · exact Nat.le_refl _
            · exact dispatched_grow _ rfl
            · rfl
            · exact dispatched_grow _ rfl }
      | false =>
        simp only [nextFrame, journal, queued, Option.some.injEq] at sent
        subst sent
        have longer {entry : JournalEntry (EventEnvelope Ev)} :
            w.watermark ≤ (w.server.history ++ [entry]).length := by
          simp [watermark]
        exact {
          server := inv
          snapshots := fun c mem => Nat.le_trans (synced.snapshots c mem) longer
          client := synced.client.mono longer
          unlinked := fun eq => synced.unlinked (Option.map_eq_none_iff.1 eq)
          link := fun link' eq => by
            obtain ⟨link, linked, rfl⟩ := Option.map_eq_some_iff.1 eq
            have durable := timely (by rw [dispatchesDurable, queued]; rfl) link linked
            obtain ⟨ok, awaited⟩ := synced.link link linked
            exact ok.durable awaited List.length_append (dispatched_grow _ rfl) isGlobal
              (congrArg (· + 1) numbered) durable }

theorem Synced.unlink {server : SessionBroadcast Ev} (inv : server.Inv)
    (same : server.history = w.server.history) :
    Synced { w with server, link := none, client := { w.client with connected := false } } where
  server := inv
  snapshots c mem := Nat.le_trans (synced.snapshots c mem)
    (Nat.le_of_eq (congrArg List.length same.symm))
  client :=
    { synced.client.mono (Nat.le_of_eq (congrArg List.length same.symm)) with
      pending := fun cursor eq => ⟨(synced.client.pending cursor eq).1, rfl⟩ }
  unlinked _ := rfl
  link _ no := by cases no

theorem Synced.restart (next : w.step isError .restart = some w') :
    Synced w' := by
  obtain ⟨server, stepped, rfl⟩ := Option.map_eq_some_iff.1 next
  refine synced.unlink (step_inv synced.server (by simp) stepped) ?_
  simp only [SessionBroadcast.step] at stepped
  split at stepped
  · exact Option.some.inj stepped ▸ rfl
  · split at stepped
    · exact Option.some.inj stepped ▸ rfl
    · cases stepped

theorem Synced.relink {link' : WsLink}
    (ok : LinkOk w.server w.client.connected w.client.position link' ∧
      Awaited w.server w.client.connected w.client.position link') :
    Synced { w with link := some link' } :=
  { synced with
    unlinked := fun no => by cases no
    link := fun _ eq => Option.some.inj eq ▸ ok }

theorem Synced.connect (next : w.step isError .connect = some w') :
    Synced w' := by
  simp only [step] at next
  split at next
  case isFalse => cases next
  case isTrue unlinked =>
    cases next
    have offline := synced.unlinked (Option.isNone_iff_eq_none.1 unlinked)
    exact synced.relink ⟨{
      greeting := .inl ⟨offline, rfl, rfl, [], rfl, List.not_mem_nil⟩
      inOrder := ⟨.inr fun n _ => Nat.zero_le _, trivial⟩
      bounded := by simp [ServerFrame.seq]
      fresh := fun _ => ⟨rfl, by simp [ServerFrame.isResync]⟩
      registered := fun _ => .inr (.inl offline)
      behind := by simp [WsLink.underWay]
      calls := by simp }, .inr (.inl offline)⟩

theorem Synced.disconnect (next : w.step isError .disconnect = some w') :
    Synced w' := by
  simp only [step] at next
  split at next
  case isFalse => cases next
  case isTrue => exact Option.some.inj next ▸ synced.unlink synced.server rfl

theorem Synced.receive (next : w.step isError .receive = some w') :
    Synced w' := by
  obtain ⟨link, linked, next⟩ := Option.bind_eq_some_iff.1 next
  obtain ⟨frame, first, next⟩ := Option.bind_eq_some_iff.1 next
  cases next
  obtain ⟨toClient, frames⟩ := List.head?_eq_some_iff.1 first
  obtain ⟨ok, awaited⟩ := synced.link link linked
  have greeted : frame = .serverHello ∨ w.client.connected = true := by
    rcases ok.greeting with ⟨-, -, -, rest, eq, -⟩ | ⟨online, -⟩
    · exact .inl (List.cons.inj (frames.symm.trans eq)).1
    · exact .inr online
  have inOrder := ok.inOrder
  rw [frames] at inOrder
  obtain ⟨client, moved⟩ := synced.client.handleFrame greeted
    (ok.bounded frame (frames ▸ List.mem_cons_self ..)) inOrder.1
  refine { synced with
    client
    unlinked := fun no => by cases no
    link := fun link' eq => ?_ }
  cases eq
  simp only [frames, List.tail_cons]
  by_cases hello : frame = .serverHello
  · subst hello
    rw [synced.client.handleHello]
    refine ok.hello frames (fun c eq => ⟨w.client.received, ?_, synced.client.cursor c eq⟩)
      fun known => ?_
    · simp [EventSocket.position, eq]
    · exact Option.isSome_iff_ne_none.2 fun none => known (EventSocket.position_eq_none.2 none)
  · obtain ⟨connected, silent⟩ := EventSocket.handleFrame_other (c := w.client) hello
    rw [silent, List.append_nil, connected, moved]
    exact ok.received awaited frames hello

theorem Synced.handle (next : w.step isError .handle = some w') :
    Synced w' := by
  obtain ⟨link, linked, next⟩ := Option.bind_eq_some_iff.1 next
  obtain ⟨message, first, next⟩ := Option.bind_eq_some_iff.1 next
  obtain ⟨toServer, messages⟩ := List.head?_eq_some_iff.1 first
  cases next
  obtain ⟨ok, awaited⟩ := synced.link link linked
  simp only [messages, List.tail_cons]
  exact synced.relink (ok.handled awaited messages)

theorem Synced.begin {i : ℕ} (next : w.step isError (.begin i) = some w') :
    Synced w' := by
  obtain ⟨link, linked, next⟩ := Option.bind_eq_some_iff.1 next
  obtain ⟨task, at_i, next⟩ := Option.bind_eq_some_iff.1 next
  obtain ⟨ok, awaited⟩ := synced.link link linked
  cases task with
  | waiting => cases next
  | registered =>
    obtain ⟨server, stepped, rfl⟩ := Option.map_eq_some_iff.1 next
    have inv := step_inv synced.server (by simp) stepped
    cases stepped
    exact { synced with
      server := inv
      unlinked := fun no => by cases no
      link := fun link' eq => Option.some.inj eq ▸ ok.begun awaited at_i rfl rfl }

theorem Synced.finish {i : ℕ} (timely : Timely w (.finish i))
    (next : w.step isError (.finish i) = some w') : Synced w' := by
  obtain ⟨link, linked, next⟩ := Option.bind_eq_some_iff.1 next
  obtain ⟨task, at_i, next⟩ := Option.bind_eq_some_iff.1 next
  obtain ⟨result, answered, next⟩ := Option.bind_eq_some_iff.1 next
  cases next
  obtain ⟨ok, awaited⟩ := synced.link link linked
  have current := timely link linked task at_i result answered
  unfold resultOf at answered
  split at answered
  case h_1 => cases answered
  case h_2 cursor call =>
    split at answered
    case h_2 => cases answered
    case h_1 cursor' seq result' returned =>
      cases answered
      exact synced.relink (ok.finished awaited synced.server synced.client.below at_i returned
        current)

theorem Synced.snapshot (next : w.step isError .snapshot = some w') :
    Synced w' := by
  obtain ⟨j, journal, rfl⟩ := Option.map_eq_some_iff.1 next
  refine { synced with snapshots := fun c mem => ?_ }
  rcases List.mem_append.1 mem with old | new
  · exact synced.snapshots c old
  · obtain rfl := List.mem_singleton.1 new
    exact Nat.le_of_eq (synced.server.journal j journal).seq

theorem Synced.subscribe (timely : Timely w (.subscribe cursor))
    (next : w.step isError (.subscribe cursor) = some w') : Synced w' := by
  simp only [step] at next
  split at next
  case isFalse => cases next
  case isTrue served =>
    cases next
    have below : cursor.seq ≤ w.watermark := by
      rcases served with mem | rfl
      · exact synced.snapshots cursor mem
      · exact Nat.zero_le _
    obtain ⟨position, connected, messages⟩ := EventSocket.subscribe_spec w.client cursor
    refine { synced with
      client := synced.client.subscribe below
      unlinked := fun eq => connected.trans (synced.unlinked (Option.map_eq_none_iff.1 eq))
      link := fun link' eq => ?_ }
    obtain ⟨link, linked, rfl⟩ := Option.map_eq_some_iff.1 eq
    obtain ⟨inOrder, ahead⟩ := timely link linked
    simp only [position, connected, messages]
    exact (synced.link link linked).1.subscribed cursor inOrder ahead

theorem step_synced {event : SyncEvent Ev} (timely : Timely w event)
    (next : w.step isError event = some w') : Synced w' := by
  cases event with
  | server => exact synced.onServer timely next
  | dispatch => exact synced.dispatch timely next
  | restart => exact synced.restart next
  | connect => exact synced.connect next
  | disconnect => exact synced.disconnect next
  | receive => exact synced.receive next
  | handle => exact synced.handle next
  | begin => exact synced.begin next
  | finish => exact synced.finish timely next
  | snapshot => exact synced.snapshot next
  | subscribe => exact synced.subscribe timely next

end

/-- A run of a session and a client in which every step is `Timely`. -/
abbrev TimelyRun (isError : Ev → Bool) (events : List (SyncEvent Ev)) (w : SyncWorld Ev) : Prop :=
  Transition.Run (step isError) Timely {} events w

theorem synced_of_run {events : List (SyncEvent Ev)} (run : TimelyRun isError events w) :
    Synced w := by
  refine Transition.Run.invariant Synced run ?_ fun w event w' synced timely next =>
    step_synced synced timely next
  exact {
    server := inv_of_run .nil
    snapshots := by simp
    client := ⟨by simp, by simp [EventSocket.position], by simp, by simp⟩
    unlinked := fun _ => rfl
    link := fun link no => by cases no }

/-- No durable event up to the cursor is missing, and a client that has answered the greeting, has
nothing under way and nothing in flight has every durable event. -/
theorem cursor_covered {events : List (SyncEvent Ev)} (run : TimelyRun isError events w) :
    ∀ c, w.client.subscription = some c →
      (∀ entry ∈ w.server.history, w.client.base < entry.seq → entry.seq ≤ c.seq →
        entry.seq ∈ w.client.delivered) ∧
      ∀ link, w.link = some link → link.busy = false → link.toClient = [] →
        ∀ entry ∈ w.server.history, w.client.base < entry.seq →
          entry.seq ∈ w.client.delivered := by
  intro c subscription
  have synced := synced_of_run run
  have covered := synced.client.covered (by simp [subscription])
  refine ⟨fun entry _ above upto => covered _ above
    (Nat.le_trans upto (synced.client.cursor c subscription)), ?_⟩
  intro link linked idle none entry mem above
  obtain ⟨ok, awaited⟩ := synced.link link linked
  have there : w.client.received = w.watermark := by
    refine awaited.there ok idle _ ?_
    simp [none, EventSocket.position, subscription]
  obtain ⟨k, at_k⟩ := List.getElem?_of_mem mem
  have numbered := synced.server.numbered k entry at_k
  have inside := (List.getElem?_eq_some_iff.1 at_k).1
  have inside : k + 1 ≤ w.watermark := inside
  exact covered _ above (by omega)

end

/-- A client that has subscribed is sent the event it has missed and the next one, of type
`error`; it connects once more and is sent that one again. -/
def caughtUp : List (SyncEvent ℕ) :=
  [.server (.ready "ep"), .subscribe { seq := 0 }, .server (.publish false 7), .dispatch false,
    .connect, .receive, .handle, .begin 0, .server (.resume 0 0), .server (.resume 0 0), .finish 0,
    .server (.publish false 8), .receive, .dispatch false, .receive, .disconnect, .connect,
    .receive, .handle, .begin 0, .server (.resume 1 0), .server (.resume 1 0), .finish 0, .receive]

/-- The next event overtakes the replay, and the connection drops. -/
def overtakenReplay : List (SyncEvent ℕ) :=
  [.server (.ready "ep"), .subscribe { seq := 0 }, .server (.publish false 7), .dispatch false,
    .connect, .receive, .handle, .begin 0, .server (.publish false 8), .dispatch false, .receive,
    .disconnect, .connect, .receive, .handle, .begin 0, .server (.resume 1 0),
    .server (.resume 1 0), .finish 0]

/-- The client of `caughtUp` has both events, and its cursor is at the first. -/
theorem caughtUp_covered : ∃ w : SyncWorld ℕ, TimelyRun (· == 8) caughtUp w ∧
    w.client.subscription = some { seq := 1, epoch := some "ep" } ∧ w.client.base = 0 ∧
    w.server.history.map (·.seq) = [1, 2] ∧ ∀ entry ∈ w.server.history,
      w.client.base < entry.seq → entry.seq ∈ w.client.delivered := by
  have reached : ((Transition.exec (Transition.guarded (step (· == 8)) Timely) ({} : SyncWorld ℕ)
      caughtUp).map fun w =>
        (w.client.subscription, w.client.base, w.server.history.map (·.seq), w.link)) =
      some (some { seq := 1, epoch := some "ep" }, 0, [1, 2],
        some { toClient := [], subscribed := true }) := by
    decide +kernel
  obtain ⟨w, exec, eq⟩ := Option.map_eq_some_iff.1 reached
  simp only [Prod.mk.injEq] at eq
  obtain ⟨subscription, base, history, linked⟩ := eq
  have run := Transition.Run.of_exec exec
  exact ⟨w, run, subscription, base, history,
    (cursor_covered run _ subscription).2 _ linked rfl rfl⟩

/-- The client of `overtakenReplay` never gets the first event: it has nothing in flight, no sync
under way and its cursor at the watermark. -/
theorem overtakenReplay_lost : ∃ w : SyncWorld ℕ,
    Transition.exec (step fun _ => false) {} overtakenReplay = some w ∧
    w.client.subscription = some { seq := 2, epoch := some "ep" } ∧
    w.client.base = 0 ∧ w.server.history.map (·.seq) = [1, 2] ∧ w.client.delivered = [2] ∧
    w.link = some { toClient := [], toServer := [], subscribed := true, syncs := [] } := by
  have reached : ((Transition.exec (step fun _ => false) {} overtakenReplay).map fun w =>
      (w.client.subscription, w.client.base, w.server.history.map (·.seq), w.client.delivered,
        w.link)) =
      some (some { seq := 2, epoch := some "ep" }, 0, [1, 2], [2],
        some { toClient := [], toServer := [], subscribed := true, syncs := [] }) := by
    decide +kernel
  obtain ⟨w, exec, eq⟩ := Option.map_eq_some_iff.1 reached
  simp only [Prod.mk.injEq] at eq
  obtain ⟨subscription, base, history, delivered, link⟩ := eq
  exact ⟨w, exec, subscription, base, history, delivered, link⟩

end SyncWorld

end KimiCli
