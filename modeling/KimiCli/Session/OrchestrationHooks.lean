import Mathlib.Algebra.Order.Ring.Rat
import Mathlib.Data.List.Nodup
import Mathlib.Data.List.Perm.Subperm
import KimiCli.Js.Json
import KimiCli.Js.Text
import KimiCli.Lib.RankedQueue
import KimiCli.Lib.Run

/-!
# Orchestration hooks

`session/orchestration/hooks.ts`: the queue of orchestration events.  `emit` puts an event in by its
priority, `drain` renders the skills that are mapped to the events until their texts are too long,
and `load` takes the events of an earlier session.

The events of the queue are numbered in the order in which they came in.
-/

namespace KimiCli

inductive OrchestrationEventType
  | taskCompleted | taskFailed | taskCreated | taskUnblocked
  | subagentCompleted | subagentFailed | subagentSuspended | subagentStarted
  | goalStarted | goalCompleted | goalBlocked | goalPaused
  | healthDegraded | cronFired | hookFired | mcpFailed | keywordMatched
  deriving DecidableEq

def OrchestrationEventType.name : OrchestrationEventType → String
  | taskCompleted => "task.completed"
  | taskFailed => "task.failed"
  | taskCreated => "task.created"
  | taskUnblocked => "task.unblocked"
  | subagentCompleted => "subagent.completed"
  | subagentFailed => "subagent.failed"
  | subagentSuspended => "subagent.suspended"
  | subagentStarted => "subagent.started"
  | goalStarted => "goal.started"
  | goalCompleted => "goal.completed"
  | goalBlocked => "goal.blocked"
  | goalPaused => "goal.paused"
  | healthDegraded => "health.degraded"
  | cronFired => "cron.fired"
  | hookFired => "hook.fired"
  | mcpFailed => "mcp.failed"
  | keywordMatched => "keyword.matched"

structure OrchestrationEvent where
  type : OrchestrationEventType
  payload : Json
  correlationId : Option String := none
  priority : Option ℚ := none

structure SkillDefinition where
  name : String

/-- What the hooks use of a registry. -/
structure SkillRegistry where
  getSkill : String → Option SkillDefinition
  renderSkillPrompt : SkillDefinition → String → String

structure SkillMapping where
  eventType : OrchestrationEventType
  skillName : String
  args : Option String := none
  condition : Option (Json → Bool) := none

structure OrchestrationOptions where
  maxQueueSize : ℕ := 100
  maxInjectionSize : ℕ := 8000
  cooldownMs : ℤ := 5 * 60 * 1000
  maxSkillRepetition : ℕ := 3

def maxDedupSize : ℕ := 1000

def maxHistorySize : ℕ := 20

structure OrchestrationMetrics where
  eventsEmitted : ℕ := 0
  eventsDeduped : ℕ := 0
  eventsDropped : ℕ := 0
  skillsTriggered : ℕ := 0
  skillsSuppressed : ℕ := 0

structure PersistedQueue where
  version : ℕ
  queue : Option (List OrchestrationEvent)
  history : Option (List OrchestrationEvent)

/-- The properties of a payload that tell events of one type apart. -/
def dedupProperties : List String :=
  ["subagentId", "taskId", "goalId", "reason", "jobId", "hookId", "serverName"]

namespace OrchestrationEvent

variable (event : OrchestrationEvent)

/-- The first of the properties that is neither missing nor `null`. -/
def dedupId : Json :=
  (dedupProperties.findSome? fun name => match event.payload.property name with
    | some .null => none
    | value => value).getD (.string "")

def makeDedupKey : String :=
  let idText := match event.dedupId with
    | .string text => text
    | id => id.stringify
  let correlationId := event.correlationId.getD ""
  s!"{event.type.name}:{idText}:{correlationId}"

/-- The priority that counts; a smaller number is more urgent. -/
def rank : ℚ := event.priority.getD 5

end OrchestrationEvent

structure QueuedEvent where
  event : OrchestrationEvent
  arrival : ℕ

namespace QueuedEvent

def key (e : QueuedEvent) : String := e.event.makeDedupKey

def rank (e : QueuedEvent) : ℚ := e.event.rank

theorem key_mk (event : OrchestrationEvent) (arrival : ℕ) :
    key { event, arrival } = event.makeDedupKey := by
  rw [key]

end QueuedEvent

structure OrchestrationHooks where
  queue : List QueuedEvent := []
  history : List OrchestrationEvent := []
  /-- A set, in the order of insertion. -/
  dedup : List String := []
  /-- The time of `health.degraded`, the only type whose rate is limited. -/
  lastEmitTime : Option ℤ := none
  injectedThisTurn : List String := []
  skillRepetitionCount : String → ℕ := fun _ => 0
  pendingOutcomes : List (String × OrchestrationEventType) := []
  metrics : OrchestrationMetrics := {}
  arrivals : ℕ := 0

/-- A skill for a queued event by one of the mappings. -/
structure SkillOffer where
  arrival : ℕ
  mapping : ℕ
  skillName : String
  eventType : OrchestrationEventType
  text : String

namespace SkillOffer

variable (offer : SkillOffer)

def repKey : String := s!"{offer.skillName}:{offer.eventType.name}"

def size : ℕ := utf16Length offer.text.toList

end SkillOffer

def injectionText (event : OrchestrationEvent) (skillName prompt : String) : String :=
  let correlation := event.correlationId.getD ""
  s!"<orchestration-skill event=\"{event.type.name}\" skill=\"{skillName}\" " ++
    s!"correlation=\"{correlation}\">\n{prompt}\n</orchestration-skill>"

/-- What a mapping has for an event; `none` stands for each `continue` that changes nothing. -/
def SkillMapping.offer (registry : SkillRegistry) (e : QueuedEvent) (mapping : SkillMapping)
    (i : ℕ) : Option SkillOffer :=
  if mapping.eventType ≠ e.event.type then none
  else if !(mapping.condition.elim true fun condition => condition e.event.payload) then none
  else
    match registry.getSkill mapping.skillName with
    | none => none
    | some skill =>
      let prompt := registry.renderSkillPrompt skill (mapping.args.getD "")
      if prompt = "" then none
      else some
        { arrival := e.arrival
          mapping := i
          skillName := skill.name
          eventType := e.event.type
          text := injectionText e.event skill.name prompt }

/-- What the mappings have for an event, in their order. -/
def skillOffers (registry : SkillRegistry) (mappings : List SkillMapping) (e : QueuedEvent) :
    List SkillOffer :=
  mappings.zipIdx.filterMap fun (mapping, i) => mapping.offer registry e i

/-- The variables of a running `drain`. -/
structure SkillDrain where
  hooks : OrchestrationHooks
  out : List SkillOffer := []
  totalSize : ℕ := 0
  newlyInjected : List String := []

namespace OrchestrationHooks

variable (o : OrchestrationOptions) (mappings : List SkillMapping) (s : OrchestrationHooks)

/-! ## `emit` -/

/-- Whether the event is too early after the last of its type. -/
def isRateLimited (now : ℤ) (type : OrchestrationEventType) : Bool :=
  type = .healthDegraded ∧ ∃ last ∈ s.lastEmitTime, now - last < o.cooldownMs

/-- The event counts and is remembered, whether it is queued or not. -/
def noteEmit (now : ℤ) (event : OrchestrationEvent) : OrchestrationHooks :=
  let history := s.history ++ [event]
  { s with
    lastEmitTime := if event.type = .healthDegraded then some now else s.lastEmitTime
    history := if maxHistorySize < history.length then history.tail else history }

/-- Evicts the head of the queue. -/
def evict (dropped : QueuedEvent) : OrchestrationHooks :=
  { s with
    queue := s.queue.tail
    dedup := s.dedup.filter (· ≠ dropped.key)
    metrics := { s.metrics with eventsDropped := s.metrics.eventsDropped + 1 } }

/-- `dedup` with room for another key, where the oldest one makes room. -/
def boundedDedup : List String :=
  if maxDedupSize ≤ s.dedup.length then s.dedup.tail else s.dedup

/-- `Set.add`: the keys stay in the order in which they have come. -/
def addKey (keys : List String) (key : String) : List String :=
  if key ∈ keys then keys else keys ++ [key]

theorem mem_addKey {keys : List String} {key other : String} :
    other ∈ addKey keys key ↔ other = key ∨ other ∈ keys := by
  rw [addKey]
  split
  case isTrue known => exact ⟨.inr, fun mem => mem.elim (fun same => same ▸ known) id⟩
  case isFalse => rw [List.mem_append, List.mem_singleton, or_comm]

theorem nodup_addKey {keys : List String} {key : String} (nodup : keys.Nodup) :
    (addKey keys key).Nodup := by
  rw [addKey]
  split
  case isTrue => exact nodup
  case isFalse new => exact List.concat_eq_append ▸ nodup.concat new

/-- The event goes into the queue. -/
def insert (event : OrchestrationEvent) : OrchestrationHooks :=
  let queued := { event, arrival := s.arrivals }
  { s with
    dedup := addKey s.boundedDedup event.makeDedupKey
    queue := RankedQueue.enqueue QueuedEvent.rank s.queue queued
    arrivals := s.arrivals + 1 }

/-- An event that is neither limited nor queued already.  There is no room for anything if
`maxQueueSize` is zero: then `emit` throws. -/
def accept (event : OrchestrationEvent) : OrchestrationHooks :=
  if o.maxQueueSize ≤ s.queue.length then
    match s.queue.head? with
    | none => s
    | some dropped => (s.evict dropped).insert event
  else s.insert event

def emit (now : ℤ) (event : OrchestrationEvent) : OrchestrationHooks :=
  let s := { s with metrics := { s.metrics with eventsEmitted := s.metrics.eventsEmitted + 1 } }
  if s.isRateLimited o now event.type then s
  else
    let s := s.noteEmit now event
    if event.makeDedupKey ∈ s.dedup then
      { s with metrics := { s.metrics with eventsDeduped := s.metrics.eventsDeduped + 1 } }
    else s.accept o event

/-! ## `drain` -/

/-- Puts a skill into the context. -/
def inject (offer : SkillOffer) : OrchestrationHooks :=
  { s with
    skillRepetitionCount := Function.update s.skillRepetitionCount offer.repKey
      (s.skillRepetitionCount offer.repKey + 1)
    pendingOutcomes := s.pendingOutcomes ++ [(offer.skillName, offer.eventType)]
    metrics := { s.metrics with skillsTriggered := s.metrics.skillsTriggered + 1 } }

def suppress : OrchestrationHooks :=
  { s with metrics := { s.metrics with skillsSuppressed := s.metrics.skillsSuppressed + 1 } }

end OrchestrationHooks

namespace SkillDrain

variable (o : OrchestrationOptions)

def inject (d : SkillDrain) (offer : SkillOffer) : SkillDrain where
  hooks := d.hooks.inject offer
  out := d.out ++ [offer]
  totalSize := d.totalSize + offer.size
  newlyInjected := d.newlyInjected.insert offer.repKey

/-- The mappings of one event; `false` where one is met whose text does not fit. -/
def serve (d : SkillDrain) : List SkillOffer → SkillDrain × Bool
  | [] => (d, true)
  | offer :: offers =>
    if o.maxSkillRepetition ≤ d.hooks.skillRepetitionCount offer.repKey then
      serve { d with hooks := d.hooks.suppress } offers
    else if o.maxInjectionSize < d.totalSize + offer.size then (d, false)
    else serve (d.inject offer) offers

/-- Takes the head `e` of the queue out, or puts it back. -/
def shift (d : SkillDrain) (e : QueuedEvent) (queue : List QueuedEvent) : SkillDrain :=
  { d with hooks := { d.hooks with queue, dedup := d.hooks.dedup.filter (· ≠ e.key) } }

def unshift (d : SkillDrain) (e : QueuedEvent) : SkillDrain :=
  { d with hooks := { d.hooks with
      queue := e :: d.hooks.queue, dedup := OrchestrationHooks.addKey d.hooks.dedup e.key } }

/-- The loop over the queue. -/
def serveQueue (offers : QueuedEvent → List SkillOffer) :
    List QueuedEvent → SkillDrain → SkillDrain
  | [], d => d
  | e :: queue, d =>
    match serve o (d.shift e queue) (offers e) with
    | (d, true) => serveQueue offers queue d
    | (d, false) => d.unshift e

end SkillDrain

namespace OrchestrationHooks

variable (o : OrchestrationOptions) (mappings : List SkillMapping) (s : OrchestrationHooks)

def runDrain (registry : SkillRegistry) : SkillDrain :=
  SkillDrain.serveQueue o (skillOffers registry mappings) s.queue { hooks := s }

/-- What `drain` gives out, and the hooks after it; without an agent it does nothing. -/
def drain : Option SkillRegistry → List String × OrchestrationHooks
  | none => ([], s)
  | some registry =>
    let d := s.runDrain o mappings registry
    (d.out.map (·.text), { d.hooks with injectedThisTurn := d.newlyInjected })

/-! ## `load` -/

def loadEvent (event : OrchestrationEvent) : OrchestrationHooks :=
  { s with
    queue := s.queue ++ [{ event, arrival := s.arrivals }]
    dedup := addKey s.dedup event.makeDedupKey
    arrivals := s.arrivals + 1 }

/-- `load` of what has been read; nothing where no file can be read. -/
def load (file : Option PersistedQueue) : OrchestrationHooks :=
  match file with
  | none => s
  | some data =>
    if data.version = 1 then
      let loaded := (data.queue.getD []).foldl loadEvent s
      let history := loaded.history ++ data.history.getD []
      { loaded with history := history.drop (history.length - maxHistorySize) }
    else s

end OrchestrationHooks

/-! ## Runs -/

inductive OrchestrationLabel
  | emit (now : ℤ) (event : OrchestrationEvent)
  | drain (registry : Option SkillRegistry)
  | load (file : Option PersistedQueue)

namespace OrchestrationHooks

variable (o : OrchestrationOptions) (mappings : List SkillMapping) (s : OrchestrationHooks)

def step : OrchestrationLabel → Option OrchestrationHooks
  | .emit now event => some (s.emit o now event)
  | .drain registry => some (s.drain o mappings registry).2
  | .load file => some (s.load file)

/-- `emit` gets as far as the queue. -/
def admits (now : ℤ) (event : OrchestrationEvent) : Prop :=
  s.isRateLimited o now event.type = false ∧ event.makeDedupKey ∉ s.dedup

/-- The event that `emit` drops for lack of room. -/
def dropped : OrchestrationLabel → Option QueuedEvent
  | .emit now event =>
    if s.isRateLimited o now event.type = false ∧ event.makeDedupKey ∉ s.dedup ∧
      o.maxQueueSize ≤ s.queue.length then s.queue.head? else none
  | _ => none

/-! ## The law of the queue -/

structure QueueLaw : Prop where
  sorted : s.queue.Pairwise (RankedQueue.Before QueuedEvent.rank QueuedEvent.arrival)
  bounded : s.queue.length ≤ o.maxQueueSize
  keys : ∀ key, key ∈ s.dedup ↔ ∃ e ∈ s.queue, e.key = key

/-- Before `emit` puts an event into a full queue all queued events are equally urgent, and the keys
of those that stay do not fill the dedup set.  What `load` reads continues the queue: no priority
falls, no key comes twice, and there is room. -/
def Regular : OrchestrationLabel → Prop
  | .emit now event => s.admits o now event →
    (o.maxQueueSize ≤ s.queue.length → ∀ e ∈ s.queue, ∀ f ∈ s.queue, e.rank = f.rank) ∧
      min s.queue.length (o.maxQueueSize - 1) < maxDedupSize
  | .drain _ => True
  | .load file => ∀ data ∈ file, data.version = 1 →
    let all := s.queue.map (·.event) ++ data.queue.getD []
    all.Pairwise (fun event later => event.rank ≤ later.rank) ∧
      (all.map OrchestrationEvent.makeDedupKey).Nodup ∧ all.length ≤ o.maxQueueSize

/-- The invariant of regular runs. -/
structure Orderly : Prop extends QueueLaw o s where
  distinct : (s.queue.map QueuedEvent.key).Nodup
  older : ∀ e ∈ s.queue, e.arrival < s.arrivals
  dedupNodup : s.dedup.Nodup

variable {o mappings s} {t : OrchestrationHooks}

namespace Orderly

theorem congr (orderly : Orderly o s) (queue : t.queue = s.queue) (dedup : t.dedup = s.dedup)
    (arrivals : t.arrivals = s.arrivals) : Orderly o t where
  sorted := queue ▸ orderly.sorted
  bounded := queue ▸ orderly.bounded
  keys := by rw [queue, dedup]; exact orderly.keys
  distinct := queue ▸ orderly.distinct
  older := by rw [queue, arrivals]; exact orderly.older
  dedupNodup := dedup ▸ orderly.dedupNodup

theorem length_dedup_le (orderly : Orderly o s) : s.dedup.length ≤ s.queue.length := by
  rw [← List.length_map (f := QueuedEvent.key)]
  refine (List.Nodup.subperm orderly.dedupNodup fun key mem => ?_).length_le
  exact List.mem_map.2 ((orderly.keys key).1 mem)

theorem tail {e : QueuedEvent} {queue : List QueuedEvent} (orderly : Orderly o s)
    (eq : s.queue = e :: queue) (rest : t.queue = queue)
    (dedup : t.dedup = s.dedup.filter (· ≠ e.key)) (arrivals : t.arrivals = s.arrivals) :
    Orderly o t := by
  have distinct := orderly.distinct
  rw [eq, List.map_cons, List.nodup_cons] at distinct
  have sorted := orderly.sorted
  have bounded := orderly.bounded
  have older := orderly.older
  rw [eq] at sorted bounded older
  refine ⟨⟨?_, ?_, fun key => ?_⟩, ?_, ?_, ?_⟩
  · exact rest ▸ (List.pairwise_cons.1 sorted).2
  · exact rest ▸ Nat.le_of_succ_le bounded
  · rw [dedup, rest, List.mem_filter, orderly.keys, eq, decide_eq_true_eq]
    constructor
    · rintro ⟨⟨f, mem, rfl⟩, ne⟩
      rcases List.mem_cons.1 mem with rfl | mem
      · exact absurd rfl ne
      · exact ⟨f, mem, rfl⟩
    · rintro ⟨f, mem, rfl⟩
      refine ⟨⟨f, List.mem_cons_of_mem e mem, rfl⟩, fun same => distinct.1 ?_⟩
      exact same ▸ List.mem_map_of_mem mem
  · exact rest ▸ distinct.2
  · rw [rest, arrivals]
    exact fun f mem => older f (List.mem_cons_of_mem e mem)
  · exact dedup ▸ orderly.dedupNodup.filter _

variable {event : OrchestrationEvent}

theorem insert (orderly : Orderly o s) (new : event.makeDedupKey ∉ s.dedup)
    (room : s.queue.length < o.maxQueueSize) (few : s.queue.length < maxDedupSize) :
    Orderly o (s.insert event) := by
  have perm := RankedQueue.enqueue_perm QueuedEvent.rank s.queue { event, arrival := s.arrivals }
  have dedup : s.boundedDedup = s.dedup :=
    if_neg (Nat.not_le_of_lt (Nat.lt_of_le_of_lt orderly.length_dedup_le few))
  refine ⟨⟨?_, ?_, fun key => ?_⟩, ?_, ?_, ?_⟩
  · exact RankedQueue.enqueue_sorted orderly.sorted orderly.older
  · exact perm.length_eq ▸ room
  · change key ∈ addKey s.boundedDedup _ ↔ _
    rw [dedup, mem_addKey, orderly.keys]
    constructor
    · rintro (rfl | ⟨f, mem, rfl⟩)
      · exact ⟨_, perm.mem_iff.2 List.mem_cons_self, rfl⟩
      · exact ⟨f, perm.mem_iff.2 (List.mem_cons_of_mem _ mem), rfl⟩
    · rintro ⟨f, mem, rfl⟩
      rcases List.mem_cons.1 (perm.mem_iff.1 mem) with rfl | mem
      · exact .inl rfl
      · exact .inr ⟨f, mem, rfl⟩
  · refine (perm.map QueuedEvent.key).nodup_iff.2 (List.nodup_cons.2 ⟨fun mem => new ?_, ?_⟩)
    · exact (orderly.keys _).2 (List.mem_map.1 mem)
    · exact orderly.distinct
  · intro f mem
    rcases List.mem_cons.1 (perm.mem_iff.1 mem) with rfl | mem
    · exact Nat.lt_succ_self _
    · exact Nat.lt_succ_of_lt (orderly.older f mem)
  · exact nodup_addKey (dedup ▸ orderly.dedupNodup)

theorem emit {now : ℤ} (orderly : Orderly o s) (regular : s.Regular o (.emit now event)) :
    Orderly o (s.emit o now event) := by
  rw [OrchestrationHooks.emit]
  dsimp only
  split
  case isTrue => exact orderly.congr rfl rfl rfl
  case isFalse free =>
    split
    case isTrue => exact orderly.congr rfl rfl rfl
    case isFalse new =>
      obtain ⟨equal, few⟩ := regular ⟨Bool.eq_false_iff.2 free, new⟩
      have noted : Orderly o (({ s with metrics :=
          { s.metrics with eventsEmitted := s.metrics.eventsEmitted + 1 } }).noteEmit now event) :=
        orderly.congr rfl rfl rfl
      generalize eq : OrchestrationHooks.noteEmit _ now event = t at noted new ⊢
      have queue : t.queue = s.queue := eq ▸ rfl
      rw [← queue] at few
      rw [accept]
      split
      case isTrue full =>
        split
        case h_1 => exact noted
        case h_2 e head =>
          obtain ⟨rest, eq⟩ := List.head?_eq_some_iff.1 head
          have bounded := noted.bounded
          rw [eq, List.length_cons] at full bounded few
          have evicted : Orderly o (t.evict e) :=
            noted.tail eq (congrArg List.tail eq) rfl rfl
          have length : (t.evict e).queue.length = rest.length :=
            congrArg (fun queue => queue.tail.length) eq
          refine evicted.insert (fun mem => new (List.mem_of_mem_filter mem)) ?_ ?_
          · omega
          · omega
      case isFalse room =>
        refine noted.insert new (Nat.lt_of_not_le room) ?_
        omega

theorem loadEvent (orderly : Orderly o s) (last : ∀ e ∈ s.queue, e.rank ≤ event.rank)
    (new : ∀ e ∈ s.queue, e.key ≠ event.makeDedupKey) (room : s.queue.length < o.maxQueueSize) :
    Orderly o (s.loadEvent event) := by
  refine ⟨⟨?_, ?_, fun key => ?_⟩, ?_, ?_, nodup_addKey orderly.dedupNodup⟩
  · refine List.pairwise_append.2 ⟨orderly.sorted, List.pairwise_singleton _ _, ?_⟩
    intro e mem f single
    obtain rfl := List.mem_singleton.1 single
    exact (last e mem).lt_or_eq.imp id fun same => ⟨same, orderly.older e mem⟩
  · rw [OrchestrationHooks.loadEvent, List.length_append]
    exact room
  · rw [OrchestrationHooks.loadEvent, mem_addKey, orderly.keys]
    constructor
    · rintro (rfl | ⟨e, mem, rfl⟩)
      · exact ⟨_, List.mem_append_right _ (List.mem_singleton_self _), rfl⟩
      · exact ⟨e, List.mem_append_left _ mem, rfl⟩
    · rintro ⟨e, mem, rfl⟩
      rcases List.mem_append.1 mem with mem | mem
      · exact .inr ⟨e, mem, rfl⟩
      · rw [List.mem_singleton.1 mem]
        exact .inl (QueuedEvent.key_mk _ _)
  · rw [OrchestrationHooks.loadEvent, List.map_append, List.map_singleton]
    refine List.Nodup.append orderly.distinct (List.nodup_singleton _) ?_
    rw [List.disjoint_singleton]
    intro mem
    obtain ⟨e, inside, same⟩ := List.mem_map.1 mem
    rw [QueuedEvent.key_mk] at same
    exact new e inside same
  · intro e mem
    rcases List.mem_append.1 mem with mem | mem
    · exact Nat.lt_succ_of_lt (orderly.older e mem)
    · obtain rfl := List.mem_singleton.1 mem
      exact Nat.lt_succ_self _

theorem loadEvents {events : List OrchestrationEvent} (orderly : Orderly o s)
    (sorted : (s.queue.map (·.event) ++ events).Pairwise
      fun event later => event.rank ≤ later.rank)
    (distinct : ((s.queue.map (·.event) ++ events).map OrchestrationEvent.makeDedupKey).Nodup)
    (room : (s.queue.map (·.event) ++ events).length ≤ o.maxQueueSize) :
    Orderly o (events.foldl OrchestrationHooks.loadEvent s) := by
  induction events generalizing s with
  | nil => exact orderly
  | cons event events ih =>
    have all : s.queue.map (·.event) ++ event :: events =
        (s.loadEvent event).queue.map (·.event) ++ events := by
      rw [OrchestrationHooks.loadEvent, List.map_append, List.append_assoc]
      rfl
    have first : Orderly o (s.loadEvent event) := by
      refine orderly.loadEvent (fun e mem => ?_) (fun e mem same => ?_) ?_
      · exact (List.pairwise_append.1 sorted).2.2 _ (List.mem_map_of_mem mem) _ List.mem_cons_self
      · rw [List.map_append, List.nodup_append] at distinct
        exact distinct.2.2 e.key (List.mem_map_of_mem (List.mem_map_of_mem mem)) _
          List.mem_cons_self same
      · rw [List.length_append, List.length_map, List.length_cons] at room
        omega
    rw [all] at sorted distinct room
    exact ih first sorted distinct room

theorem load {file : Option PersistedQueue} (orderly : Orderly o s)
    (regular : s.Regular o (.load file)) : Orderly o (s.load file) := by
  rcases file with - | data
  · exact orderly
  · rw [OrchestrationHooks.load]
    split
    case isTrue version =>
      obtain ⟨sorted, distinct, room⟩ := regular data rfl version
      exact (orderly.loadEvents sorted distinct room).congr rfl rfl rfl
    case isFalse => exact orderly

theorem serve {d : SkillDrain} (orderly : Orderly o d.hooks) (offers : List SkillOffer) :
    Orderly o (d.serve o offers).1.hooks ∧ (d.serve o offers).1.hooks.queue = d.hooks.queue ∧
      (d.serve o offers).1.hooks.dedup = d.hooks.dedup ∧
      (d.serve o offers).1.hooks.arrivals = d.hooks.arrivals := by
  induction offers generalizing d with
  | nil => exact ⟨orderly, rfl, rfl, rfl⟩
  | cons offer offers ih =>
    rw [SkillDrain.serve]
    split
    case isTrue => exact ih (orderly.congr rfl rfl rfl)
    case isFalse =>
      split
      case isTrue => exact ⟨orderly, rfl, rfl, rfl⟩
      case isFalse => exact ih (orderly.congr rfl rfl rfl)

theorem serveQueue {offers : QueuedEvent → List SkillOffer} : ∀ {queue : List QueuedEvent}
    {d : SkillDrain}, d.hooks.queue = queue → Orderly o d.hooks →
    Orderly o (SkillDrain.serveQueue o offers queue d).hooks
  | [], _, _, orderly => orderly
  | e :: queue, d, eq, orderly => by
    have shifted : Orderly o (d.shift e queue).hooks := orderly.tail eq rfl rfl rfl
    obtain ⟨served, sameQueue, sameDedup, sameArrivals⟩ := shifted.serve (offers e)
    rw [SkillDrain.serveQueue]
    split
    case h_1 d' result =>
      rw [result] at served sameQueue
      exact serveQueue sameQueue served
    case h_2 d' result =>
      rw [result] at sameQueue sameDedup sameArrivals
      -- the event is back at its place
      have queueEq : (d'.unshift e).hooks.queue = d.hooks.queue :=
        (congrArg (e :: ·) sameQueue).trans eq.symm
      have head : ∃ f ∈ d.hooks.queue, f.key = e.key := ⟨e, eq ▸ List.mem_cons_self, rfl⟩
      have dedupEq : (d'.unshift e).hooks.dedup =
          addKey (d.hooks.dedup.filter (· ≠ e.key)) e.key :=
        congrArg (addKey · e.key) sameDedup
      refine ⟨⟨?_, ?_, fun key => ?_⟩, ?_, ?_, ?_⟩
      · exact queueEq ▸ orderly.sorted
      · exact queueEq ▸ orderly.bounded
      · rw [queueEq, dedupEq, mem_addKey, List.mem_filter, decide_eq_true_eq,
          ← orderly.keys]
        by_cases same : key = e.key
        · rw [same]
          exact iff_of_true (.inl rfl) ((orderly.keys _).2 head)
        · exact ⟨fun mem => (mem.resolve_left same).1, fun mem => .inr ⟨mem, same⟩⟩
      · exact queueEq ▸ orderly.distinct
      · rw [queueEq]
        exact fun f mem => Nat.lt_of_lt_of_eq (orderly.older f mem) sameArrivals.symm
      · rw [dedupEq]
        exact nodup_addKey (orderly.dedupNodup.filter _)

theorem drain {registry : Option SkillRegistry} (orderly : Orderly o s) :
    Orderly o (s.drain o mappings registry).2 := by
  rcases registry with - | registry
  · exact orderly
  · have drained : Orderly o (s.runDrain o mappings registry).hooks := serveQueue rfl orderly
    exact drained.congr rfl rfl rfl

theorem step {label : OrchestrationLabel} (orderly : Orderly o s) (regular : s.Regular o label)
    (next : s.step o mappings label = some t) : Orderly o t := by
  cases label with
  | emit => exact Option.some.inj next ▸ orderly.emit regular
  | drain => exact Option.some.inj next ▸ orderly.drain
  | load => exact Option.some.inj next ▸ orderly.load regular

end Orderly

theorem Regular.dropped_le {label : OrchestrationLabel} {e : QueuedEvent}
    (regular : s.Regular o label) (drops : s.dropped o label = some e) :
    ∀ f ∈ s.queue, f.rank ≤ e.rank := by
  cases label with
  | emit =>
    rw [dropped] at drops
    split at drops
    case isTrue full =>
      obtain ⟨rest, eq⟩ := List.head?_eq_some_iff.1 drops
      intro f mem
      exact ((regular ⟨full.1, full.2.1⟩).1 full.2.2 f mem e (eq ▸ List.mem_cons_self)).le
    case isFalse => cases drops
  | drain => cases drops
  | load => cases drops

/-- A failed task that is told apart by `id`. -/
def failedTask (id : String) (priority : ℚ) : OrchestrationEvent where
  type := .taskFailed
  payload := .object [("taskId", .string id)]
  priority := some priority

/-- In every state of a regular run the law of the queue holds, and what a regular step drops from
there is no more urgent than any queued event. -/
theorem queueLaw_of_regular (o : OrchestrationOptions) (mappings : List SkillMapping) :
    ∀ labels s, Transition.Run (step o mappings) (Regular o) {} labels s →
      s.QueueLaw o ∧ ∀ label e, s.Regular o label → s.dropped o label = some e →
        ∀ f ∈ s.queue, f.rank ≤ e.rank := by
  intro labels s run
  have orderly : Orderly o s := by
    refine run.invariant (Orderly o) ?_ fun s label t orderly regular next =>
      orderly.step regular next
    exact ⟨⟨.nil, Nat.zero_le _, fun key => iff_of_false List.not_mem_nil fun ⟨_, mem, _⟩ =>
      nomatch mem⟩, List.nodup_nil, nofun, List.nodup_nil⟩
  exact ⟨orderly.toQueueLaw, fun _ _ regular drops => regular.dropped_le drops⟩

theorem queueLaw_failedTasks :
    (({} : OrchestrationHooks).emit {} 0 (failedTask "a" 5)).emit {} 0 (failedTask "b" 0)
      |>.QueueLaw {} := by
  have first : ({} : OrchestrationHooks).Regular {} (.emit 0 (failedTask "a" 5)) :=
    fun _ => ⟨fun full => absurd full (by decide +kernel), by decide +kernel⟩
  have second : (({} : OrchestrationHooks).emit {} 0 (failedTask "a" 5)).Regular {}
      (.emit 0 (failedTask "b" 0)) :=
    fun _ => ⟨fun full => absurd full (by decide +kernel), by decide +kernel⟩
  exact (queueLaw_of_regular {} [] _ _ (.snoc (.snoc .nil first rfl) second rfl)).1

/-- A full queue loses its most urgent event while a less urgent one stays. -/
theorem urgentEvent_dropped :
    ∃ labels s label e f, Transition.Run (step { maxQueueSize := 2 } []) Transition.Always {}
        labels s ∧ s.dropped { maxQueueSize := 2 } label = some e ∧ f ∈ s.queue ∧
      e.rank < f.rank := by
  let o : OrchestrationOptions := { maxQueueSize := 2 }
  let s := (({} : OrchestrationHooks).emit o 0 (failedTask "a" 0)).emit o 0 (failedTask "b" 5)
  have run : Transition.Run (step o []) Transition.Always {}
      [.emit 0 (failedTask "a" 0), .emit 0 (failedTask "b" 5)] s :=
    .snoc (.snoc .nil trivial rfl) trivial rfl
  have ranks : s.queue.map QueuedEvent.rank = [0, 5] := by decide +kernel
  obtain ⟨e, queue, eq, first, rest⟩ := List.map_eq_cons_iff.1 ranks
  obtain ⟨f, queue, rfl, second, -⟩ := List.map_eq_cons_iff.1 rest
  refine ⟨_, s, .emit 0 (failedTask "c" 5), e, f, run, ?_, ?_, ?_⟩
  · have admitted : s.isRateLimited o 0 (failedTask "c" 5).type = false ∧
        (failedTask "c" 5).makeDedupKey ∉ s.dedup ∧ o.maxQueueSize ≤ s.queue.length := by
      decide +kernel
    rw [dropped, if_pos admitted, eq]
    rfl
  · rw [eq]
    exact List.mem_cons_of_mem e List.mem_cons_self
  · rw [first, second]
    decide

end OrchestrationHooks

end KimiCli
