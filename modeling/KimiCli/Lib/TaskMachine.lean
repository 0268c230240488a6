import KimiCli.Lib.Run
import KimiCli.Lib.Tasks
import Mathlib.Data.List.Nodup

/-!
# Tasks that run at the same time

A machine that runs the tasks of the calls it is given, one request of one call after another in any
order; the exclusive sections of all of them are taken from one queue.  What is proved of each task
with the rules of `Tasks` holds in every run: at most one call is in its section (`Excluded.step`),
and what the sections share changes only as that call guarantees (`Excluded.guarantees`).
-/

namespace Tasks

/-- A world that answers requests and changes by itself, and the calls that may be made. -/
structure System (σ : Signature) (W E κ ε α : Type) where
  act (op : σ.Op) : W → σ.Answer op × W
  become : E → W → W
  program : κ → Task σ ε α

/-- A call, the answers that it has received, and what is left of it. -/
structure Running (σ : Signature) (κ ε α : Type) where
  call : κ
  past : List (Event σ)
  rest : Task σ ε α

structure Machine (σ : Signature) (W κ ε α : Type) where
  world : W
  queue : List ℕ
  calls : ℕ → Option (Running σ κ ε α)

inductive Label (E κ : Type)
  | start (c : ℕ) (call : κ)
  | go (c : ℕ)
  | environment (change : E)

variable {σ : Signature} {W E κ ε α X G : Type}

/-- The call after the answer to its request. -/
def Running.next (run : Running σ κ ε α) (request : Request σ)
    (rest : request.Answer → Task σ ε α) (answer : request.Answer) : Running σ κ ε α :=
  ⟨run.call, run.past ++ [⟨request, answer⟩], rest answer⟩

namespace System

/-- The answer to a request, with what it makes of the world and the queue. -/
def serve (S : System σ W E κ ε α) (m : Machine σ W κ ε α) (c : ℕ) :
    (request : Request σ) → Option (request.Answer × W × List ℕ)
  | .enqueue => some ((), m.world, m.queue ++ [c])
  | .turn => if m.queue.head? = some c then some ((), m.world, m.queue) else none
  | .leave => if m.queue.head? = some c then some ((), m.world, m.queue.tail) else none
  | .ask op => some ((S.act op m.world).1, (S.act op m.world).2, m.queue)

def step (S : System σ W E κ ε α) (m : Machine σ W κ ε α) :
    Label E κ → Option (Machine σ W κ ε α)
  | .start c call =>
    match m.calls c with
    | some _ => none
    | none => some { m with calls := Function.update m.calls c (some ⟨call, [], S.program call⟩) }
  | .go c =>
    match m.calls c with
    | none => none
    | some run =>
      match run.rest with
      | .done _ | .fail _ => none
      | .step request next => (S.serve m c request).map fun served =>
        { world := served.2.1
          queue := served.2.2
          calls := Function.update m.calls c (some (run.next request next served.1)) }
  | .environment change => some { m with world := S.become change m.world }

end System

variable {S : System σ W E κ ε α} {m m' m₀ : Machine σ W κ ε α} {c : ℕ} {call : κ}
  {labels : List (Label E κ)}

namespace System

theorem step_start (stepped : S.step m (.start c call) = some m') : m.calls c = none ∧
    m' = { m with calls := Function.update m.calls c (some ⟨call, [], S.program call⟩) } := by
  rw [step] at stepped
  split at stepped
  case h_1 => cases stepped
  case h_2 fresh =>
    cases stepped
    exact ⟨fresh, rfl⟩

/-- What a call does in a step. -/
structure Serves (S : System σ W E κ ε α) (m : Machine σ W κ ε α) (c : ℕ)
    (run : Running σ κ ε α) (event : Event σ) (m' : Machine σ W κ ε α) : Prop where
  calls : m.calls c = some run
  serves : ∃ next, run.rest = .step event.1 next ∧
    S.serve m c event.1 = some (event.2, m'.world, m'.queue) ∧
    m'.calls = Function.update m.calls c (some (run.next event.1 next event.2))

theorem step_go (stepped : S.step m (.go c) = some m') :
    ∃ run event, S.Serves m c run event m' := by
  rw [step] at stepped
  split at stepped
  case h_1 => cases stepped
  case h_2 run running =>
    split at stepped
    case h_1 | h_2 => cases stepped
    case h_3 request next rest =>
      obtain ⟨⟨answer, world, queue⟩, served, rfl⟩ := Option.map_eq_some_iff.1 stepped
      exact ⟨run, ⟨request, answer⟩, running, next, rest, served, rfl⟩

theorem Serves.step {run : Running σ κ ε α} {event : Event σ}
    (serves : S.Serves m c run event m') : S.step m (.go c) = some m' := by
  obtain ⟨running, next, rest, served, calls⟩ := serves
  rw [System.step, running]
  dsimp only
  rw [rest]
  dsimp only
  rw [served, Option.map_some, ← calls]

theorem Serves.calls_ne {run : Running σ κ ε α} {event : Event σ} {c' : ℕ}
    (serves : S.Serves m c run event m') (other : c' ≠ c) : m'.calls c' = m.calls c' := by
  obtain ⟨-, next, -, -, calls⟩ := serves
  rw [calls, Function.update_of_ne other]

end System

/-! ## Exclusive sections -/

/-- Where a call is; in the section, with what the sections share. -/
inductive Mode (G : Type)
  | out
  | waiting
  | inside (shared : G)

namespace Mode

/-- A call in the section knows what is shared. -/
def At : Mode G → G → Prop
  | .inside g, g' => g = g'
  | .out, _ | .waiting, _ => True

def see : Mode G → G → Mode G
  | .inside _, g => .inside g
  | .out, _ => .out
  | .waiting, _ => .waiting

end Mode

/-- A part of the world that only the guarded requests change. -/
structure Sharing (S : System σ W E κ ε α) (G : Type) where
  view : W → G
  guarded : σ.Op → Prop
  keeps : ∀ op w, ¬guarded op → view (S.act op w).2 = view w
  environment : ∀ change w, view (S.become change w) = view w

/-- Guarded requests are made in the section only, and do what is guaranteed. -/
def Sharing.excluding (D : Sharing S G)
    (guarantee : (op : σ.Op) → σ.Answer op → G → G → Prop) : Logic σ (Mode G) where
  may
    | x, .enqueue => x = .out
    | x, .turn => x = .waiting
    | x, .leave => ∃ g, x = .inside g
    | x, .ask op => D.guarded op → ∃ g, x = .inside g ∧ ∀ w, D.view w = g →
      guarantee op (S.act op w).1 g (D.view (S.act op w).2)
  moves
    | _, .enqueue, _, y => y = .waiting
    | _, .turn, _, y => ∃ g, y = .inside g
    | _, .leave, _, y => y = .out
    | x, .ask op, answer, y => ∃ w, x.At (D.view w) ∧ answer = (S.act op w).1 ∧
      y = x.see (D.view (S.act op w).2)

/-- At most one call is in its section, and it knows what is shared. -/
structure Excluded (D : Sharing S G)
    (guarantee : κ → (op : σ.Op) → σ.Answer op → G → G → Prop) (m : Machine σ W κ ε α)
    (mode : ℕ → Mode G) : Prop where
  meets : ∀ c run, m.calls c = some run →
    run.rest.Meets (D.excluding (guarantee run.call)) (fun x _ => x = .out) (mode c)
  fresh : ∀ c, m.calls c = none → mode c = .out
  nodup : m.queue.Nodup
  queued : ∀ c, c ∈ m.queue ↔ mode c ≠ .out
  inside : ∀ c g, mode c = .inside g → m.queue.head? = some c ∧ g = D.view m.world

section

variable {D : Sharing S G} {guarantee : κ → (op : σ.Op) → σ.Answer op → G → G → Prop}
  {mode : ℕ → Mode G} {run : Running σ κ ε α} {event : Event σ}

section

variable (excluded : Excluded D guarantee m mode)
include excluded

theorem Excluded.at_view (c : ℕ) :
    (mode c).At (D.view m.world) := by
  cases here : mode c with
  | out | waiting => trivial
  | inside g => exact (excluded.inside c g here).2

theorem Excluded.move {queue : List ℕ} {w : W}
    {x : Mode G} (calls : m'.calls = Function.update m.calls c (some run))
    (world : m'.world = w) (line : m'.queue = queue) (nodup : queue.Nodup)
    (meets : run.rest.Meets (D.excluding (guarantee run.call)) (fun x _ => x = .out) x)
    (own : c ∈ queue ↔ x ≠ .out) (others : ∀ c', c' ≠ c → (c' ∈ queue ↔ c' ∈ m.queue))
    (inside : ∀ g, x = .inside g → queue.head? = some c ∧ g = D.view w)
    (alone : ∀ c' g, c' ≠ c → mode c' = .inside g →
      queue.head? = m.queue.head? ∧ D.view w = D.view m.world) :
    Excluded D guarantee m' (Function.update mode c x) := by
  subst world line
  refine ⟨fun c' run' running => ?_, fun c' none' => ?_, nodup, fun c' => ?_,
    fun c' g here => ?_⟩
  · rw [calls] at running
    by_cases same : c' = c
    · subst same
      rw [Function.update_self] at running ⊢
      cases running
      exact meets
    · rw [Function.update_of_ne same] at running ⊢
      exact excluded.meets c' run' running
  · rw [calls] at none'
    by_cases same : c' = c
    · subst same
      rw [Function.update_self] at none'
      cases none'
    · rw [Function.update_of_ne same] at none' ⊢
      exact excluded.fresh c' none'
  · by_cases same : c' = c
    · subst same
      rw [Function.update_self]
      exact own
    · rw [Function.update_of_ne same]
      exact (others c' same).trans (excluded.queued c')
  · by_cases same : c' = c
    · subst same
      rw [Function.update_self] at here
      exact inside g here
    · rw [Function.update_of_ne same] at here
      obtain ⟨first, view⟩ := excluded.inside c' g here
      obtain ⟨head, kept⟩ := alone c' g same here
      exact ⟨head.trans first, view.trans kept.symm⟩

theorem Excluded.go (stepped : S.step m (.go c) = some m') :
    ∃ x, Excluded D guarantee m' (Function.update mode c x) := by
  obtain ⟨run, ⟨request, answer⟩, running, next, rest, served, calls⟩ := S.step_go stepped
  have meets := excluded.meets c run running
  rw [rest] at meets
  cases request with
  | enqueue =>
    have out : mode c = .out := meets.1
    have fresh : c ∉ m.queue := fun mem => (excluded.queued c).1 mem out
    refine ⟨.waiting, excluded.move calls (congrArg (·.2.1) (Option.some.inj served)).symm
      (congrArg (·.2.2) (Option.some.inj served)).symm ?_ (meets.2 answer _ rfl) ?_ ?_ ?_ ?_⟩
    · exact List.nodup_append.2 ⟨excluded.nodup, List.nodup_singleton c, fun a mem b last same => by
        rw [List.mem_singleton.1 last] at same
        exact fresh (same ▸ mem)⟩
    · simp
    · intro c' other
      simp [other]
    · intro g inside
      cases inside
    · intro c' g _ inside
      have first := (excluded.inside c' g inside).1
      rw [List.head?_append, first]
      exact ⟨rfl, rfl⟩
  | turn =>
    have waiting : mode c = .waiting := meets.1
    rw [System.serve] at served
    split at served
    case isFalse => cases served
    case isTrue first =>
      refine ⟨.inside (D.view m.world), excluded.move calls
        (congrArg (·.2.1) (Option.some.inj served)).symm
        (congrArg (·.2.2) (Option.some.inj served)).symm excluded.nodup
        (meets.2 answer _ ⟨_, rfl⟩) ?_ ?_ ?_ ?_⟩
      · exact iff_of_true (List.mem_of_mem_head? first) (by simp)
      · exact fun _ _ => Iff.rfl
      · rintro g ⟨rfl⟩
        exact ⟨first, rfl⟩
      · exact fun _ _ _ _ => ⟨rfl, rfl⟩
  | leave =>
    rw [System.serve] at served
    split at served
    case isFalse => cases served
    case isTrue first =>
      obtain ⟨tail, line⟩ : ∃ tail, m.queue = c :: tail := List.head?_eq_some_iff.1 first
      have distinct := excluded.nodup
      rw [line, List.nodup_cons] at distinct
      have after : m'.queue = tail := by
        have same : m.queue.tail = m'.queue := congrArg (·.2.2) (Option.some.inj served)
        rw [← same, line]
        rfl
      refine ⟨.out, excluded.move calls (congrArg (·.2.1) (Option.some.inj served)).symm after
        distinct.2 (meets.2 answer _ rfl) ?_ ?_ ?_ ?_⟩
      · exact iff_of_false distinct.1 (fun never => never rfl)
      · intro c' other
        rw [line, List.mem_cons, or_iff_right other]
      · intro g inside
        cases inside
      · intro c' g other inside
        have first' := (excluded.inside c' g inside).1
        rw [first] at first'
        exact absurd (Option.some.inj first').symm other
  | ask op =>
    have answered : (S.act op m.world).1 = answer := congrArg Prod.fst (Option.some.inj served)
    refine ⟨(mode c).see (D.view (S.act op m.world).2), excluded.move calls
      (congrArg (·.2.1) (Option.some.inj served)).symm
      (congrArg (·.2.2) (Option.some.inj served)).symm excluded.nodup
      (meets.2 answer _ ⟨m.world, excluded.at_view c, answered.symm, rfl⟩) ?_ ?_ ?_ ?_⟩
    · rw [excluded.queued c]
      cases mode c <;> simp [Mode.see]
    · exact fun _ _ => Iff.rfl
    · intro g inside
      cases here : mode c with
      | out | waiting =>
        rw [here] at inside
        cases inside
      | inside g' =>
        rw [here] at inside
        cases inside
        exact ⟨(excluded.inside c g' here).1, rfl⟩
    · intro c' g other inside
      refine ⟨rfl, D.keeps op m.world fun guarded => other ?_⟩
      obtain ⟨g', here, -⟩ := meets.1 guarded
      have first := (excluded.inside c g' here).1
      rw [(excluded.inside c' g inside).1] at first
      exact Option.some.inj first

theorem Excluded.step {label : Label E κ}
    (programs : ∀ call,
      (S.program call).Meets (D.excluding (guarantee call)) (fun x _ => x = .out) .out)
    (stepped : S.step m label = some m') :
    ∃ mode, Excluded D guarantee m' mode := by
  cases label with
  | start c call =>
    obtain ⟨fresh, rfl⟩ := S.step_start stepped
    have out := excluded.fresh c fresh
    refine ⟨_, excluded.move (x := Mode.out) rfl rfl rfl excluded.nodup (programs call) ?_
      (fun _ _ => Iff.rfl) (fun g inside => ?_) fun _ _ _ _ => ⟨rfl, rfl⟩⟩
    · rw [excluded.queued c, out]
    · cases inside
  | go =>
    obtain ⟨x, after⟩ := excluded.go stepped
    exact ⟨_, after⟩
  | environment =>
    cases stepped
    refine ⟨mode, excluded.meets, excluded.fresh, excluded.nodup, excluded.queued,
      fun c g inside => ?_⟩
    rw [D.environment]
    exact excluded.inside c g inside

theorem Excluded.guarantees {op : σ.Op} {answer : σ.Answer op}
    (serves : S.Serves m c run ⟨.ask op, answer⟩ m') (guarded : D.guarded op) :
    guarantee run.call op answer (D.view m.world) (D.view m'.world) := by
  obtain ⟨running, next, rest, served, -⟩ := serves
  have meets := excluded.meets c run running
  rw [rest] at meets
  obtain ⟨g, here, guarantee⟩ := meets.1 guarded
  obtain rfl := (excluded.inside c g here).2
  have answered := Option.some.inj served
  have own := guarantee m.world rfl
  rwa [show (S.act op m.world).1 = answer from congrArg Prod.fst answered,
    show (S.act op m.world).2 = m'.world from congrArg (·.2.1) answered] at own

end

theorem System.Serves.view
    (serves : S.Serves m c run event m') (plain : ∀ op, event.1 = .ask op → ¬D.guarded op) :
    D.view m'.world = D.view m.world := by
  obtain ⟨request, answer⟩ := event
  obtain ⟨-, next, -, served, -⟩ := serves
  cases request with
  | ask op =>
    rw [← show (S.act op m.world).2 = m'.world from congrArg (·.2.1) (Option.some.inj served)]
    exact D.keeps op m.world (plain op rfl)
  | enqueue => exact congrArg (fun served => D.view served.2.1) (Option.some.inj served).symm
  | turn | leave =>
    rw [System.serve] at served
    split at served
    case isTrue => exact congrArg (fun served => D.view served.2.1) (Option.some.inj served).symm
    case isFalse => cases served

end

/-! ## Tasks that touch nothing shared -/

/-- The task makes no guarded request and enters no section. -/
def Sharing.Stays (D : Sharing S G) (guarantee : (op : σ.Op) → σ.Answer op → G → G → Prop)
    {γ : Type} (task : Task σ ε γ) : Prop :=
  ∀ x, task.Meets (D.excluding guarantee) (fun y _ => y = x) x

section

variable {γ δ : Type} {D : Sharing S G} {guarantee : (op : σ.Op) → σ.Answer op → G → G → Prop}
  {x : Mode G}

theorem Mode.eq_of_moves {op : σ.Op} {answer : σ.Answer op} {y : Mode G}
    (plain : ¬D.guarded op) (moves : (D.excluding guarantee).moves x (.ask op) answer y) :
    y = x := by
  obtain ⟨w, here, -, rfl⟩ := moves
  cases x with
  | out | waiting => rfl
  | inside g =>
    obtain rfl : g = D.view w := here
    exact congrArg Mode.inside (D.keeps op w plain)

theorem stays_pure (value : γ) : D.Stays guarantee (.done value : Task σ ε γ) := fun _ => rfl

theorem stays_fail (error : ε) : D.Stays guarantee (.fail error : Task σ ε γ) := fun _ => rfl

theorem stays_ask {op : σ.Op} {f : σ.Answer op → Task σ ε γ} (plain : ¬D.guarded op)
    (rest : ∀ answer, D.Stays guarantee (f answer)) :
    D.Stays guarantee ((Task.ask op).bind f) := by
  refine fun x => ⟨fun guarded => absurd guarded plain, fun answer y moves => ?_⟩
  rw [Mode.eq_of_moves plain moves]
  exact rest answer x

theorem stays_bind {task : Task σ ε γ} {f : γ → Task σ ε δ} (first : D.Stays guarantee task)
    (rest : ∀ value, D.Stays guarantee (f value)) : D.Stays guarantee (task.bind f) := by
  refine fun x => (first x).bind ?_ fun y error same => same
  rintro y value rfl
  exact rest value y

theorem stays_collect {f : γ → Task σ ε (List δ)} (each : ∀ value, D.Stays guarantee (f value))
    (values : List γ) : D.Stays guarantee (Task.collect f values) := by
  refine fun x => meets_collect (fun _ _ y => y = x) rfl ?_ fun _ _ same => same
  rintro got value values y rfl
  refine (each value y).mono fun z result same => ?_
  cases result with
  | ok => exact same
  | error => exact same

theorem meets_exclusive_out {task : Task σ ε γ}
    (meets : ∀ g, task.Meets (D.excluding guarantee) (fun y _ => ∃ g', y = .inside g')
      (.inside g)) :
    (Task.exclusive task).Meets (D.excluding guarantee) (fun y _ => y = .out) .out := by
  refine ⟨rfl, fun _ y moved => ⟨moved, fun _ z turned => ?_⟩⟩
  obtain ⟨g, rfl⟩ := turned
  exact (meets g).thenLeave fun y result inside => ⟨inside, fun z left => left⟩

end

end Tasks
