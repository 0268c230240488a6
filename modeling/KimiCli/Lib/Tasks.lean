import Mathlib.Logic.Function.Basic

/-!
# Tasks that wait

An asynchronous function as a tree of what it asks the world for, one request after the other, and
rules of pre- and postconditions for it.  Besides the requests of a signature a task may enter the
queue of an exclusive section, wait for its turn and leave the section.  `Task.Meets` is the weakest
precondition over a ghost state that a `Logic` moves along with the answers.
-/

namespace Tasks

/-- What can be asked, and the types of the answers. -/
structure Signature where
  Op : Type
  Answer : Op → Type

variable {σ : Signature} {ε α β γ X : Type}

inductive Request (σ : Signature)
  | enqueue
  | turn
  | leave
  | ask (op : σ.Op)

def Request.Answer : Request σ → Type
  | .enqueue | .turn | .leave => Unit
  | .ask op => σ.Answer op

/-- A request with its answer. -/
abbrev Event (σ : Signature) := Σ request : Request σ, request.Answer

inductive Task (σ : Signature) (ε α : Type)
  | done (value : α)
  | fail (error : ε)
  | step (request : Request σ) (next : request.Answer → Task σ ε α)

namespace Task

def bind : Task σ ε α → (α → Task σ ε β) → Task σ ε β
  | .done value, f => f value
  | .fail error, _ => .fail error
  | .step request next, f => .step request fun answer => (next answer).bind f

instance : Monad (Task σ ε) where
  pure := .done
  bind := .bind

def ask (op : σ.Op) : Task σ ε (σ.Answer op) := .step (.ask op) .done

/-- Leave the section, whatever the outcome. -/
def thenLeave : Task σ ε α → Task σ ε α
  | .done value => .step .leave fun _ => .done value
  | .fail error => .step .leave fun _ => .fail error
  | .step request next => .step request fun answer => (next answer).thenLeave

/-- A task as an exclusive section. -/
def exclusive (task : Task σ ε α) : Task σ ε α :=
  .step .enqueue fun _ => .step .turn fun _ => task.thenLeave

/-- One task for each element, and what they give in one list. -/
def collect (f : β → Task σ ε (List γ)) : List β → Task σ ε (List γ)
  | [] => .done []
  | x :: xs => (f x).bind fun ys => (collect f xs).bind fun zs => .done (ys ++ zs)

end Task

/-! ## Pre- and postconditions -/

/-- The requests that may be made in a ghost state, and how it moves with the answers. -/
structure Logic (σ : Signature) (X : Type) where
  may : X → Request σ → Prop
  moves : X → (request : Request σ) → request.Answer → X → Prop

/-- Every request of the task may be made, and what it ends with satisfies `post`. -/
def Task.Meets (logic : Logic σ X) (post : X → Except ε α → Prop) : Task σ ε α → X → Prop
  | .done value, x => post x (.ok value)
  | .fail error, x => post x (.error error)
  | .step request next, x => logic.may x request ∧
    ∀ answer y, logic.moves x request answer y → (next answer).Meets logic post y

variable {logic : Logic σ X} {x : X}

/-- How a task goes on after a part of it. -/
def Goes (logic : Logic σ X) (post : X → Except ε β → Prop) (f : α → Task σ ε β) :
    X → Except ε α → Prop
  | x, .ok value => (f value).Meets logic post x
  | x, .error error => post x (.error error)

theorem meets_bind {post : X → Except ε β → Prop} {task : Task σ ε α} {f : α → Task σ ε β} :
    (task.bind f).Meets logic post x ↔ task.Meets logic (Goes logic post f) x := by
  induction task generalizing x with
  | done => rfl
  | fail => rfl
  | step request next ih =>
    refine and_congr_right fun _ => forall_congr' fun answer => ?_
    exact forall_congr' fun y => imp_congr_right fun _ => ih answer

theorem Task.Meets.mono {post post' : X → Except ε α → Prop} {task : Task σ ε α}
    (meets : task.Meets logic post x) (weaker : ∀ y result, post y result → post' y result) :
    task.Meets logic post' x := by
  induction task generalizing x with
  | done => exact weaker _ _ meets
  | fail => exact weaker _ _ meets
  | step request next ih =>
    exact ⟨meets.1, fun answer y moves => ih answer (meets.2 answer y moves)⟩

theorem Task.Meets.bind {post : X → Except ε α → Prop} {post' : X → Except ε β → Prop}
    {task : Task σ ε α} {f : α → Task σ ε β} (first : task.Meets logic post x)
    (rest : ∀ y value, post y (.ok value) → (f value).Meets logic post' y)
    (failed : ∀ y error, post y (.error error) → post' y (.error error)) :
    (task.bind f).Meets logic post' x := by
  refine meets_bind.2 (first.mono fun y result holds => ?_)
  cases result with
  | ok value => exact rest y value holds
  | error error => exact failed y error holds

theorem Task.Meets.thenLeave {post post' : X → Except ε α → Prop} {task : Task σ ε α}
    (meets : task.Meets logic post x) (leave : ∀ y result, post y result → logic.may y .leave ∧
      ∀ z, logic.moves y .leave () z → post' z result) :
    task.thenLeave.Meets logic post' x := by
  induction task generalizing x with
  | done | fail => exact ⟨(leave _ _ meets).1, fun _ y moves => (leave _ _ meets).2 y moves⟩
  | step request next ih =>
    exact ⟨meets.1, fun answer y moves => ih answer (meets.2 answer y moves)⟩

/-- The rule of a loop: `before` holds of what has been collected and the elements that are left. -/
theorem meets_collect {f : β → Task σ ε (List γ)} {xs : List β}
    {post : X → Except ε (List γ) → Prop} (before : List γ → List β → X → Prop)
    (start : before [] xs x)
    (turn : ∀ got y ys z, before got (y :: ys) z → (f y).Meets logic (fun z' result =>
      match result with
      | .ok new => before (got ++ new) ys z'
      | .error error => post z' (.error error)) z)
    (stop : ∀ got z, before got [] z → post z (.ok got)) :
    (Task.collect f xs).Meets logic post x := by
  have general : ∀ got, before got xs x → (Task.collect f xs).Meets logic (fun z result =>
      match result with
      | .ok new => post z (.ok (got ++ new))
      | .error error => post z (.error error)) x := by
    clear start
    induction xs generalizing x with
    | nil =>
      intro got holds
      change post x (.ok (got ++ []))
      rw [List.append_nil]
      exact stop got x holds
    | cons y ys ih =>
      intro got holds
      refine (turn got y ys x holds).bind (fun z new holds => ?_) fun z error holds => holds
      refine (ih (got ++ new) holds).bind (fun z' rest holds => ?_) fun z error holds => holds
      change post z' (.ok (got ++ (new ++ rest)))
      rw [← List.append_assoc]
      exact holds
  refine (general [] start).mono fun z result holds => ?_
  cases result with
  | ok => exact holds
  | error => exact holds

end Tasks
