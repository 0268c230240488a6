import Mathlib.Data.List.Basic

/-!
# Runs of an executable transition system

A system is given by a partial step function `step : σ → α → Option σ` on states and labels; a
label on which it returns `none` is not enabled.  `exec` runs a list of labels, `Run step ok s₀`
is the inductive form of the same thing in which every label also satisfies a guard `ok` in the
state it is taken from, and `Run.invariant` is the induction rule: what holds at the start and is
kept by every allowed step holds after every run.
-/

namespace Transition

variable {σ α τ β : Type*}

/-- Execute the labels in order; `none` as soon as one of them is not enabled. -/
def exec (step : σ → α → Option σ) : σ → List α → Option σ
  | s, [] => some s
  | s, a :: as => (step s a).bind fun t => exec step t as

/-- The labels `as` lead from `s₀` to the last argument, each of them allowed by `ok`. -/
inductive Run (step : σ → α → Option σ) (ok : σ → α → Prop) (s₀ : σ) : List α → σ → Prop
  | nil : Run step ok s₀ [] s₀
  | snoc {as : List α} {s t : σ} {a : α} :
      Run step ok s₀ as s → ok s a → step s a = some t → Run step ok s₀ (as ++ [a]) t

/-- No label is forbidden. -/
abbrev Always : σ → α → Prop := fun _ _ => True

variable {step : σ → α → Option σ} {ok ok' : σ → α → Prop} {s₀ s t : σ} {as bs : List α}

/-- What holds at the start and is kept by every allowed step holds after every run. -/
theorem Run.invariant (I : σ → Prop) (run : Run step ok s₀ as s) (h0 : I s₀)
    (keep : ∀ s a t, I s → ok s a → step s a = some t → I t) : I s := by
  induction run with
  | nil => exact h0
  | snoc _ allowed next ih => exact keep _ _ _ ih allowed next

/-- The same rule for a property that also speaks of the labels taken so far. -/
theorem Run.invariant_labels (I : List α → σ → Prop) (run : Run step ok s₀ as s) (h0 : I [] s₀)
    (keep : ∀ as s a t, I as s → ok s a → step s a = some t → I (as ++ [a]) t) : I as s := by
  induction run with
  | nil => exact h0
  | snoc _ allowed next ih => exact keep _ _ _ _ ih allowed next

theorem Run.last {a : α} (run : Run step ok s₀ (as ++ [a]) t) :
    ∃ s, Run step ok s₀ as s ∧ ok s a ∧ step s a = some t := by
  generalize whole : as ++ [a] = bs at run
  cases run with
  | nil => exact absurd whole (List.append_ne_nil_of_right_ne_nil _ (List.cons_ne_nil a []))
  | snoc before allowed next =>
    obtain ⟨rfl, same⟩ := List.append_inj' whole rfl
    cases same
    exact ⟨_, before, allowed, next⟩

/-- The labels determine where a run leads. -/
theorem Run.unique (run : Run step ok s₀ as s) (other : Run step ok' s₀ as t) : s = t := by
  induction run generalizing t with
  | nil =>
    generalize none : ([] : List α) = as at other
    cases other with
    | nil => rfl
    | snoc _ _ _ =>
      exact absurd none.symm (List.append_ne_nil_of_right_ne_nil _ (List.cons_ne_nil _ []))
  | snoc _ _ next ih =>
    obtain ⟨s', before, -, next'⟩ := other.last
    rw [ih before, next'] at next
    exact (Option.some.inj next).symm

theorem Run.mono (run : Run step ok s₀ as s) (weaker : ∀ s a, ok s a → ok' s a) :
    Run step ok' s₀ as s := by
  induction run with
  | nil => exact .nil
  | snoc _ allowed next ih => exact .snoc ih (weaker _ _ allowed) next

/-- A guard may be exchanged for one that follows from it in the states that an invariant allows. -/
theorem Run.mono_invariant (I : σ → Prop) (run : Run step ok s₀ as s) (h0 : I s₀)
    (keep : ∀ s a t, I s → step s a = some t → I t) (weaker : ∀ s a, I s → ok s a → ok' s a) :
    Run step ok' s₀ as s ∧ I s := by
  induction run with
  | nil => exact ⟨.nil, h0⟩
  | snoc _ allowed next ih =>
    exact ⟨.snoc ih.1 (weaker _ _ ih.2 allowed) next, keep _ _ _ ih.2 next⟩

theorem Run.trans (first : Run step ok s₀ as s) (second : Run step ok s bs t) :
    Run step ok s₀ (as ++ bs) t := by
  induction second with
  | nil => simpa using first
  | snoc _ allowed next ih =>
    rw [← List.append_assoc]
    exact .snoc ih allowed next

theorem Run.cons {a : α} (allowed : ok s₀ a) (next : step s₀ a = some s)
    (rest : Run step ok s as t) :
    Run step ok s₀ (a :: as) t :=
  Run.trans (.snoc .nil allowed next) rest

/-- What the steps give out, in their order. -/
def outputs (step : σ → α → Option σ) (out : σ → α → List β) : σ → List α → List β
  | _, [] => []
  | s, a :: as => out s a ++ (step s a).elim [] fun t => outputs step out t as

/-- `step` restricted to the labels that `ok` allows. -/
def guarded (step : σ → α → Option σ) (ok : σ → α → Prop) [∀ s a, Decidable (ok s a)] (s : σ)
    (a : α) : Option σ :=
  if ok s a then step s a else none

theorem Run.of_exec [∀ s a, Decidable (ok s a)] : ∀ {as : List α} {s₀ : σ},
    exec (guarded step ok) s₀ as = some s → Run step ok s₀ as s
  | [], s₀, h => by
    obtain rfl : s₀ = s := Option.some.inj h
    exact .nil
  | a :: as, s₀, h => by
    obtain ⟨t, next, rest⟩ := Option.bind_eq_some_iff.1 h
    rw [guarded] at next
    split at next
    case isTrue allowed => exact .cons allowed next (Run.of_exec rest)
    case isFalse => cases next

end Transition
