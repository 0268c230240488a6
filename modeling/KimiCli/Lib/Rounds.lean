import Mathlib.Logic.Relation
import Mathlib.Tactic.Common

/-!
# Loops that end by themselves

One round of a loop without a bound leads to the next state or to the result.  A loop each of whose
rounds makes something smaller ends, and a number of rounds that it cannot need is as good as any
other.
-/

namespace Rounds

variable {σ β : Type*}

/-- The loop for at most so many rounds. -/
def loop (round : σ → σ ⊕ β) : ℕ → σ → Option β
  | 0, _ => none
  | fuel + 1, s =>
    match round s with
    | .inl next => loop round fuel next
    | .inr result => some result

def Continues (round : σ → σ ⊕ β) (s t : σ) : Prop := round s = .inl t

/-- The states at the start of the rounds. -/
def Reaches (round : σ → σ ⊕ β) : σ → σ → Prop := Relation.ReflTransGen (Continues round)

variable {round : σ → σ ⊕ β} {s t : σ}

theorem loop_inl {fuel : ℕ} (next : round s = .inl t) :
    loop round (fuel + 1) s = loop round fuel t := by
  rw [loop, next]

theorem loop_inr {fuel : ℕ} {result : β} (done : round s = .inr result) :
    loop round (fuel + 1) s = some result := by
  rw [loop, done]

/-- What holds at the start and is kept by every round that goes on holds in every round. -/
theorem Reaches.invariant (I : σ → Prop) (keep : ∀ s t, I s → round s = .inl t → I t)
    (reached : Reaches round s t) (start : I s) : I t := by
  induction reached with
  | refl => exact start
  | tail _ next ih => exact keep _ _ ih next

/-- The induction on the size goes from the state to the states that its rounds lead to. -/
theorem loop_ends (size : σ → ℕ) (I : σ → Prop) (keep : ∀ s t, I s → round s = .inl t → I t)
    (smaller : ∀ s t, I s → round s = .inl t → size t < size s) (start : I s) :
    ∃ t result, Reaches round s t ∧ round t = .inr result ∧
      ∀ fuel, size s < fuel → loop round fuel s = some result := by
  induction bound : size s using Nat.strongRecOn generalizing s with
  | ind n ih =>
    subst bound
    rcases here : round s with next | result
    · have less := smaller s next start here
      obtain ⟨t, result, reached, done, ends⟩ := ih _ less (keep s next start here) rfl
      refine ⟨t, result, .head here reached, done, fun fuel enough => ?_⟩
      obtain ⟨fuel, rfl⟩ : ∃ k, fuel = k + 1 := ⟨fuel - 1, by omega⟩
      rw [loop_inl here]
      exact ends fuel (by omega)
    · refine ⟨s, result, .refl, here, fun fuel enough => ?_⟩
      obtain ⟨fuel, rfl⟩ : ∃ k, fuel = k + 1 := ⟨fuel - 1, by omega⟩
      exact loop_inr here

end Rounds
