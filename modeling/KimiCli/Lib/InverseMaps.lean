import Mathlib.Logic.Function.Basic

/-!
# Two partial maps inverse to each other

A partial map and a reverse lookup for it, and what a change of one entry in each of them keeps.
-/

variable {α β : Type*}

/-- `g` looks up what `f` maps. -/
def InverseMaps (f : α → Option β) (g : β → Option α) : Prop := ∀ a b, g b = some a ↔ f a = some b

namespace InverseMaps

variable {f f' : α → Option β} {g g' : β → Option α} {a a' : α} {b : β}

theorem injective (inverse : InverseMaps f g) (left : f a = some b) (right : f a' = some b) :
    a = a' :=
  Option.some.inj (((inverse a b).2 left).symm.trans ((inverse a' b).2 right))

theorem exchange (inverse : InverseMaps f g) (free : ∀ other, g b = some other → other = a)
    (value : f' a = some b) (others : ∀ other, other ≠ a → f' other = f other)
    (new : g' b = some a) (former : ∀ old, old ≠ b → f a = some old → g' old = none)
    (rest : ∀ old, old ≠ b → f a ≠ some old → g' old = g old) : InverseMaps f' g' := by
  intro other old
  by_cases same : other = a
  · subst same
    rw [value]
    constructor
    · intro found
      by_contra differs
      have ne : old ≠ b := fun eq => differs (congrArg some eq.symm)
      by_cases held : f other = some old
      · rw [former old ne held] at found
        cases found
      · rw [rest old ne held] at found
        exact held ((inverse other old).1 found)
    · rintro eq
      obtain rfl : b = old := Option.some.inj eq
      exact new
  · rw [others other same]
    constructor
    · intro found
      by_cases eq : old = b
      · subst eq
        rw [new] at found
        exact absurd (Option.some.inj found).symm same
      · by_cases held : f a = some old
        · rw [former old eq held] at found
          cases found
        · rw [rest old eq held] at found
          exact (inverse other old).1 found
    · intro held
      have found := (inverse other old).2 held
      have ne : old ≠ b := by
        rintro rfl
        exact same (free other found)
      rw [rest old ne fun held' => same (inverse.injective held held'), found]

theorem link (inverse : InverseMaps f g) (unlinked : f a = none) (free : g b = none)
    (value : f' a = some b) (others : ∀ other, other ≠ a → f' other = f other)
    (new : g' b = some a) (rest : ∀ old, old ≠ b → g' old = g old) : InverseMaps f' g' := by
  refine inverse.exchange (fun other found => ?_) value others new (fun old _ held => ?_)
    fun old ne _ => rest old ne
  · rw [free] at found
    cases found
  · rw [unlinked] at held
    cases held

end InverseMaps
