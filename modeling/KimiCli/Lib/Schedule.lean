import Mathlib.Data.Int.Interval
import Mathlib.Order.Interval.Finset.Basic

/-!
# Occurrences of a schedule

A schedule is a predicate on the integers, its occurrences.  They are searched one after the other,
each search within a window, and counted over half-open intervals.
-/

namespace Schedule

variable {Occ : ℤ → Prop} {window a b c t : ℤ}

/-- `b` is the first occurrence after `a`. -/
structure IsNext (Occ : ℤ → Prop) (a b : ℤ) : Prop where
  lt : a < b
  occurs : Occ b
  first : ∀ t, a < t → t < b → ¬Occ t

/-- What a search after `a` may answer that looks no further than the window. -/
def Finds (Occ : ℤ → Prop) (window a : ℤ) : Option ℤ → Prop
  | some b => IsNext Occ a b ∧ b ≤ a + window
  | none => ∀ t, a < t → t ≤ a + window → ¬Occ t

theorem IsNext.le (next : IsNext Occ a b) (occurs : Occ t) (later : a < t) : b ≤ t :=
  not_lt.1 fun lt => next.first t later lt occurs

theorem Finds.gap (finds : Finds Occ window a none) (occurs : Occ t) (later : a < t) :
    a + window < t :=
  not_le.1 fun le => finds t later le occurs

variable (Occ) [DecidablePred Occ]

/-- The number of occurrences after `a` and not after `b`. -/
def count (a b : ℤ) : ℕ := ((@Finset.Ioc ℤ _ Int.instLocallyFiniteOrder a b).filter Occ).card

variable {Occ}

@[simp] theorem count_self (a : ℤ) : count Occ a a = 0 := by
  rw [count, Finset.Ioc_self, Finset.filter_empty, Finset.card_empty]

theorem count_add (first : a ≤ b) (second : b ≤ c) :
    count Occ a b + count Occ b c = count Occ a c := by
  rw [count, count, count, ← Finset.Ioc_union_Ioc_eq_Ioc first second, Finset.filter_union,
    Finset.card_union_of_disjoint]
  refine Finset.disjoint_filter_filter (Finset.disjoint_left.2 fun t before after => ?_)
  exact absurd (Finset.mem_Ioc.1 before).2 (not_le.2 (Finset.mem_Ioc.1 after).1)

theorem IsNext.count (next : IsNext Occ a b) : count Occ a b = 1 := by
  refine Finset.card_eq_one.2 ⟨b, Finset.ext fun t => ?_⟩
  rw [Finset.mem_filter, Finset.mem_Ioc, Finset.mem_singleton]
  constructor
  · rintro ⟨⟨later, le⟩, occurs⟩
    exact le_antisymm le (next.le occurs later)
  · rintro rfl
    exact ⟨⟨next.lt, le_rfl⟩, next.occurs⟩

end Schedule
