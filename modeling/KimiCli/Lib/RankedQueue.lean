import Mathlib.Data.List.DropRight
import Mathlib.Order.Basic
import Mathlib.Order.Lattice

/-!
# Queues ordered by rank

A queue in which a smaller rank comes first and equal ranks are served in the order of their
numbers.  A new element goes to the end and then past every element of a larger rank.
-/

namespace RankedQueue

variable {α β : Type*} [LinearOrder β] (rank : α → β) (number : α → ℕ)

/-- `a` is served before `b`. -/
def Before (a b : α) : Prop := rank a < rank b ∨ rank a = rank b ∧ number a < number b

def enqueue (queue : List α) (a : α) : List α :=
  queue.rdropWhile (rank a < rank ·) ++ a :: queue.rtakeWhile (rank a < rank ·)

variable {rank number} {queue : List α} {a : α}

theorem enqueue_perm (rank : α → β) (queue : List α) (a : α) :
    (enqueue rank queue a).Perm (a :: queue) := by
  conv_rhs => rw [← List.rdropWhile_append_rtakeWhile (p := (rank a < rank ·)) (l := queue)]
  exact List.perm_middle

theorem le_of_mem_rdropWhile (sorted : queue.Pairwise (Before rank number)) {b : α}
    (mem : b ∈ queue.rdropWhile (rank a < rank ·)) : rank b ≤ rank a := by
  induction queue using List.reverseRecOn with
  | nil => cases mem
  | append_singleton queue last ih =>
    rw [List.pairwise_append] at sorted
    by_cases past : rank a < rank last
    · rw [List.rdropWhile_concat_pos (rank a < rank ·) _ _ (decide_eq_true past)] at mem
      exact ih sorted.1 mem
    · rw [List.rdropWhile_concat_neg (rank a < rank ·) _ _ (past ∘ of_decide_eq_true)] at mem
      have lastLe : rank last ≤ rank a := not_lt.1 past
      rcases List.mem_append.1 mem with mem | mem
      · rcases sorted.2.2 b mem last (List.mem_singleton_self _) with lt | ⟨same, -⟩
        · exact lt.le.trans lastLe
        · exact same.le.trans lastLe
      · exact List.mem_singleton.1 mem ▸ lastLe

theorem enqueue_sorted (sorted : queue.Pairwise (Before rank number))
    (newest : ∀ b ∈ queue, number b < number a) :
    (enqueue rank queue a).Pairwise (Before rank number) := by
  have parts := sorted
  rw [← List.rdropWhile_append_rtakeWhile (p := (rank a < rank ·)) (l := queue),
    List.pairwise_append] at parts
  obtain ⟨front, back, across⟩ := parts
  rw [enqueue, List.pairwise_append, List.pairwise_cons]
  refine ⟨front, ⟨fun b mem => ?_, back⟩, fun b mem c => ?_⟩
  · have past := List.mem_rtakeWhile_imp mem
    exact .inl (of_decide_eq_true past)
  · intro inside
    rcases List.mem_cons.1 inside with rfl | inside
    · have inQueue := (List.rdropWhile_prefix _ _).subset mem
      rcases (le_of_mem_rdropWhile sorted mem).lt_or_eq with lt | same
      · exact .inl lt
      · exact .inr ⟨same, newest b ((List.rdropWhile_prefix _ _).subset mem)⟩
    · exact across b mem c inside

end RankedQueue
