import Mathlib.Data.List.Basic
import Mathlib.Data.List.Induction

/-!
# The run of equal elements at the end of a list

The length of the longest block of equal elements that a list ends with, and how it changes when an
element is appended.
-/

section

variable {α : Type*} [DecidableEq α]

def trailingRun (xs : List α) : ℕ :=
  match xs.reverse with
  | [] => 0
  | x :: rest => (rest.takeWhile (· = x)).length + 1

@[simp] theorem trailingRun_nil : trailingRun ([] : List α) = 0 := rfl

theorem trailingRun_concat (xs : List α) (x : α) :
    trailingRun (xs ++ [x]) = if xs.getLast? = some x then trailingRun xs + 1 else 1 := by
  rw [trailingRun, List.reverse_append, List.reverse_singleton, List.singleton_append]
  rcases List.eq_nil_or_concat xs with rfl | ⟨xs, y, rfl⟩
  · rfl
  · simp only [List.concat_eq_append, trailingRun, List.reverse_append, List.reverse_singleton,
      List.singleton_append, List.getLast?_concat, Option.some.injEq, List.takeWhile_cons,
      decide_eq_true_eq]
    split
    case isTrue same => rw [same, List.length_cons]
    case isFalse => rfl

end
