import Mathlib.Data.List.Basic
import Mathlib.Data.List.Chain

/-!
# Two parts joined by a doubled separator

Two lists in which no separator follows another, joined by two separators.  Cutting at the first
two that meet gives the parts back unless the first part ends in a separator itself, and that is
also what decides whether a list begins with another one's first part.
-/

namespace DoubledSeparator

variable {α : Type*} [DecidableEq α] {x : α} {left left' right right' : List α}

/-- No separator follows another. -/
def Single (x : α) (part : List α) : Prop := part.IsChain fun a b => ¬(a = x ∧ b = x)

/-- The parts before and after the first two separators that meet. -/
def cut (x : α) : List α → Option (List α × List α)
  | a :: b :: rest =>
    if a = x ∧ b = x then some ([], rest)
    else (cut x (b :: rest)).map fun parts => (a :: parts.1, parts.2)
  | _ => none

omit [DecidableEq α] in
theorem Single.tail {a : α} (single : Single x (a :: left)) : Single x left :=
  List.IsChain.tail single

omit [DecidableEq α] in
theorem Single.head {a b : α} (single : Single x (a :: b :: left)) : ¬(a = x ∧ b = x) :=
  (List.isChain_cons_cons.1 single).1

theorem cut_join (single : Single x left) (clear : left.getLast? ≠ some x) :
    cut x (left ++ x :: x :: right) = some (left, right) := by
  induction left with
  | nil => rw [List.nil_append, cut, if_pos ⟨rfl, rfl⟩]
  | cons a left ih =>
    cases left with
    | nil =>
      have ne : ¬(a = x ∧ x = x) := fun same => clear (congrArg some same.1)
      rw [List.cons_append, List.nil_append, cut, if_neg ne, cut, if_pos ⟨rfl, rfl⟩]
      rfl
    | cons =>
      rw [List.getLast?_cons_cons] at clear
      rw [List.cons_append, List.cons_append, cut, if_neg single.head, ← List.cons_append,
        ih single.tail clear]
      rfl

theorem clear_of_cut_join (parts : cut x (left ++ x :: x :: right) = some (left, right)) :
    left.getLast? ≠ some x := by
  induction left with
  | nil => exact (Option.some_ne_none x).symm
  | cons a left ih =>
    cases left with
    | nil =>
      rintro last
      cases Option.some.inj last
      rw [List.cons_append, List.nil_append, cut, if_pos ⟨rfl, rfl⟩] at parts
      exact List.cons_ne_nil _ _ (congrArg Prod.fst (Option.some.inj parts)).symm
    | cons =>
      rw [List.getLast?_cons_cons]
      rw [List.cons_append, List.cons_append, cut] at parts
      split at parts
      · exact absurd (congrArg Prod.fst (Option.some.inj parts)).symm (List.cons_ne_nil _ _)
      · obtain ⟨rest, found, same⟩ := Option.map_eq_some_iff.1 parts
        refine ih (found.trans (congrArg some ?_))
        have first := congrArg Prod.fst same
        have second := congrArg Prod.snd same
        exact Prod.ext (List.cons.inj first).2 second

omit [DecidableEq α] in
theorem singleton_prefix : [x] <+: right ↔ right.head? = some x := by
  cases right with
  | nil => exact ⟨fun none => absurd (List.prefix_nil.1 none) (List.cons_ne_nil _ _), nofun⟩
  | cons =>
    rw [List.cons_prefix_cons, List.head?_cons, Option.some.injEq, eq_comm]
    exact and_iff_left (List.nil_prefix)

omit [DecidableEq α] in
/-- Which joined lists begin with a part and the doubled separator: those with that first part,
and the two ways a separator can move over the join. -/
theorem prefix_join_iff (single : Single x left) (single' : Single x left') :
    left' ++ [x, x] <+: left ++ x :: x :: right ↔
      left = left' ∨ left = left' ++ [x] ∨ (left' = left ++ [x] ∧ right.head? = some x) := by
  induction left generalizing left' with
  | nil =>
    cases left' with
    | nil => simp
    | cons c left' =>
      rw [List.nil_append, List.cons_append, List.cons_prefix_cons]
      cases left' with
      | nil =>
        rw [List.nil_append, List.cons_prefix_cons, singleton_prefix]
        constructor
        · rintro ⟨rfl, -, first⟩
          exact .inr (.inr ⟨rfl, first⟩)
        · rintro (none | none | ⟨same, first⟩)
          · exact nomatch none
          · exact nomatch none
          · exact ⟨(List.cons.inj same).1, rfl, first⟩
      | cons =>
        have ne := single'.head
        simp only [List.cons_append, List.cons_prefix_cons]
        constructor
        · rintro ⟨first, second, -⟩
          exact absurd ⟨first, second⟩ ne
        · simp
  | cons a left ih =>
    cases left' with
    | nil =>
      cases left with
      | nil =>
        rw [List.nil_append, List.nil_append, List.cons_append, List.nil_append,
          List.cons_prefix_cons]
        constructor
        · rintro ⟨rfl, -⟩
          exact .inr (.inl rfl)
        · rintro (none | same | ⟨none, -⟩)
          · exact nomatch none
          · exact ⟨(List.cons.inj same).1.symm, List.prefix_append [x] _⟩
          · exact nomatch none
      | cons =>
        have ne := single.head
        simp only [List.nil_append, List.cons_append, List.cons_prefix_cons]
        constructor
        · rintro ⟨first, second, -⟩
          exact absurd ⟨first.symm, second.symm⟩ ne
        · simp
    | cons =>
      rw [List.cons_append, List.cons_append, List.cons_prefix_cons,
        ih single.tail single'.tail]
      simp only [List.cons_append, List.cons.injEq]
      constructor
      · rintro ⟨rfl, same⟩
        simpa using same
      · rintro (⟨rfl, same⟩ | ⟨rfl, same⟩ | ⟨⟨rfl, same⟩, second⟩)
        · exact ⟨rfl, .inl same⟩
        · exact ⟨rfl, .inr (.inl same)⟩
        · exact ⟨rfl, .inr (.inr ⟨same, second⟩)⟩

end DoubledSeparator
