import Mathlib.Data.List.Infix
import Mathlib.Data.List.TakeDrop

/-!
# Occurrences of one list in another

The positions at which a list begins inside another one, and the parts that are left when its
occurrences are cut out from left to right, none inside another (`Cuts`).  The parts are unique,
and joining them again gives the whole list.
-/

namespace Substrings

variable {α : Type*} {text search sep : List α} {p q : ℕ} {parts parts' : List (List α)}

/-- `search` begins at the position `p`. -/
def Occurs (text search : List α) (p : ℕ) : Prop := search <+: text.drop p

/-- and at no earlier one. -/
def First (text search : List α) (p : ℕ) : Prop :=
  Occurs text search p ∧ ∀ q < p, ¬ Occurs text search q

/-- The parts around the occurrences, which are found from left to right. -/
inductive Cuts (search : List α) : List α → List (List α) → Prop
  | last {text : List α} : (∀ p, ¬ Occurs text search p) → Cuts search text [text]
  | cut {text : List α} {p : ℕ} {parts : List (List α)} : First text search p →
      Cuts search (text.drop (p + search.length)) parts → Cuts search text (text.take p :: parts)

def join (sep : List α) : List (List α) → List α
  | [] => []
  | [part] => part
  | part :: parts => part ++ sep ++ join sep parts

theorem join_cons (part : List α) (some : parts ≠ []) :
    join sep (part :: parts) = part ++ sep ++ join sep parts := by
  cases parts with
  | nil => exact absurd rfl some
  | cons => rfl

theorem mem_join {c : α} {part : List α} (mem : part ∈ parts) (inside : c ∈ part) :
    c ∈ join sep parts := by
  induction parts with
  | nil => cases mem
  | cons first parts ih =>
    cases parts with
    | nil => exact List.mem_singleton.1 mem ▸ inside
    | cons =>
      rw [join_cons _ (List.cons_ne_nil _ _), List.append_assoc, List.mem_append]
      obtain rfl | mem := List.mem_cons.1 mem
      · exact .inl inside
      · exact .inr (List.mem_append_right _ (ih mem))

theorem occurs_drop (k : ℕ) : Occurs (text.drop k) search p ↔ Occurs text search (k + p) := by
  rw [Occurs, Occurs, List.drop_drop]

theorem Occurs.split (here : Occurs text search p) :
    text.take p ++ search ++ text.drop (p + search.length) = text := by
  obtain ⟨rest, rest_eq⟩ := here
  have after : text.drop (p + search.length) = rest := by
    rw [← List.drop_drop, ← rest_eq, List.drop_left]
  rw [after, List.append_assoc, rest_eq, List.take_append_drop]

theorem First.unique (first : First text search p) (first' : First text search q) : p = q := by
  rcases Nat.lt_trichotomy p q with lt | rfl | lt
  · exact absurd first.1 (first'.2 p lt)
  · rfl
  · exact absurd first'.1 (first.2 q lt)

theorem Cuts.ne_nil (cuts : Cuts search text parts) : parts ≠ [] := by
  cases cuts <;> exact List.cons_ne_nil _ _

theorem Cuts.join_eq (cuts : Cuts search text parts) : join search parts = text := by
  induction cuts with
  | last => rfl
  | cut first rest ih => rw [join_cons _ rest.ne_nil, ih, first.1.split]

theorem Cuts.unique (cuts : Cuts search text parts) (cuts' : Cuts search text parts') :
    parts = parts' := by
  induction cuts generalizing parts' with
  | last none =>
    cases cuts' with
    | last => rfl
    | cut first => exact absurd first.1 (none _)
  | cut first rest ih =>
    cases cuts' with
    | last none => exact absurd first.1 (none _)
    | cut first' rest' =>
      obtain rfl := first.unique first'
      rw [ih rest']

/-! ## One element at the front -/

theorem Occurs.tail {c : α} (here : Occurs (c :: text) search (p + 1)) : Occurs text search p := by
  rwa [Occurs, List.drop_succ_cons] at here

theorem Cuts.cons {c : α} (cuts : Cuts search text parts) (other : ¬ search <+: c :: text) :
    ∃ part rest, parts = part :: rest ∧ Cuts search (c :: text) ((c :: part) :: rest) := by
  cases cuts with
  | last none =>
    refine ⟨text, [], rfl, .last fun p here => ?_⟩
    cases p with
    | zero => exact other here
    | succ p => exact none p here.tail
  | @cut _ p parts first rest =>
    refine ⟨_, _, rfl, ?_⟩
    have first' : First (c :: text) search (p + 1) := by
      refine ⟨first.1, fun q lt here => ?_⟩
      cases q with
      | zero => exact other here
      | succ q => exact first.2 q (Nat.lt_of_succ_lt_succ lt) here.tail
    refine Cuts.cut first' ?_
    rw [Nat.succ_add, List.drop_succ_cons]
    exact rest

theorem Cuts.search_append (cuts : Cuts search text parts) :
    Cuts search (search ++ text) ([] :: parts) := by
  have first : First (search ++ text) search 0 :=
    ⟨List.prefix_append _ _, fun q lt => absurd lt (Nat.not_lt_zero q)⟩
  refine Cuts.cut first ?_
  rw [Nat.zero_add, List.drop_left]
  exact cuts

end Substrings
