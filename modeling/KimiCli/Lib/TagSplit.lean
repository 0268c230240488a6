import Mathlib.Data.List.Infix
import Mathlib.Tactic.Common

/-!
# Splitting a text at tags

A text is read from the left in a mode.  A tag of the mode is left out and sets the next mode, and
any other item goes to the mode in which it is read.  What is read does not depend on the items
behind it once they cannot complete a tag (`split_append`).
-/

/-- The tags of a mode, each with the mode that it sets. -/
structure TagTable (μ α : Type*) where
  tags : μ → List (List α × μ)
  nonempty : ∀ m, ∀ tag ∈ tags m, tag.1 ≠ []

namespace TagTable

variable {μ α : Type*} [DecidableEq α] (T : TagTable μ α)

/-- The tag with which a text begins. -/
def find (m : μ) (text : List α) : Option (List α × μ) :=
  (T.tags m).find? fun tag => decide (tag.1 <+: text)

/-- The items with the modes in which they are read, behind as many items as are skipped. -/
def splitSkip : ℕ → μ → List α → List (μ × α)
  | _, _, [] => []
  | skip + 1, m, _ :: text => splitSkip skip m text
  | 0, m, c :: text =>
    match T.find m (c :: text) with
    | some (tag, m') => splitSkip (tag.length - 1) m' text
    | none => (m, c) :: splitSkip 0 m text

def split (m : μ) (text : List α) : List (μ × α) := T.splitSkip 0 m text

variable {T} {m m' : μ} {tag text rest : List α} {c : α}

@[simp] theorem split_nil : T.split m [] = [] := rfl

theorem splitSkip_eq (skip : ℕ) (text : List α) :
    T.splitSkip skip m text = T.split m (text.drop skip) := by
  induction text generalizing skip with
  | nil => cases skip <;> rfl
  | cons c text ih =>
    cases skip with
    | zero => rfl
    | succ skip => exact ih skip

theorem find_eq_some (found : T.find m text = some (tag, m')) :
    (tag, m') ∈ T.tags m ∧ tag <+: text := by
  have chosen := List.find?_some found
  rw [decide_eq_true_eq] at chosen
  exact ⟨List.mem_of_find?_eq_some found, chosen⟩

theorem find_eq_none : T.find m text = none ↔ ∀ tag ∈ T.tags m, ¬ tag.1 <+: text := by
  rw [find, List.find?_eq_none]
  simp only [decide_eq_true_eq]

theorem split_of_find (found : T.find m text = some (tag, m')) :
    T.split m text = T.split m' (text.drop tag.length) := by
  obtain ⟨mem, before⟩ := find_eq_some found
  cases tag with
  | nil => exact absurd rfl (T.nonempty m _ mem)
  | cons a tag =>
    cases text with
    | nil => exact absurd (List.prefix_nil.1 before) (List.cons_ne_nil _ _)
    | cons c text =>
      rw [split, splitSkip, found]
      exact splitSkip_eq tag.length text

theorem split_cons (none : T.find m (c :: text) = none) :
    T.split m (c :: text) = (m, c) :: T.split m text := by
  rw [split, splitSkip, none]
  rfl

theorem split_append (plain : ∀ p < text.length, T.find m (text.drop p ++ rest) = none) :
    T.split m (text ++ rest) = text.map (m, ·) ++ T.split m rest := by
  induction text with
  | nil => rfl
  | cons c text ih =>
    have first : T.find m (c :: (text ++ rest)) = none := plain 0 (Nat.succ_pos _)
    rw [List.cons_append, split_cons first, ih fun p lt => plain (p + 1) (Nat.succ_lt_succ lt)]
    rfl

theorem find_append (plain : ∀ tag ∈ T.tags m, ¬ tag.1 <+: text ∧ ¬ text <+: tag.1) :
    T.find m (text ++ rest) = none := by
  refine find_eq_none.2 fun tag mem before => ?_
  obtain ⟨outside, notPart⟩ := plain tag mem
  rcases List.prefix_or_prefix_of_prefix before (List.prefix_append text rest) with fits | part
  · exact outside fits
  · exact notPart part

/-! ## Pieces -/

/-- The items of the pieces, each with the mode of its piece. -/
def items (pieces : List (μ × List α)) : List (μ × α) :=
  pieces.flatMap fun piece => piece.2.map (piece.1, ·)

variable [DecidableEq μ]

/-- A piece before pieces that are joined. -/
def attach (piece : μ × List α) : List (μ × List α) → List (μ × List α)
  | [] => [piece]
  | next :: rest =>
    if piece.1 = next.1 then (piece.1, piece.2 ++ next.2) :: rest else piece :: next :: rest

/-- Neighbours of one mode become one piece. -/
def joined (pieces : List (μ × List α)) : List (μ × List α) := pieces.foldr attach []

omit [DecidableEq α] in
theorem attach_attach (first second : List α) (rest : List (μ × List α)) :
    attach (m, first) (attach (m, second) rest) = attach (m, first ++ second) rest := by
  cases rest with
  | nil => exact if_pos rfl
  | cons next =>
    unfold attach
    by_cases same : m = next.1
    · simp only [same, if_true, List.append_assoc]
    · simp only [same, if_false, if_true]

omit [DecidableEq α] in
theorem items_joined (pieces : List (μ × List α)) : items (joined pieces) = items pieces := by
  induction pieces with
  | nil => rfl
  | cons piece pieces ih =>
    have whole : items (piece :: pieces) = piece.2.map (piece.1, ·) ++ items pieces := rfl
    rw [whole, ← ih, joined, List.foldr_cons, ← joined]
    cases joined pieces with
    | nil => rfl
    | cons next =>
      rw [attach]
      by_cases same : piece.1 = next.1
      · rw [if_pos same, items, List.flatMap_cons, List.map_append, List.append_assoc, same]
        rfl
      · rw [if_neg same]
        rfl

omit [DecidableEq α] in
theorem joined_items (pieces : List (μ × List α)) (nonempty : ∀ piece ∈ pieces, piece.2 ≠ []) :
    joined pieces = joined ((items pieces).map fun item => (item.1, [item.2])) := by
  have single (m : μ) (text : List α) (rest : List (μ × List α)) (some : text ≠ []) :
      (text.map fun c => (m, [c])).foldr attach rest = attach (m, text) rest := by
    induction text with
    | nil => exact absurd rfl some
    | cons c text ih =>
      rw [List.map_cons, List.foldr_cons]
      by_cases last : text = []
      · rw [last]
        rfl
      · rw [ih last, attach_attach]
        rfl
  induction pieces with
  | nil => rfl
  | cons piece pieces ih =>
    obtain ⟨some, nonempty⟩ := List.forall_mem_cons.1 nonempty
    have whole : items (piece :: pieces) = piece.2.map (piece.1, ·) ++ items pieces := rfl
    rw [joined, List.foldr_cons, ← joined, ih nonempty, whole, List.map_append, joined, joined,
      List.foldr_append, List.map_map]
    exact (single piece.1 piece.2 _ some).symm

end TagTable
