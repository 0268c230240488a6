import Mathlib.Algebra.Order.BigOperators.Group.List
import Mathlib.Data.List.Nodup
import Mathlib.Tactic.Common
import Mathlib.Algebra.GroupWithZero.Nat

/-!
# Sharing out a budget

Items are served in the order of a list, each with as much as it wants or as is left.
-/

namespace BudgetShares

variable {α : Type*} (weight : α → ℕ)

/-- What an item got. -/
structure Share (α : Type*) where
  item : α
  part : ℕ
  /-- Whether nothing was left after it. -/
  last : Bool
  deriving DecidableEq

/-- The items that get something. -/
def shares : ℕ → List α → List (Share α)
  | _, [] => []
  | budget, item :: items =>
    if min (weight item) budget = 0 then shares budget items
    else ⟨item, min (weight item) budget, budget ≤ weight item⟩ ::
      shares (budget - min (weight item) budget) items

variable {weight} {budget : ℕ} {item : α} {items : List α} {share : Share α}

@[simp] theorem shares_nil : shares weight budget [] = [] := rfl

theorem shares_step : shares weight budget (item :: items) =
    if min (weight item) budget = 0 then shares weight budget items
    else ⟨item, min (weight item) budget, budget ≤ weight item⟩ ::
      shares weight (budget - min (weight item) budget) items := rfl

theorem shares_zero : shares weight 0 items = [] := by
  induction items with
  | nil => rfl
  | cons item items ih => rw [shares_step, Nat.min_zero, if_pos rfl, ih]

theorem shares_cons : shares weight budget (item :: items) =
    shares weight budget [item] ++ shares weight (budget - min (weight item) budget) items := by
  rw [shares_step, shares_step]
  split
  case isTrue none => rw [none, Nat.sub_zero, shares_nil, List.nil_append]
  case isFalse => rw [shares_nil, List.singleton_append]

theorem shares_cons_of_lt (pos : 0 < weight item) (enough : weight item < budget) :
    shares weight budget (item :: items) =
      ⟨item, weight item, false⟩ :: shares weight (budget - weight item) items := by
  rw [shares_step, Nat.min_eq_left enough.le, if_neg pos.ne',
    decide_eq_false (Nat.not_le_of_lt enough)]

theorem shares_cons_of_le (pos : 0 < budget) (short : budget ≤ weight item) :
    shares weight budget (item :: items) = [⟨item, budget, true⟩] := by
  rw [shares_step, Nat.min_eq_right short, if_neg pos.ne', Nat.sub_self, shares_zero,
    decide_eq_true short]

theorem sum_part : ((shares weight budget items).map Share.part).sum =
    min budget (items.map weight).sum := by
  induction items generalizing budget with
  | nil => exact (Nat.min_zero budget).symm
  | cons item items ih =>
    rw [shares_step, List.map_cons, List.sum_cons]
    split
    case isTrue nothing =>
      rw [ih]
      omega
    case isFalse =>
      rw [List.map_cons, List.sum_cons, ih]
      change min (weight item) budget + _ = _
      omega

theorem map_item_sublist : ((shares weight budget items).map Share.item).Sublist items := by
  induction items generalizing budget with
  | nil => exact List.Sublist.slnil
  | cons item items ih =>
    rw [shares_step]
    split
    case isTrue => exact ih.cons item
    case isFalse => exact ih.cons_cons item

theorem mem_shares (mem : share ∈ shares weight budget items) :
    share.item ∈ items ∧ 0 < share.part ∧ share.part ≤ weight share.item ∧
      (share.last = false → share.part = weight share.item) := by
  refine ⟨map_item_sublist.subset (List.mem_map_of_mem mem), ?_⟩
  induction items generalizing budget with
  | nil => cases mem
  | cons item items ih =>
    rw [shares_step] at mem
    split at mem
    case isTrue => exact ih mem
    case isFalse some' =>
      rcases List.mem_cons.1 mem with rfl | mem
      · refine ⟨Nat.pos_of_ne_zero some', Nat.min_le_left _ _, fun more => ?_⟩
        exact Nat.min_eq_left (Nat.le_of_not_le (of_decide_eq_false more))
      · exact ih mem

end BudgetShares
