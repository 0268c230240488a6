import Mathlib.Data.List.Nodup
import Mathlib.Tactic.Common

/-!
# The first item of each key

A list read from its front, where an item is kept when no item kept so far has its key.
-/

namespace FirstOfEach

variable {α κ : Type*} [DecidableEq κ] (key : α → κ) {kept items : List α} {item : α}

/-- Whether an item of `kept` has the key of `item`. -/
def hasKey (kept : List α) (item : α) : Bool := kept.any fun other => key other = key item

def keep (kept : List α) (item : α) : List α :=
  if hasKey key kept item then kept else kept ++ [item]

def firstOfEach (items : List α) : List α := items.foldl (keep key) []

variable {key}

theorem hasKey_iff : hasKey key kept item ↔ key item ∈ kept.map key := by
  rw [hasKey, List.any_eq_true, List.mem_map]
  simp only [decide_eq_true_eq]

theorem nodup_keep (nodup : (kept.map key).Nodup) : ((keep key kept item).map key).Nodup := by
  rw [keep]
  split
  case isTrue => exact nodup
  case isFalse new =>
    rw [hasKey_iff] at new
    rw [List.map_append, List.map_singleton]
    exact nodup.append (List.nodup_singleton _) (List.disjoint_singleton.2 new)

theorem nodup_foldl_keep (nodup : (kept.map key).Nodup) :
    ((items.foldl (keep key) kept).map key).Nodup := by
  induction items generalizing kept with
  | nil => exact nodup
  | cons item items ih => exact ih (nodup_keep nodup)

theorem nodup_firstOfEach : ((firstOfEach key items).map key).Nodup :=
  nodup_foldl_keep List.nodup_nil

theorem foldl_keep_of_nodup (nodup : ((kept ++ items).map key).Nodup) :
    items.foldl (keep key) kept = kept ++ items := by
  induction items generalizing kept with
  | nil => exact (List.append_nil kept).symm
  | cons item items ih =>
    have new : ¬ hasKey key kept item := by
      rw [hasKey_iff]
      rw [List.map_append, List.nodup_append] at nodup
      intro mem
      exact nodup.2.2 _ mem _ (List.mem_cons_self ..) rfl
    rw [List.foldl_cons, keep, if_neg new, ih (by simpa using nodup), List.append_assoc,
      List.singleton_append]

theorem firstOfEach_of_nodup (nodup : (items.map key).Nodup) : firstOfEach key items = items :=
  foldl_keep_of_nodup nodup

theorem foldl_keep_sublist (kept : List α) :
    ∃ taken, taken.Sublist items ∧ items.foldl (keep key) kept = kept ++ taken := by
  induction items generalizing kept with
  | nil => exact ⟨[], .slnil, (List.append_nil kept).symm⟩
  | cons item items ih =>
    rw [List.foldl_cons, keep]
    split
    case isTrue =>
      obtain ⟨taken, sublist, same⟩ := ih kept
      exact ⟨taken, sublist.cons item, same⟩
    case isFalse =>
      obtain ⟨taken, sublist, same⟩ := ih (kept ++ [item])
      exact ⟨item :: taken, sublist.cons_cons item, by rw [same]; simp⟩

theorem firstOfEach_sublist : (firstOfEach key items).Sublist items := by
  have kept : ∃ taken, taken.Sublist items ∧ firstOfEach key items = [] ++ taken :=
    foldl_keep_sublist []
  obtain ⟨taken, sublist, same⟩ := kept
  rw [same]
  exact sublist

end FirstOfEach
