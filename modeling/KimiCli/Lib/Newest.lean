import Mathlib.Data.List.Perm.Basic
import Mathlib.Order.Basic
import Mathlib.Order.Nat
import Mathlib.Order.Lattice

/-!
# The newest entries of a list

`cut` keeps the `n` entries with the largest keys.  `IsNewest` says that a list holds the `n`
newest of the entries of another, in some order; cutting after each entry that is added comes to
the same as one cut at the end (`IsNewest.cut_concat`).
-/

namespace Newest

variable {α κ : Type*} [LinearOrder κ] {key : α → κ} {n : ℕ} {all all' kept kept' more : List α}

def notNewer (key : α → κ) (a b : α) : Bool := key a ≤ key b

/-- The newest `n` entries, the oldest first; a list that is not longer is left as it is. -/
def cut (key : α → κ) (n : ℕ) (l : List α) : List α :=
  if n < l.length then (l.mergeSort (notNewer key)).drop (l.length - n) else l

/-- `kept` holds the newest `n` entries of `all`. -/
def IsNewest (key : α → κ) (n : ℕ) (kept all : List α) : Prop :=
  kept.length = min all.length n ∧
    ∃ dropped, (kept ++ dropped).Perm all ∧ ∀ d ∈ dropped, ∀ k ∈ kept, key d ≤ key k

theorem sorted_mergeSort (l : List α) :
    (l.mergeSort (notNewer key)).Pairwise fun a b => key a ≤ key b := by
  have trans (a b c : α) (ab : notNewer key a b = true) (bc : notNewer key b c = true) :
      notNewer key a c = true :=
    decide_eq_true (le_trans (of_decide_eq_true ab) (of_decide_eq_true bc))
  have total (a b : α) : (notNewer key a b || notNewer key b a) = true := by
    rw [Bool.or_eq_true, notNewer, notNewer, decide_eq_true_iff, decide_eq_true_iff]
    exact le_total (key a) (key b)
  exact (List.pairwise_mergeSort trans total l).imp fun ab => of_decide_eq_true ab

theorem cut_isNewest (l : List α) : IsNewest key n (cut key n l) l := by
  rw [cut]
  split
  case isFalse short =>
    refine ⟨(Nat.min_eq_left (Nat.not_lt.1 short)).symm, [], ?_, fun d mem => nomatch mem⟩
    rw [List.append_nil]
  case isTrue long =>
    have parts := List.take_append_drop (l.length - n) (l.mergeSort (notNewer key))
    refine ⟨?_, _, List.perm_append_comm.trans (parts ▸ List.mergeSort_perm l _), ?_⟩
    · rw [List.length_drop, List.length_mergeSort]
      omega
    · intro d old k new
      have sorted := @sorted_mergeSort _ _ _ key l
      rw [← parts] at sorted
      exact (List.pairwise_append.1 sorted).2.2 d old k new

theorem IsNewest.perm (newest : IsNewest key n kept all) (same : all.Perm all') :
    IsNewest key n kept all' := by
  obtain ⟨length, dropped, parts, older⟩ := newest
  exact ⟨same.length_eq ▸ length, dropped, parts.trans same, older⟩

theorem IsNewest.perm_of_le (newest : IsNewest key n kept all) (few : all.length ≤ n) :
    kept.Perm all := by
  obtain ⟨length, dropped, parts, -⟩ := newest
  have whole := parts.length_eq
  rw [List.length_append] at whole
  obtain rfl : dropped = [] := List.eq_nil_of_length_eq_zero (by omega)
  rwa [List.append_nil] at parts

theorem isNewest_of_perm (same : kept.Perm all) (few : all.length ≤ n) :
    IsNewest key n kept all := by
  refine ⟨?_, [], ?_, fun d mem => nomatch mem⟩
  · rw [same.length_eq, Nat.min_eq_left few]
  · rwa [List.append_nil]

theorem IsNewest.mem (newest : IsNewest key n kept all) {a : α} (mem : a ∈ kept) : a ∈ all := by
  obtain ⟨-, dropped, parts, -⟩ := newest
  exact parts.subset (List.mem_append_left _ mem)

theorem IsNewest.append (newest : IsNewest key n kept all)
    (again : IsNewest key n kept' (kept ++ more)) : IsNewest key n kept' (all ++ more) := by
  obtain ⟨length, gone, parts, older⟩ := newest
  obtain ⟨length', gone', parts', older'⟩ := again
  have size := parts.length_eq
  have size' := parts'.length_eq
  simp only [List.length_append] at size size' length'
  refine ⟨?_, gone' ++ gone, ?_, ?_⟩
  · rw [List.length_append]
    omega
  · calc (kept' ++ (gone' ++ gone)).Perm (kept' ++ gone' ++ gone) := by rw [List.append_assoc]
      _ |>.Perm (kept ++ more ++ gone) := parts'.append_right gone
      _ |>.Perm (kept ++ (gone ++ more)) := by
        rw [List.append_assoc]
        exact List.perm_append_comm.append_left kept
      _ |>.Perm (all ++ more) := by
        rw [← List.append_assoc]
        exact parts.append_right more
  · intro d mem k here
    rcases List.mem_append.1 mem with old | old
    · exact older' d old k here
    -- Something was dropped before, so `kept` is full; if `k` is older than it, `kept'` has room
    -- for fewer than all of `kept`, although what was dropped then is older still than `k`.
    by_contra newer
    rw [not_le] at newer
    have full : kept.length = n := by
      have := List.length_pos_of_mem old
      omega
    have before : kept.countP (notNewer key d) = kept.length :=
      List.countP_eq_length.2 fun a mem => decide_eq_true (older d old a mem)
    have dropped : gone'.countP (notNewer key d) = 0 :=
      List.countP_eq_zero.2 fun a mem recent =>
        absurd (of_decide_eq_true recent) (not_le.2 (lt_of_le_of_lt (older' a mem k here) newer))
    have after : kept'.countP (notNewer key d) < kept'.length := by
      refine Nat.lt_of_le_of_ne List.countP_le_length fun every => ?_
      exact absurd (of_decide_eq_true (List.countP_eq_length.1 every k here)) (not_le.2 newer)
    have total := parts'.countP_eq (notNewer key d)
    rw [List.countP_append, List.countP_append, before, dropped] at total
    omega

theorem IsNewest.cut_concat (newest : IsNewest key n kept all) (a : α) :
    IsNewest key n (cut key n (kept ++ [a])) (all ++ [a]) :=
  newest.append (cut_isNewest _)

end Newest
