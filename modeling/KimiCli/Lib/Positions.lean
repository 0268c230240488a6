import Mathlib.Data.List.InsertIdx
import Mathlib.Data.List.Nodup

/-!
# Positions in lists without duplicates

What erasing, dropping and appending do to the position of an element, and to the elements of an
initial part whose length is kept up with what is erased from it.
-/

namespace Positions

open List

variable {α : Type*} {l l' : List α} {x : α} {i r n : ℕ}

/-! ## Initial parts -/

/-- The length of an initial part of length `c` after the element at `r` is gone. -/
def shrunk (c r : ℕ) : ℕ := if r < c then c - 1 else c

theorem mem_take_of_eraseIdx {c : ℕ} (mem : x ∈ (l.eraseIdx r).take (shrunk c r)) :
    x ∈ l.take c := by
  obtain ⟨i, here⟩ := mem_iff_getElem?.1 mem
  rw [getElem?_take] at here
  split at here
  case isFalse => cases here
  case isTrue lt =>
    unfold shrunk at lt
    rw [getElem?_eraseIdx] at here
    split at here
    · refine mem_iff_getElem?.2 ⟨i, ?_⟩
      rw [getElem?_take, if_pos (by split at lt <;> omega), here]
    · refine mem_iff_getElem?.2 ⟨i + 1, ?_⟩
      rw [getElem?_take, if_pos (by split at lt <;> omega), here]

theorem mem_take_of_foldl_eraseIdx (removals : List ℕ) (l : List α) (c : ℕ)
    (mem : x ∈ (removals.foldl eraseIdx l).take (removals.foldl shrunk c)) : x ∈ l.take c := by
  induction removals generalizing l c with
  | nil => exact mem
  | cons r removals ih => exact mem_take_of_eraseIdx (ih _ _ mem)

theorem foldl_eraseIdx_sublist (removals : List ℕ) (l : List α) :
    (removals.foldl eraseIdx l).Sublist l := by
  induction removals generalizing l with
  | nil => exact Sublist.refl l
  | cons r removals ih => exact (ih _).trans (eraseIdx_sublist l r)

theorem map_foldl_eraseIdx {β : Type*} (f : α → β) (removals : List ℕ) (l : List α) :
    (removals.foldl eraseIdx l).map f = removals.foldl eraseIdx (l.map f) := by
  induction removals generalizing l with
  | nil => rfl
  | cons r removals ih => rw [foldl_cons, foldl_cons, ih, eraseIdx_map]

/-! ## The position of an element -/

section Identity

variable [BEq α] [LawfulBEq α]

theorem idxOf?_eq_some_iff_getElem? (nodup : l.Nodup) :
    l.idxOf? x = some i ↔ l[i]? = some x := by
  rw [idxOf?_eq_some_iff]
  constructor
  · rintro ⟨lt, same, -⟩
    rw [getElem?_eq_getElem lt, same]
  · intro here
    obtain ⟨lt, same⟩ := List.getElem?_eq_some_iff.1 here
    refine ⟨lt, same, fun j before same' => ?_⟩
    exact Nat.ne_of_lt before ((nodup.getElem_inj_iff).1 (same'.trans same.symm))

theorem idxOf?_append_of_not_mem (absent : x ∉ l') : (l ++ l').idxOf? x = l.idxOf? x := by
  induction l with
  | nil => rw [nil_append, idxOf?_eq_none_iff.2 absent, idxOf?_nil]
  | cons y l ih => rw [cons_append, idxOf?_cons, idxOf?_cons, ih]

theorem idxOf?_append_of_not_mem_left (absent : x ∉ l) :
    (l ++ l').idxOf? x = (l'.idxOf? x).map (· + l.length) := by
  induction l with
  | nil =>
    rw [nil_append, length_nil]
    exact Option.map_id'.symm
  | cons y l ih =>
    rw [mem_cons, not_or] at absent
    have other : ¬(y == x) = true := fun same => absent.1 (eq_of_beq same).symm
    rw [cons_append, idxOf?_cons, if_neg other, ih absent.2, Option.map_map]
    rfl

/-- The position after the element at `r` is gone. -/
def erased (r i : ℕ) : Option ℕ :=
  if r < i then some (i - 1) else if r = i then none else some i

theorem idxOf?_eraseIdx (nodup : l.Nodup) (r : ℕ) :
    (l.eraseIdx r).idxOf? x = (l.idxOf? x).bind (erased r) := by
  refine Option.ext fun j => ?_
  rw [idxOf?_eq_some_iff_getElem? (nodup.sublist (eraseIdx_sublist l r)), getElem?_eraseIdx,
    Option.bind_eq_some_iff]
  simp only [idxOf?_eq_some_iff_getElem? nodup]
  constructor
  · intro here
    split at here
    case isTrue lt =>
      refine ⟨j, here, ?_⟩
      rw [erased, if_neg (by omega), if_neg (by omega)]
    case isFalse ge =>
      refine ⟨j + 1, here, ?_⟩
      rw [erased, if_pos (by omega), Nat.add_sub_cancel]
  · rintro ⟨i, here, moved⟩
    unfold erased at moved
    split at moved
    · cases moved
      rw [if_neg (by omega), Nat.sub_add_cancel (by omega), here]
    · split at moved
      · cases moved
      · cases moved
        rw [if_pos (by omega), here]

theorem idxOf?_drop (nodup : l.Nodup) (n : ℕ) :
    (l.drop n).idxOf? x =
      (l.idxOf? x).bind fun i => if n ≤ i then some (i - n) else none := by
  refine Option.ext fun j => ?_
  rw [idxOf?_eq_some_iff_getElem? (nodup.sublist (drop_sublist n l)), getElem?_drop,
    Option.bind_eq_some_iff]
  simp only [idxOf?_eq_some_iff_getElem? nodup]
  constructor
  · intro here
    refine ⟨n + j, here, ?_⟩
    rw [if_pos (by omega), Nat.add_sub_cancel_left]
  · rintro ⟨i, here, moved⟩
    split at moved
    · cases moved
      rw [Nat.add_sub_cancel' ‹_›, here]
    · cases moved

end Identity

end Positions
