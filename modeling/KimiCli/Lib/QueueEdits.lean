import Mathlib.Data.List.Count
import Mathlib.Data.List.Nodup

/-!
# Elements cut out of a queue

A queue is a list that is edited at both ends.  Elements are cut out of it, other edits follow, and
the elements are put back in front.  `CutOut` compares the queue with what the same edits make of
one from which nothing was cut, and `putBack_eq_iff` says when putting back makes them equal.
-/

/-- What is done to a queue. -/
inductive QueueEdit (α : Type*)
  | push (a : α)
  | erase (a : α)
  | shift
  | cut (as : List α)
  | putBack (as : List α)
  | clear

namespace QueueEdit

variable {α : Type*} [DecidableEq α]

def apply (queue : List α) : QueueEdit α → List α
  | .push a => queue ++ [a]
  | .erase a => queue.erase a
  | .shift => queue.tail
  | .cut as => queue.filter (· ∉ as)
  | .putBack as => as.filter (· ∉ queue) ++ queue
  | .clear => []

/-- The edit puts none of the elements into the queue. -/
def Spares (as : List α) : QueueEdit α → Prop
  | .push a => a ∉ as
  | .putBack bs => ∀ b ∈ bs, b ∉ as
  | _ => True

variable {as queue rest : List α} {a : α} {edit : QueueEdit α}

theorem mem_apply (spares : edit.Spares as) (isOut : a ∈ as) (mem : a ∈ edit.apply queue) :
    a ∈ queue := by
  cases edit with
  | push =>
    rcases List.mem_append.1 mem with old | new
    · exact old
    · exact absurd isOut (List.mem_singleton.1 new ▸ spares)
  | erase => exact List.mem_of_mem_erase mem
  | shift => exact List.mem_of_mem_tail mem
  | cut => exact List.mem_of_mem_filter mem
  | putBack =>
    rcases List.mem_append.1 mem with new | old
    · exact absurd isOut (spares a (List.mem_of_mem_filter new))
    · exact old
  | clear => exact absurd mem List.not_mem_nil

theorem count_apply_le (spares : edit.Spares as) (isOut : a ∈ as) :
    (edit.apply queue).count a ≤ queue.count a := by
  cases edit with
  | push b =>
    have ne : ¬b = a := fun same => spares (same ▸ isOut)
    rw [apply, List.count_append, List.count_singleton, if_neg (by simpa using ne)]
    exact Nat.le_refl _
  | erase => exact List.erase_sublist.count_le a
  | shift => exact (List.tail_sublist queue).count_le a
  | cut => exact List.filter_sublist.count_le a
  | putBack bs =>
    have none : (bs.filter (· ∉ queue)).count a = 0 :=
      List.count_eq_zero.2 fun mem => spares a (List.mem_of_mem_filter mem) isOut
    rw [apply, List.count_append, none]
    exact Nat.le_of_eq (Nat.zero_add _)
  | clear => exact Nat.zero_le _

theorem apply_filter (spares : edit.Spares as)
    (others : edit = .shift → ∀ a ∈ queue.head?, a ∉ as) :
    edit.apply (queue.filter (· ∉ as)) = (edit.apply queue).filter (· ∉ as) := by
  cases edit with
  | push b =>
    have kept : [b].filter (· ∉ as) = [b] := List.filter_cons_of_pos (decide_eq_true spares)
    rw [apply, apply, List.filter_append, kept]
  | erase => exact (List.erase_filter ..)
  | shift =>
    cases queue with
    | nil => rfl
    | cons a =>
      have kept := others rfl a rfl
      rw [apply, apply, List.filter_cons_of_pos (by simpa using kept), List.tail_cons,
        List.tail_cons]
  | cut => exact List.filter_comm ..
  | putBack =>
    rw [apply, apply, List.filter_append, List.filter_filter]
    refine congrArg (· ++ _) (List.filter_congr fun b mem => ?_)
    simp [spares b mem]
  | clear => rfl

end QueueEdit

/-! ## Cutting out and putting back -/

variable {α : Type*} [DecidableEq α]

/-- `queue` is what edits made of a queue from which `as` were cut, `uncut` what the same edits made
of it with them. -/
structure CutOut (as queue uncut : List α) : Prop where
  out : ∀ a ∈ as, a ∉ queue
  once : ∀ a ∈ as, uncut.count a ≤ 1
  same : (∀ a ∈ as, a ∈ uncut) → queue = uncut.filter (· ∉ as)

namespace CutOut

variable {as queue uncut : List α} {edit : QueueEdit α}

theorem init (distinct : queue.Nodup) : CutOut as (queue.filter (· ∉ as)) queue where
  out _ mem inside := of_decide_eq_true (List.mem_filter.1 inside).2 mem
  once := fun a _ => List.nodup_iff_count_le_one.1 distinct a
  same _ := rfl

theorem apply (cutOut : CutOut as queue uncut) (spares : edit.Spares as) :
    CutOut as (edit.apply queue) (edit.apply uncut) where
  out a mem inside := cutOut.out a mem (QueueEdit.mem_apply spares mem inside)
  once a mem := Nat.le_trans (QueueEdit.count_apply_le spares mem) (cutOut.once a mem)
  same := by
    intro inside
    rw [cutOut.same fun a mem => QueueEdit.mem_apply spares mem (inside a mem)]
    refine QueueEdit.apply_filter spares fun isShift a head mem => ?_
    -- what is shifted was there once, and is gone
    subst isShift
    obtain ⟨rest, rfl⟩ := List.head?_eq_some_iff.1 head
    have once := cutOut.once a mem
    rw [List.count_cons_self] at once
    have gone : a ∈ rest := inside a mem
    have still := List.one_le_count_iff.2 gone
    omega

/-- Putting the elements back makes up for the cut exactly when the uncut queue starts with them. -/
theorem putBack_eq_iff (cutOut : CutOut as queue uncut) :
    QueueEdit.apply queue (.putBack as) = uncut ↔ as <+: uncut := by
  have all : as.filter (· ∉ queue) = as :=
    List.filter_eq_self.2 fun a mem => decide_eq_true (cutOut.out a mem)
  rw [QueueEdit.apply, all]
  constructor
  · intro same
    exact ⟨queue, same⟩
  · rintro ⟨rest, rfl⟩
    have none : ∀ a ∈ rest, a ∉ as := by
      intro a mem inside
      have once := cutOut.once a inside
      have left := List.one_le_count_iff.2 inside
      have right := List.one_le_count_iff.2 mem
      rw [List.count_append] at once
      omega
    rw [cutOut.same fun a mem => List.mem_append_left _ mem, List.filter_append,
      List.filter_eq_nil_iff.2 fun a mem => by simpa using mem, List.nil_append,
      List.filter_eq_self.2 fun a mem => decide_eq_true (none a mem)]

end CutOut
