import Mathlib.Data.List.Basic
import Mathlib.Data.List.Perm.Basic

/-!
# Calls and answers in a list

Items that open calls and items that answer them.  An exchange is closed when every call an item
opens is answered by a later item.  `Holding` is a reader that keeps items back while an exchange is
open: it ends with nothing waiting exactly on a closed list, and then it has passed on every item.
-/

namespace Exchange

variable {α κ : Type*} (opens answers : α → List κ)

/-- Every call is answered by a later item. -/
def Closed : List α → Prop
  | [] => True
  | x :: xs => (∀ k ∈ opens x, k ∈ xs.flatMap answers) ∧ Closed xs

theorem closed_append_silent {xs ys : List α} (silent : ∀ x ∈ xs, opens x = []) :
    Closed opens answers (xs ++ ys) ↔ Closed opens answers ys := by
  induction xs with
  | nil => rfl
  | cons x xs ih =>
    obtain ⟨head, tail⟩ := List.forall_mem_cons.1 silent
    rw [List.cons_append, Closed, head, ih tail]
    simp

/-! ## A reader that holds items back -/

structure Holding (α κ : Type*) where
  waiting : List κ := []
  held : List α := []
  delivered : List α := []

namespace Holding

/-- Once nothing is waited for, what was held is passed on. -/
def release (reader : Holding α κ) : Holding α κ :=
  if reader.waiting = [] then
    { reader with held := [], delivered := reader.delivered ++ reader.held }
  else reader

theorem release_waiting (reader : Holding α κ) : reader.release.waiting = reader.waiting := by
  unfold release
  split <;> rfl

theorem release_perm (reader : Holding α κ) :
    (reader.release.delivered ++ reader.release.held).Perm (reader.delivered ++ reader.held) := by
  unfold release
  split
  · rw [List.append_nil]
  · exact .refl _

theorem release_held {reader : Holding α κ} (idle : reader.release.waiting = []) :
    reader.release.held = [] := by
  rw [release_waiting] at idle
  rw [release, if_pos idle]

end Holding

/-! ## What is answered -/

variable [DecidableEq κ]

instance decidableClosed : (xs : List α) → Decidable (Closed opens answers xs)
  | [] => isTrue trivial
  | _ :: xs => @instDecidableAnd _ _ inferInstance (decidableClosed xs)

/-- The calls that no later item answers. -/
def unanswered : List α → List κ
  | [] => []
  | x :: xs => (opens x).filter (· ∉ xs.flatMap answers) ++ unanswered xs

theorem closed_iff_unanswered (xs : List α) :
    Closed opens answers xs ↔ unanswered opens answers xs = [] := by
  induction xs with
  | nil => simp [Closed, unanswered]
  | cons x xs ih =>
    rw [Closed, unanswered, List.append_eq_nil_iff, ih, List.filter_eq_nil_iff]
    simp

namespace Holding

/-- An item passes when nothing is waited for or it answers what is; others are held. -/
def receive (reader : Holding α κ) (x : α) : Holding α κ :=
  let waiting := reader.waiting.filter (· ∉ answers x) ++ opens x
  if reader.waiting = [] ∨ ∃ k ∈ answers x, k ∈ reader.waiting then
    release { reader with waiting := waiting, delivered := reader.delivered ++ [x] }
  else release { reader with waiting := waiting, held := reader.held ++ [x] }

def receiveAll (reader : Holding α κ) (xs : List α) : Holding α κ :=
  xs.foldl (receive opens answers) reader

theorem receive_waiting (reader : Holding α κ) (x : α) :
    (reader.receive opens answers x).waiting =
      reader.waiting.filter (· ∉ answers x) ++ opens x := by
  simp only [receive]
  split <;> rw [release_waiting]

theorem receive_held {reader : Holding α κ} {x : α}
    (idle : (reader.receive opens answers x).waiting = []) :
    (reader.receive opens answers x).held = [] := by
  revert idle
  simp only [receive]
  split <;> exact release_held

theorem receive_perm (reader : Holding α κ) (x : α) :
    ((reader.receive opens answers x).delivered ++ (reader.receive opens answers x).held).Perm
      (reader.delivered ++ reader.held ++ [x]) := by
  simp only [receive]
  split
  · refine (release_perm _).trans ?_
    show (reader.delivered ++ [x] ++ reader.held).Perm _
    rw [List.append_assoc, List.append_assoc]
    exact List.perm_append_comm.append_left _
  · refine (release_perm _).trans ?_
    show (reader.delivered ++ (reader.held ++ [x])).Perm _
    rw [List.append_assoc]

theorem receiveAll_waiting (xs : List α) (reader : Holding α κ) :
    (reader.receiveAll opens answers xs).waiting =
      reader.waiting.filter (· ∉ xs.flatMap answers) ++ unanswered opens answers xs := by
  induction xs generalizing reader with
  | nil => simp [receiveAll, unanswered]
  | cons x xs ih =>
    show ((reader.receive opens answers x).receiveAll opens answers xs).waiting = _
    rw [ih, receive_waiting, unanswered, List.filter_append, List.filter_filter, List.append_assoc]
    congr 1
    apply List.filter_congr
    intro k _
    simp [Bool.and_comm]

theorem receiveAll_perm (xs : List α) (reader : Holding α κ) :
    ((reader.receiveAll opens answers xs).delivered ++
      (reader.receiveAll opens answers xs).held).Perm (reader.delivered ++ reader.held ++ xs) := by
  induction xs generalizing reader with
  | nil => simp [receiveAll]
  | cons x xs ih =>
    refine (ih _).trans (((receive_perm opens answers reader x).append_right xs).trans ?_)
    rw [List.append_assoc _ [x] xs, List.singleton_append]

theorem receiveAll_held (xs : List α) {reader : Holding α κ} (empty : reader.held = [])
    (idle : (reader.receiveAll opens answers xs).waiting = []) :
    (reader.receiveAll opens answers xs).held = [] := by
  rcases List.eq_nil_or_concat xs with rfl | ⟨xs, x, rfl⟩
  · exact empty
  · rw [List.concat_eq_append, receiveAll, List.foldl_append] at idle ⊢
    exact receive_held opens answers idle

theorem receiveAll_closed {xs : List α} (closed : Closed opens answers xs) :
    (receiveAll opens answers {} xs).held = [] ∧
      (receiveAll opens answers {} xs).delivered.Perm xs := by
  have idle : (receiveAll opens answers {} xs).waiting = [] := by
    rw [receiveAll_waiting, (closed_iff_unanswered opens answers xs).1 closed]
    rfl
  have held := receiveAll_held opens answers xs rfl idle
  refine ⟨held, ?_⟩
  have perm := receiveAll_perm opens answers xs {}
  rw [held, List.append_nil] at perm
  exact perm

end Holding

end Exchange
