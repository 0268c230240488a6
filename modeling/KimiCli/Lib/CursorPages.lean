import Mathlib.Data.List.Nodup
import Mathlib.Order.Basic
import Mathlib.Tactic.Common

/-!
# Walks over pages

A list is read in pages.  A cursor is the key of an item and leaves some of the list, `rest`; a page
is the beginning of that.  A walk fetches a page, takes the next cursor from it, and goes on while
there is more.
-/

namespace CursorPages

variable {α κ : Type*}

structure Page (α : Type*) where
  items : List α
  hasMore : Bool

/-- The first `size` items of what is left. -/
def Page.of (size : ℕ) (rest : List α) : Page α := ⟨rest.take size, decide (rest.length > size)⟩

variable (key : α → κ) (fetch : Option κ → Page α) (turn : List α → Option α)

/-- The pages that are fetched from a cursor on, where `turn` is the item of a page whose key is the
next cursor. -/
inductive Walk : Option κ → List (Page α) → Prop
  | last {cursor : Option κ} (done : (fetch cursor).hasMore = false) : Walk cursor [fetch cursor]
  | more {cursor : Option κ} {item : α} {pages : List (Page α)}
      (more : (fetch cursor).hasMore = true) (found : turn (fetch cursor).items = some item)
      (walk : Walk (some (key item)) pages) : Walk cursor (fetch cursor :: pages)

/-- Every page says that there is more exactly when its cursor leaves something. -/
def Exact (rest : Option κ → List α) (pages : List (Page α)) : Prop :=
  ∀ page ∈ pages, page.hasMore = true ↔
    ∃ item, turn page.items = some item ∧ rest (some (key item)) ≠ []

/-- There is a walk, and what it visits and says is right. -/
def Visits (rest : Option κ → List α) (start : Option κ) (P : List α → Prop) : Prop :=
  ∃ pages, Walk key fetch turn start pages ∧ P (pages.flatMap Page.items) ∧
    Exact key turn rest pages

variable {key} {fetch} {turn} {items front back : List α} {size : ℕ}
  {rest rest' : Option κ → List α}
  {start : Option κ} {last : α}

theorem page_of_le (few : rest start = back) (short : back.length ≤ size) :
    Page.of size (rest start) = ⟨back, false⟩ := by
  rw [few, Page.of, List.take_of_length_le short, decide_eq_false (Nat.not_lt_of_le short)]

theorem page_of_lt (few : rest start = back) (long : size < back.length) :
    Page.of size (rest start) = ⟨back.take size, true⟩ := by
  rw [few, Page.of, decide_eq_true long]

theorem walk_unique {pages pages' : List (Page α)} (walk : Walk key fetch turn start pages)
    (walk' : Walk key fetch turn start pages') : pages = pages' := by
  induction walk generalizing pages' with
  | last done =>
    cases walk' with
    | last => rfl
    | more more => exact absurd (done.symm.trans more) Bool.false_ne_true
  | more more found _ ih =>
    cases walk' with
    | last done => exact absurd (done.symm.trans more) Bool.false_ne_true
    | more _ found' walk' =>
      cases Option.some.inj (found.symm.trans found')
      rw [ih walk']

/-! ## Downwards -/

/-- When a cursor leaves what comes after its item and is the last item of a page, the walk visits
all in order. -/
theorem visits_below (pos : 0 < size)
    (after : ∀ front item back, items = front ++ item :: back → rest (some (key item)) = back)
    (after' : ∀ front item back, items = front ++ item :: back → rest' (some (key item)) = back)
    (left : rest start = back) (suffix : back <:+ items) :
    Visits key (fun cursor => Page.of size (rest cursor)) List.getLast? rest' start (· = back) := by
  obtain ⟨n, length⟩ : ∃ n, back.length = n := ⟨_, rfl⟩
  induction n using Nat.strongRecOn generalizing start back with
  | ind n ih =>
    rcases Nat.lt_or_ge size back.length with long | short
    · have some' : back.take size ≠ [] := by
        rw [ne_eq, List.take_eq_nil_iff, not_or]
        refine ⟨Nat.ne_of_gt pos, fun none => ?_⟩
        rw [none] at long
        exact absurd long (Nat.not_lt_zero _)
      obtain ⟨init, item, first⟩ := List.eq_nil_or_concat (back.take size) |>.resolve_left some'
      rw [List.concat_eq_append] at first
      obtain ⟨next, next'⟩ : rest (some (key item)) = back.drop size ∧
          rest' (some (key item)) = back.drop size := by
        obtain ⟨front, whole⟩ := suffix
        have parts : init ++ item :: back.drop size = back := by
          rw [← List.singleton_append, ← List.append_assoc, ← first, List.take_append_drop]
        have place : items = front ++ init ++ item :: back.drop size := by
          rw [← whole, List.append_assoc, parts]
        exact ⟨after _ _ _ place, after' _ _ _ place⟩
      have shorter : (back.drop size).length < n := by
        rw [List.length_drop]
        omega
      obtain ⟨pages, walk, visited, exact'⟩ := ih _ shorter next
        ((List.drop_suffix size back).trans suffix) rfl
      have page := page_of_lt left long
      have turned : (Page.of size (rest start)).items.getLast? = some item := by
        rw [page, first, List.getLast?_concat]
      refine ⟨_, .more (by rw [page]) turned walk, ?_, ?_⟩
      · rw [List.flatMap_cons, visited, page, List.take_append_drop]
      · rw [Exact, List.forall_mem_cons]
        refine ⟨iff_of_true (by rw [page]) ⟨item, turned, ?_⟩, exact'⟩
        rw [next', ne_eq, List.drop_eq_nil_iff]
        exact Nat.not_le_of_lt long
    · have page := page_of_le left short
      refine ⟨_, .last (by rw [page]), ?_, ?_⟩
      · rw [List.flatMap_cons, List.flatMap_nil, List.append_nil, page]
      · rw [Exact, List.forall_mem_singleton, page]
        refine iff_of_false Bool.false_ne_true ?_
        rintro ⟨item, turned, more⟩
        obtain ⟨init, rfl⟩ := List.getLast?_eq_some_iff.1 turned
        obtain ⟨front, whole⟩ := suffix
        exact more (after' (front ++ init) item [] (by rw [← whole, List.append_assoc]))

/-! ## Upwards -/

/-- When a cursor leaves what comes before its item and is the first item of a page, the walk from
the last item visits the others exactly when they fit into one page. -/
theorem visits_above_iff (pos : 0 < size)
    (before : ∀ front item back, items = front ++ item :: back → rest (some (key item)) = front)
    (before' : ∀ front item back, items = front ++ item :: back → rest' (some (key item)) = front)
    (whole : items = front ++ [last]) :
    Visits key (fun cursor => Page.of size (rest cursor)) List.head? rest' (some (key last))
        (·.Perm front) ↔
      front.length ≤ size := by
  have left : rest (some (key last)) = front := before front last [] whole
  constructor
  · rintro ⟨pages, walk, visited, -⟩
    by_contra long
    have long : size < front.length := Nat.lt_of_not_le long
    have page := page_of_lt left long
    cases walk with
    | last done =>
      rw [page] at done
      cases done
    | @more _ item pages _ found walk =>
      rw [page] at found
      obtain ⟨first, others, rfl⟩ : ∃ first others, front = first :: others :=
        List.exists_cons_of_length_pos (Nat.lt_trans pos long)
      obtain ⟨m, rfl⟩ := Nat.exists_eq_succ_of_ne_zero (Nat.ne_of_gt pos)
      cases found
      have none : rest (some (key item)) = [] := before [] item (others ++ [last]) whole
      have empty : Page.of (m + 1) (rest (some (key item))) = ⟨[], false⟩ :=
        page_of_le none (Nat.zero_le _)
      cases walk with
      | last =>
        have lengths := visited.length_eq
        rw [List.flatMap_cons, List.flatMap_cons, List.flatMap_nil, page, empty, List.append_nil,
          List.append_nil, List.length_take_of_le (Nat.le_of_lt long)] at lengths
        exact Nat.ne_of_lt long lengths
      | more more =>
        rw [empty] at more
        cases more
  · intro short
    have page := page_of_le left short
    refine ⟨_, .last (by rw [page]), ?_, ?_⟩
    · rw [List.flatMap_cons, List.flatMap_nil, List.append_nil, page]
    · rw [Exact, List.forall_mem_singleton, page]
      refine iff_of_false Bool.false_ne_true ?_
      rintro ⟨item, turned, more⟩
      obtain ⟨others, rfl⟩ := List.head?_eq_some_iff.1 turned
      exact more (before' [] item (others ++ [last]) whole)

end CursorPages
