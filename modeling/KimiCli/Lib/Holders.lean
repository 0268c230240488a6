import Mathlib.Data.List.Basic

/-!
# Structures that hold references

A shape `F` of values that hold references of some type, which can be listed and replaced.  What a
value says is the shape with each reference replaced by what it refers to.
-/

structure Holder (F : Type → Type) where
  map : ∀ {μ ν : Type}, (μ → ν) → F μ → F ν
  held : ∀ {μ : Type}, F μ → List μ
  map_congr : ∀ {μ ν : Type} {f g : μ → ν} {x : F μ}, (∀ m ∈ held x, f m = g m) → map f x = map g x
  map_map : ∀ {μ ν ρ : Type} (g : ν → ρ) (f : μ → ν) (x : F μ), map g (map f x) = map (g ∘ f) x
  held_map : ∀ {μ ν : Type} (f : μ → ν) (x : F μ), held (map f x) = (held x).map f

namespace Holder

variable {F : Type → Type} (H : Holder F)

def list : Holder fun μ => List (F μ) where
  map f := List.map (H.map f)
  held xs := xs.flatMap H.held
  map_congr same := List.map_congr_left fun x mem => H.map_congr fun m inside =>
    same m (List.mem_flatMap.2 ⟨x, mem, inside⟩)
  map_map g f xs := by
    rw [List.map_map]
    exact List.map_congr_left fun x _ => H.map_map g f x
  held_map f xs := by
    induction xs with
    | nil => rfl
    | cons x xs ih =>
      rw [List.map_cons, List.flatMap_cons, H.held_map, ih, List.flatMap_cons, List.map_append]

theorem held_list_cons {μ : Type} (x : F μ) (xs : List (F μ)) :
    H.list.held (x :: xs) = H.held x ++ H.list.held xs := List.flatMap_cons ..

end Holder

/-! ## Copies on change -/

variable {σ α : Type}

/-- A list is copied when `f` gives one of its elements anew, and else kept. -/
def mapChanged (f : σ → α → Option α × σ) (s : σ) : List α → Option (List α) × σ
  | [] => (none, s)
  | a :: as =>
    let (next, s) := f s a
    let (rest, s) := mapChanged f s as
    (if next.isNone ∧ rest.isNone then none else some (next.getD a :: rest.getD as), s)

theorem mapChanged_getD (f : σ → α → Option α × σ) (s : σ) (a : α) (as : List α) :
    (mapChanged f s (a :: as)).1.getD (a :: as) =
      (f s a).1.getD a :: (mapChanged f (f s a).2 as).1.getD as := by
  rw [mapChanged]
  dsimp only
  split
  case isTrue same =>
    rw [Option.isNone_iff_eq_none.1 same.1, Option.isNone_iff_eq_none.1 same.2]
    rfl
  case isFalse => rfl

theorem mapChanged_eq_none {f : σ → α → Option α × σ} {s : σ} {a : α} {as : List α}
    (first : (f s a).1 = none) (rest : (mapChanged f (f s a).2 as).1 = none) :
    (mapChanged f s (a :: as)).1 = none := by
  rw [mapChanged]
  exact if_pos ⟨by rw [first]; rfl, by rw [rest]; rfl⟩
