import Mathlib.Data.List.Chain
import Mathlib.Data.List.Forall2

/-!
# Merging neighbours

A list is read from the left, and an item is merged into the last one of the output when both are
mergeable.  The output holds one item for each run of the input, in their order.
-/

namespace MergeRuns

variable {α β : Type*} (mergeable : α → Bool) (merge : α → α → α) (prepare : β → α)

def push (out : List α) (x : α) : List α :=
  match out.getLast? with
  | some previous =>
    if mergeable x && mergeable previous then out.dropLast ++ [merge previous x] else out ++ [x]
  | none => out ++ [x]

def mergeAll (xs : List β) : List α :=
  xs.foldl (fun out x => push mergeable merge out (prepare x)) []

/-- The groups into which neighbours are merged: an item alone, or a longest run of mergeable
ones. -/
structure Runs (groups : List (List β)) : Prop where
  nonempty : [] ∉ groups
  kind : ∀ group ∈ groups, (∃ x, group = [x]) ∨ ∀ x ∈ group, mergeable (prepare x) = true
  apart : groups.IsChain fun group next =>
    ¬((∀ x ∈ group, mergeable (prepare x) = true) ∧ ∀ x ∈ next, mergeable (prepare x) = true)

/-- The items of a group merged from the left. -/
inductive Merged : List β → α → Prop
  | single (x : β) : Merged [x] (prepare x)
  | snoc {group : List β} {y : α} (x : β) : Merged group y →
    Merged (group ++ [x]) (merge y (prepare x))

variable {mergeable merge prepare} {groups : List (List β)} {group : List β} {x : β} {y : α}

theorem Merged.nonempty (merged : Merged merge prepare group y) : group ≠ [] := by
  cases merged with
  | single => exact List.cons_ne_nil _ _
  | snoc => exact List.concat_ne_nil _ _

theorem Merged.eq_of_single (merged : Merged merge prepare [x] y) : y = prepare x := by
  generalize group : [x] = xs at merged
  cases merged with
  | single =>
    cases group
    rfl
  | snoc z before =>
    have short := congrArg List.length group
    rw [List.length_append, List.length_singleton, List.length_singleton] at short
    have zero : _ = 0 := Nat.succ.inj short.symm
    exact absurd (List.length_eq_zero_iff.1 zero) before.nonempty

theorem Merged.keeps (keeps : ∀ a b, mergeable a = true → mergeable b = true →
      mergeable (merge a b) = true) (merged : Merged merge prepare group y)
    (all : ∀ x ∈ group, mergeable (prepare x) = true) : mergeable y = true := by
  induction merged with
  | single x => exact all x (List.mem_singleton_self x)
  | snoc x _ ih =>
    exact keeps _ _ (ih fun z mem => all z (List.mem_append_left _ mem))
      (all x (List.mem_append_right _ (List.mem_singleton_self x)))

theorem Runs.single (runs : Runs mergeable prepare groups)
    (apart : ∀ group ∈ groups.getLast?, ¬((∀ x ∈ group, mergeable (prepare x) = true) ∧
      mergeable (prepare x) = true)) : Runs mergeable prepare (groups ++ [[x]]) where
  nonempty := by simpa using runs.nonempty
  kind group mem := by
    rcases List.mem_append.1 mem with old | new
    · exact runs.kind group old
    · exact .inl ⟨x, List.mem_singleton.1 new⟩
  apart := by
    refine runs.apart.append (List.isChain_singleton _) fun last isLast next isNext both => ?_
    cases isNext
    exact apart last isLast ⟨both.1, both.2 x (List.mem_singleton_self x)⟩

theorem Runs.extend (runs : Runs mergeable prepare (groups ++ [group]))
    (all : ∀ x ∈ group, mergeable (prepare x) = true) (last : mergeable (prepare x) = true) :
    Runs mergeable prepare (groups ++ [group ++ [x]]) where
  nonempty mem := by
    rcases List.mem_append.1 mem with old | new
    · exact runs.nonempty (List.mem_append_left _ old)
    · exact List.concat_ne_nil _ _ (List.mem_singleton.1 new).symm
  kind other mem := by
    rcases List.mem_append.1 mem with old | new
    · exact runs.kind other (List.mem_append_left _ old)
    · rw [List.mem_singleton.1 new]
      refine .inr fun z inside => ?_
      rcases List.mem_append.1 inside with old | isLast
      · exact all z old
      · rwa [List.mem_singleton.1 isLast]
  apart := by
    obtain ⟨chain, -, apart⟩ := List.isChain_append.1 runs.apart
    refine chain.append (List.isChain_singleton _) fun before isBefore next isNext both => ?_
    cases isNext
    exact apart before isBefore group rfl ⟨both.1, all⟩

theorem forall₂_append_right {R : β → α → Prop} {xs : List β} {ys zs : List α}
    (related : List.Forall₂ R xs (ys ++ zs)) : ∃ before after, List.Forall₂ R before ys ∧
      List.Forall₂ R after zs ∧ before ++ after = xs :=
  ⟨_, _, List.forall₂_take_append xs ys zs related, List.forall₂_drop_append xs ys zs related,
    List.take_append_drop _ xs⟩

/-- The output is the runs of the input, each merged into one item. -/
theorem mergeAll_runs (prepare : β → α) (keeps : ∀ a b, mergeable a = true → mergeable b = true →
    mergeable (merge a b) = true) (xs : List β) : ∃ groups, groups.flatten = xs ∧
      Runs mergeable prepare groups ∧
      List.Forall₂ (Merged merge prepare) groups (mergeAll mergeable merge prepare xs) := by
  induction xs using List.reverseRecOn with
  | nil => exact ⟨[], rfl, ⟨List.not_mem_nil, nofun, .nil⟩, .nil⟩
  | append_singleton xs x ih =>
    obtain ⟨groups, flatten, runs, merged⟩ := ih
    have read : mergeAll mergeable merge prepare (xs ++ [x]) =
        push mergeable merge (mergeAll mergeable merge prepare xs) (prepare x) := by
      rw [mergeAll, List.foldl_append]
      rfl
    rw [read, push]
    -- the last run and the last item of the output
    rcases List.eq_nil_or_concat (mergeAll mergeable merge prepare xs) with none | ⟨out, last, some⟩
    · rw [none] at merged ⊢
      cases merged
      refine ⟨[[x]], ?_, runs.single nofun, .cons (.single x) .nil⟩
      rw [← flatten]
      rfl
    · rw [List.concat_eq_append] at some
      rw [some] at merged ⊢
      obtain ⟨before, lasts, isBefore, isLast, rfl⟩ := forall₂_append_right merged
      obtain ⟨group, isMerged, rfl⟩ : ∃ group, Merged merge prepare group last ∧
          lasts = [group] := by
        cases isLast with
        | cons isMerged rest =>
          cases rest
          exact ⟨_, isMerged, rfl⟩
      rw [List.getLast?_concat, List.dropLast_concat]
      dsimp only
      split
      case isTrue both =>
        obtain ⟨isNext, isPrevious⟩ := Bool.and_eq_true_iff.1 both
        have all : ∀ z ∈ group, mergeable (prepare z) = true := by
          rcases runs.kind group (List.mem_append_right _ (List.mem_singleton_self _)) with
            ⟨z, rfl⟩ | all
          · rw [isMerged.eq_of_single] at isPrevious
            exact fun z' mem => List.mem_singleton.1 mem ▸ isPrevious
          · exact all
        refine ⟨before ++ [group ++ [x]], ?_, runs.extend all isNext, ?_⟩
        · rw [← flatten]
          simp
        · exact List.rel_append isBefore (.cons (.snoc x isMerged) .nil)
      case isFalse apart =>
        refine ⟨before ++ [group] ++ [[x]], ?_, runs.single fun other isOther both => ?_, ?_⟩
        · rw [← flatten]
          simp
        · rw [List.getLast?_concat] at isOther
          cases isOther
          exact apart (Bool.and_eq_true_iff.2 ⟨both.2, isMerged.keeps keeps both.1⟩)
        · exact List.rel_append merged (.cons (.single x) .nil)

theorem Runs.alone (runs : Runs mergeable prepare groups) {rest : List β}
    (other : mergeable (prepare x) = false) (flatten : groups.flatten = x :: rest) :
    ∃ groups', groups = [x] :: groups' ∧ groups'.flatten = rest ∧
      Runs mergeable prepare groups' := by
  cases groups with
  | nil => cases flatten
  | cons group groups =>
    have inside : group ∈ group :: groups := List.mem_cons_self
    cases group with
    | nil => exact absurd inside runs.nonempty
    | cons y =>
      obtain ⟨rfl, rest'⟩ := List.cons.inj flatten
      rcases runs.kind _ inside with ⟨z, same⟩ | all
      · obtain ⟨rfl, rfl⟩ := List.cons.inj same
        refine ⟨groups, rfl, rest', ⟨fun mem => ?_, fun other mem => ?_, runs.apart.tail⟩⟩
        · exact runs.nonempty (List.mem_cons_of_mem _ mem)
        · exact runs.kind other (List.mem_cons_of_mem _ mem)
      · rw [all y List.mem_cons_self] at other
        cases other

theorem Runs.of_append (before : List (List β)) (runs : Runs mergeable prepare (before ++ groups)) :
    Runs mergeable prepare groups where
  nonempty mem := runs.nonempty (List.mem_append_right _ mem)
  kind group mem := runs.kind group (List.mem_append_right _ mem)
  apart := runs.apart.right_of_append

theorem Runs.allAlone (runs : Runs mergeable prepare groups) {xs rest : List β}
    (others : ∀ x ∈ xs, mergeable (prepare x) = false) (flatten : groups.flatten = xs ++ rest) :
    ∃ groups', groups = xs.map ([·]) ++ groups' ∧ groups'.flatten = rest := by
  induction xs generalizing groups with
  | nil => exact ⟨groups, rfl, flatten⟩
  | cons x xs ih =>
    obtain ⟨other, others⟩ := List.forall_mem_cons.1 others
    obtain ⟨groups', rfl, flatten', runs'⟩ := runs.alone other flatten
    obtain ⟨groups'', rfl, flatten''⟩ := ih runs' others flatten'
    exact ⟨groups'', rfl, flatten''⟩

theorem merged_allAlone {xs : List β} {ys : List α}
    (merged : List.Forall₂ (Merged merge prepare) (xs.map ([·]) ++ groups) ys) :
    ∃ rest, ys = xs.map prepare ++ rest := by
  induction xs generalizing ys with
  | nil => exact ⟨ys, rfl⟩
  | cons x xs ih =>
    cases merged with
    | cons first others =>
      obtain ⟨rest, rfl⟩ := ih others
      exact ⟨rest, by rw [first.eq_of_single]; rfl⟩

end MergeRuns
