import KimiCli.Lib.OrderedMap
import Mathlib.Logic.Function.Basic

/-!
# Reference counts of watched paths

`PathReferenceCollection` adds a path to its watcher with the first reference to it and takes it
off with the last.  The watcher is the list of the calls that it gets.
-/

namespace KimiCli.Fs

inductive WatcherCall
  | add (path : String)
  | unwatch (path : String)
  | close

/-- What a watcher holds after a call; a path that is added twice is held twice. -/
def WatcherCall.apply (held : List String) : WatcherCall → List String
  | .add path => held ++ [path]
  | .unwatch path => held.filter (· ≠ path)
  | .close => []

structure PathReferenceCollection where
  /-- The counters of the objects that are referenced. -/
  references : OrderedMap String ℕ := ∅
  activePaths : List String := []
  watcher : List WatcherCall := []

namespace PathReferenceCollection

variable (c : PathReferenceCollection)

/-- The paths that the underlying watcher holds. -/
def held : List String := c.watcher.foldl WatcherCall.apply []

def size : ℕ := c.activePaths.length

def createReferencedObject (absPath : String) : PathReferenceCollection :=
  { c with
    watcher := c.watcher ++ [.add absPath]
    activePaths := c.activePaths.insert absPath }

def destroyReferencedObject (absPath : String) : PathReferenceCollection :=
  { c with
    activePaths := c.activePaths.filter (· ≠ absPath)
    watcher := c.watcher ++ [.unwatch absPath] }

def acquire (key : String) : PathReferenceCollection :=
  match c.references.get key with
  | some counter => { c with references := c.references.set key (counter + 1) }
  | none => { c.createReferencedObject key with references := c.references.set key 1 }

/-- The `dispose` of a reference to `key`. -/
def release (key : String) : PathReferenceCollection :=
  match c.references.get key with
  | some counter =>
    if counter - 1 = 0 then
      { c.destroyReferencedObject key with references := c.references.delete key }
    else { c with references := c.references.set key (counter - 1) }
  | none => c

/-- A path is held, once, while its number of references is not 0. -/
structure Counts (c : PathReferenceCollection) (count : String → ℕ) : Prop where
  references : ∀ p, c.references.get p = if count p = 0 then none else some (count p)
  activeNodup : c.activePaths.Nodup
  active : ∀ p, p ∈ c.activePaths ↔ count p ≠ 0
  heldNodup : c.held.Nodup
  held : ∀ p, p ∈ c.held ↔ count p ≠ 0

variable {c} {count : String → ℕ} {path : String}

theorem counts_init : Counts {} fun _ => 0 := by
  constructor <;> simp [PathReferenceCollection.held]

theorem held_concat (call : WatcherCall) :
    (c.watcher ++ [call]).foldl WatcherCall.apply [] = call.apply c.held := by
  rw [List.foldl_append, List.foldl_cons, List.foldl_nil]
  rfl

theorem Counts.acquire (counts : Counts c count) (path : String) :
    Counts (c.acquire path) (Function.update count path (count path + 1)) := by
  have reference := counts.references path
  rw [PathReferenceCollection.acquire]
  by_cases free : count path = 0
  · rw [if_pos free] at reference
    have notActive : path ∉ c.activePaths := fun mem => (counts.active path).1 mem free
    have notHeld : path ∉ c.held := fun mem => (counts.held path).1 mem free
    rw [reference]
    refine ⟨fun p => ?_, counts.activeNodup.insert, fun p => ?_, ?_, fun p => ?_⟩
    · by_cases same : p = path
      · subst same
        rw [OrderedMap.get_set_self, Function.update_self, free]
        rfl
      · rw [OrderedMap.get_set_ne _ _ same, Function.update_of_ne same, counts.references]
    · by_cases same : p = path
      · subst same
        simp [createReferencedObject]
      · simp [createReferencedObject, same, counts.active]
    · change ((c.watcher ++ [WatcherCall.add path]).foldl WatcherCall.apply []).Nodup
      rw [held_concat]
      exact counts.heldNodup.append (List.nodup_singleton path)
        (List.disjoint_singleton.2 notHeld)
    · change p ∈ (c.watcher ++ [WatcherCall.add path]).foldl WatcherCall.apply [] ↔ _
      rw [held_concat]
      by_cases same : p = path
      · subst same
        simp [WatcherCall.apply]
      · simp [WatcherCall.apply, same, counts.held]
  · rw [if_neg free] at reference
    rw [reference]
    have positive : ∀ p, Function.update count path (count path + 1) p ≠ 0 ↔ count p ≠ 0 := by
      intro p
      by_cases same : p = path
      · subst same
        simp [free]
      · rw [Function.update_of_ne same]
    refine ⟨fun p => ?_, counts.activeNodup, fun p => ?_, counts.heldNodup, fun p => ?_⟩
    · by_cases same : p = path
      · subst same
        rw [OrderedMap.get_set_self, Function.update_self]
        rfl
      · rw [OrderedMap.get_set_ne _ _ same, Function.update_of_ne same, counts.references]
    · rw [positive]
      exact counts.active p
    · rw [positive]
      exact counts.held p

theorem Counts.release (counts : Counts c count) (referenced : count path ≠ 0) :
    Counts (c.release path) (Function.update count path (count path - 1)) := by
  have reference := counts.references path
  rw [if_neg referenced] at reference
  rw [PathReferenceCollection.release, reference]
  dsimp only
  split
  case isTrue last =>
    refine ⟨fun p => ?_, counts.activeNodup.filter _, fun p => ?_, ?_, fun p => ?_⟩
    · by_cases same : p = path
      · subst same
        rw [OrderedMap.get_delete_self, Function.update_self, if_pos last]
      · rw [OrderedMap.get_delete_ne _ same, Function.update_of_ne same, counts.references]
    · by_cases same : p = path
      · subst same
        simp [destroyReferencedObject, last]
      · simp [destroyReferencedObject, same, counts.active]
    · change ((c.watcher ++ [WatcherCall.unwatch path]).foldl WatcherCall.apply []).Nodup
      rw [held_concat]
      exact counts.heldNodup.filter _
    · change p ∈ (c.watcher ++ [WatcherCall.unwatch path]).foldl WatcherCall.apply [] ↔ _
      rw [held_concat]
      by_cases same : p = path
      · subst same
        simp [WatcherCall.apply, last]
      · simp [WatcherCall.apply, same, counts.held]
  case isFalse more =>
    have positive : ∀ p, Function.update count path (count path - 1) p ≠ 0 ↔ count p ≠ 0 := by
      intro p
      by_cases same : p = path
      · subst same
        rw [Function.update_self]
        exact iff_of_true more referenced
      · rw [Function.update_of_ne same]
    refine ⟨fun p => ?_, counts.activeNodup, fun p => ?_, counts.heldNodup, fun p => ?_⟩
    · by_cases same : p = path
      · subst same
        rw [OrderedMap.get_set_self, Function.update_self, if_neg more]
      · rw [OrderedMap.get_set_ne _ _ same, Function.update_of_ne same, counts.references]
    · rw [positive]
      exact counts.active p
    · rw [positive]
      exact counts.held p

end PathReferenceCollection

end KimiCli.Fs
