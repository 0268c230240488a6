import Mathlib.Data.List.Nodup
import Mathlib.Tactic.Common

/-!
# Maps in the order of insertion

A finite map as the list of its entries, in the order in which their keys were first set.  Setting
a key that is there keeps its place.  No key occurs twice, so that the entries and the lookups say
the same (`mem_entries`).
-/

structure OrderedMap (α β : Type*) where
  entries : List (α × β)
  nodup : (entries.map Prod.fst).Nodup

namespace OrderedMap

variable {α β : Type*}

def empty : OrderedMap α β := ⟨[], List.nodup_nil⟩

instance : EmptyCollection (OrderedMap α β) := ⟨empty⟩

instance : Inhabited (OrderedMap α β) := ⟨empty⟩

@[ext] theorem ext {m m' : OrderedMap α β} (same : m.entries = m'.entries) : m = m' := by
  cases m
  cases m'
  cases same
  rfl

def keys (m : OrderedMap α β) : List α := m.entries.map Prod.fst

variable [DecidableEq α]

instance [DecidableEq β] : DecidableEq (OrderedMap α β) := fun m m' =>
  decidable_of_iff (m.entries = m'.entries) ⟨ext, congrArg entries⟩

def get (m : OrderedMap α β) (k : α) : Option β :=
  (m.entries.find? fun entry => entry.1 = k).map Prod.snd

def delete (m : OrderedMap α β) (k : α) : OrderedMap α β where
  entries := m.entries.filter fun entry => entry.1 ≠ k
  nodup := m.nodup.sublist (List.filter_sublist.map _)

theorem map_replace (entries : List (α × β)) (k : α) (v : β) :
    (entries.map fun entry => if entry.1 = k then (k, v) else entry).map Prod.fst =
      entries.map Prod.fst := by
  rw [List.map_map]
  refine List.map_congr_left fun entry _ => ?_
  rw [Function.comp_apply]
  split
  case isTrue same => exact same.symm
  case isFalse => rfl

def set (m : OrderedMap α β) (k : α) (v : β) : OrderedMap α β :=
  if inside : k ∈ m.keys then
    { entries := m.entries.map fun entry => if entry.1 = k then (k, v) else entry
      nodup := by
        rw [map_replace]
        exact m.nodup }
  else
    { entries := m.entries ++ [(k, v)]
      nodup := by
        rw [List.map_append]
        exact m.nodup.append (List.nodup_singleton k)
          (List.disjoint_singleton.2 inside) }

variable {m : OrderedMap α β} {k k' : α} {v v' : β}

omit [DecidableEq α] in
theorem eq_of_mem (mem : (k, v) ∈ m.entries) (mem' : (k, v') ∈ m.entries) : v = v' := by
  have same := List.inj_on_of_nodup_map m.nodup mem mem' rfl
  exact congrArg Prod.snd same

theorem mem_entries : (k, v) ∈ m.entries ↔ m.get k = some v := by
  rw [get, Option.map_eq_some_iff]
  constructor
  · intro mem
    cases found : m.entries.find? fun entry => entry.1 = k with
    | none => exact absurd (by simp) (List.find?_eq_none.1 found (k, v) mem)
    | some entry =>
      have inside := List.mem_of_find?_eq_some found
      have key : entry.1 = k := by simpa using List.find?_some found
      obtain ⟨k', v'⟩ := entry
      cases key
      exact ⟨(k', v'), rfl, eq_of_mem inside mem⟩
  · rintro ⟨entry, found, rfl⟩
    have key : entry.1 = k := by simpa using List.find?_some found
    rw [← key]
    exact List.mem_of_find?_eq_some found

theorem mem_keys : k ∈ m.keys ↔ ∃ v, m.get k = some v := by
  rw [keys, List.mem_map]
  constructor
  · rintro ⟨⟨k', v⟩, mem, rfl⟩
    exact ⟨v, mem_entries.1 mem⟩
  · rintro ⟨v, found⟩
    exact ⟨(k, v), mem_entries.2 found, rfl⟩

@[simp] theorem get_empty : (∅ : OrderedMap α β).get k = none := rfl

theorem mem_entries_set :
    (k', v') ∈ (m.set k v).entries ↔ k' = k ∧ v' = v ∨ k' ≠ k ∧ (k', v') ∈ m.entries := by
  rw [set]
  split
  case isTrue inside =>
    rw [List.mem_map]
    constructor
    · rintro ⟨entry, mem, same⟩
      split at same
      case isTrue =>
        cases same
        exact .inl ⟨rfl, rfl⟩
      case isFalse other =>
        cases same
        exact .inr ⟨other, mem⟩
    · rintro (⟨rfl, rfl⟩ | ⟨other, mem⟩)
      · obtain ⟨entry, mem, key⟩ := List.mem_map.1 inside
        exact ⟨entry, mem, if_pos key⟩
      · exact ⟨(k', v'), mem, if_neg other⟩
  case isFalse outside =>
    rw [List.mem_append, List.mem_singleton, Prod.mk.injEq]
    constructor
    · rintro (mem | same)
      · refine .inr ⟨?_, mem⟩
        rintro rfl
        exact outside (List.mem_map_of_mem mem)
      · exact .inl same
    · rintro (same | ⟨-, mem⟩)
      · exact .inr same
      · exact .inl mem

theorem entries_set_of_not_mem (fresh : k ∉ m.keys) :
    (m.set k v).entries = m.entries ++ [(k, v)] := by
  rw [set, dif_neg fresh]

theorem entries_foldl_set {entries : List (α × β)}
    (distinct : (m.entries ++ entries |>.map Prod.fst).Nodup) :
    (entries.foldl (fun map e => map.set e.1 e.2) m).entries = m.entries ++ entries := by
  induction entries generalizing m with
  | nil => exact (List.append_nil _).symm
  | cons e entries ih =>
    have fresh : e.1 ∉ m.keys := by
      rw [List.map_append, List.map_cons] at distinct
      exact fun mem => (List.nodup_append.1 distinct).2.2 _ mem _ List.mem_cons_self rfl
    have appended := entries_set_of_not_mem (v := e.2) fresh
    rw [List.foldl_cons, ih, appended, List.append_assoc]
    · rfl
    · rw [appended, List.append_assoc]
      exact distinct

@[simp] theorem get_set_self (m : OrderedMap α β) (k : α) (v : β) : (m.set k v).get k = some v :=
  mem_entries.1 (mem_entries_set.2 (.inl ⟨rfl, rfl⟩))

theorem get_set_ne (m : OrderedMap α β) (v : β) (ne : k' ≠ k) :
    (m.set k v).get k' = m.get k' := by
  refine Option.ext fun w => ?_
  rw [← mem_entries, mem_entries_set, ← mem_entries]
  constructor
  · rintro (⟨same, -⟩ | ⟨-, mem⟩)
    · exact absurd same ne
    · exact mem
  · exact fun mem => .inr ⟨ne, mem⟩

theorem set_of_get (found : m.get k = some v) : m.set k v = m := by
  have mem := mem_entries.2 found
  rw [set, dif_pos (mem_keys.2 ⟨v, found⟩)]
  refine ext ?_
  conv_rhs => rw [← List.map_id m.entries]
  refine List.map_congr_left fun entry inside => ?_
  split
  case isTrue same =>
    subst same
    exact congrArg (Prod.mk entry.1) (eq_of_mem mem inside)
  case isFalse => rfl

theorem mem_entries_delete :
    (k', v') ∈ (m.delete k).entries ↔ k' ≠ k ∧ (k', v') ∈ m.entries := by
  rw [delete, List.mem_filter, decide_eq_true_eq, and_comm]

@[simp] theorem get_delete_self (m : OrderedMap α β) (k : α) : (m.delete k).get k = none := by
  refine Option.eq_none_iff_forall_ne_some.2 fun w found => ?_
  exact (mem_entries_delete.1 (mem_entries.2 found)).1 rfl

theorem get_delete_ne (m : OrderedMap α β) (ne : k' ≠ k) : (m.delete k).get k' = m.get k' := by
  refine Option.ext fun w => ?_
  rw [← mem_entries, mem_entries_delete, ← mem_entries]
  exact and_iff_right ne

end OrderedMap
