import KimiCli.Lib.OrderedMap

/-!
# One pass over a map whose values need earlier ones

A pass over an ordered map gives each value anew, from what the map holds at the keys that the value
needs, and reads the values that it has given already.  When every value needs only keys before its
own, one pass is enough: the result is a fixed point (`get_pass`).
-/

namespace OrderedMap

variable {α β : Type*} [DecidableEq α] {m : OrderedMap α β} {k : α} {v : β}

theorem keys_set_of_mem (mem : k ∈ m.keys) (v : β) : (m.set k v).keys = m.keys := by
  rw [set, dif_pos mem]
  exact map_replace m.entries k v

theorem keys_set_of_not_mem (fresh : k ∉ m.keys) (v : β) : (m.set k v).keys = m.keys ++ [k] := by
  rw [keys, entries_set_of_not_mem fresh, List.map_append]
  rfl

theorem get_eq_none (outside : k ∉ m.keys) : m.get k = none :=
  Option.eq_none_iff_forall_ne_some.2 fun v found => outside (mem_keys.2 ⟨v, found⟩)

theorem set_get (found : m.get k = some v) : m.set k v = m := by
  refine ext ?_
  rw [set, dif_pos (mem_keys.2 ⟨v, found⟩)]
  refine (List.map_congr_left fun entry mem => ?_).trans (List.map_id _)
  split
  case isTrue same =>
    subst same
    exact Prod.ext rfl (eq_of_mem (mem_entries.2 found) mem)
  case isFalse => rfl

section Pass

variable (settle : (α → Option β) → α → β → β) (needs : β → List α)

/-- The value of a key is given anew. -/
def visit (m : OrderedMap α β) (k : α) : OrderedMap α β :=
  match m.get k with
  | none => m
  | some v => m.set k (settle m.get k v)

def pass (m : OrderedMap α β) : OrderedMap α β := m.keys.foldl (visit settle) m

/-- A value is given from what the map holds at the keys that it needs, and keeps these needs. -/
structure ReadsNeeds : Prop where
  needs_settle : ∀ f k v, needs (settle f k v) = needs v
  congr : ∀ f g k v, (∀ d ∈ needs v, f d = g d) → settle f k v = settle g k v

/-- No value needs its own key or a later one. -/
structure NeedsEarlier (m : OrderedMap α β) : Prop where
  self : ∀ k v, m.get k = some v → k ∉ needs v
  later : m.keys.Pairwise fun k k' => ∀ v, m.get k = some v → k' ∉ needs v

variable {settle needs}

theorem keys_visit (m : OrderedMap α β) (k : α) : (m.visit settle k).keys = m.keys := by
  rw [visit]
  split
  next => rfl
  next v found => exact keys_set_of_mem (mem_keys.2 ⟨v, found⟩) _

theorem get_visit_self (m : OrderedMap α β) (k : α) :
    (m.visit settle k).get k = (m.get k).map (settle m.get k) := by
  rw [visit]
  split
  next found => rw [found]; rfl
  next v found => rw [get_set_self, found, Option.map_some]

theorem get_visit_ne (m : OrderedMap α β) {j : α} (ne : j ≠ k) :
    (m.visit settle k).get j = m.get j := by
  rw [visit]
  split
  next => rfl
  next => exact get_set_ne m _ ne

theorem NeedsEarlier.of_needs {m' : OrderedMap α β} (earlier : NeedsEarlier needs m)
    (keys : m'.keys = m.keys)
    (same : ∀ k v, m'.get k = some v → ∃ w, m.get k = some w ∧ needs v = needs w) :
    NeedsEarlier needs m' where
  self k v found := by
    obtain ⟨w, found', eq⟩ := same k v found
    exact eq ▸ earlier.self k w found'
  later := by
    rw [keys]
    refine earlier.later.imp fun {k k'} later v found => ?_
    obtain ⟨w, found', eq⟩ := same k v found
    exact eq ▸ later w found'

theorem NeedsEarlier.idxOf_lt (earlier : NeedsEarlier needs m) {d : α} (found : m.get k = some v)
    (need : d ∈ needs v) (inside : d ∈ m.keys) : m.keys.idxOf d < m.keys.idxOf k := by
  have own : k ∈ m.keys := mem_keys.2 ⟨v, found⟩
  by_contra notBefore
  rcases Nat.eq_or_lt_of_le (Nat.not_lt.1 notBefore) with same | behind
  · exact earlier.self k v found ((List.idxOf_inj own).1 same ▸ need)
  · have later := List.pairwise_iff_getElem.1 earlier.later _ _ (List.idxOf_lt_length_of_mem own)
      (List.idxOf_lt_length_of_mem inside) behind
    simp only [List.getElem_idxOf] at later
    exact later v found need

theorem NeedsEarlier.delete (earlier : NeedsEarlier needs m) (k : α) :
    NeedsEarlier needs (m.delete k) := by
  have before (j : α) (v : β) (found : (m.delete k).get j = some v) : m.get j = some v :=
    mem_entries.1 (mem_entries_delete.1 (mem_entries.2 found)).2
  refine ⟨fun j v found => earlier.self j v (before j v found), ?_⟩
  refine (earlier.later.sublist (List.filter_sublist.map _)).imp ?_
  exact fun {j j'} later v found => later v (before j v found)

theorem NeedsEarlier.set_new (earlier : NeedsEarlier needs m) (fresh : k ∉ m.keys)
    (own : k ∉ needs v) (others : ∀ j w, m.get j = some w → k ∉ needs w) :
    NeedsEarlier needs (m.set k v) := by
  have old {j : α} (inside : j ∈ m.keys) : (m.set k v).get j = m.get j :=
    get_set_ne m v fun same => fresh (same ▸ inside)
  refine ⟨fun j w found => ?_, ?_⟩
  · by_cases same : j = k
    · subst same
      rw [get_set_self] at found
      cases found
      exact own
    · rw [get_set_ne m v same] at found
      exact earlier.self j w found
  · rw [keys_set_of_not_mem fresh, List.pairwise_append]
    refine ⟨?_, List.pairwise_singleton _ _, fun j inside j' last w found => ?_⟩
    · refine earlier.later.imp_of_mem fun {j j'} inside _ later w found => ?_
      exact later w (old inside ▸ found)
    · rw [List.mem_singleton.1 last]
      exact others j w (old inside ▸ found)

theorem ReadsNeeds.needsEarlier_visit (reads : ReadsNeeds settle needs)
    (earlier : NeedsEarlier needs m) (k : α) : NeedsEarlier needs (m.visit settle k) := by
  refine earlier.of_needs (keys_visit m k) fun j v found => ?_
  by_cases same : j = k
  · subst same
    rw [get_visit_self, Option.map_eq_some_iff] at found
    obtain ⟨w, found, rfl⟩ := found
    exact ⟨w, found, reads.needs_settle _ _ _⟩
  · rw [get_visit_ne m same] at found
    exact ⟨v, found, rfl⟩

theorem ReadsNeeds.get_foldl_visit (reads : ReadsNeeds settle needs) {m₀ : OrderedMap α β} :
    ∀ (rest done : List α) (m : OrderedMap α β), m.keys = done ++ rest → NeedsEarlier needs m →
      (∀ j ∈ done, m.get j = (m₀.get j).map (settle m.get j)) →
      (∀ j ∉ done, m.get j = m₀.get j) →
      ∀ j, (rest.foldl (visit settle) m).get j =
        (m₀.get j).map (settle (rest.foldl (visit settle) m).get j)
  | [], done, m, keys, _, settled, same, j => by
    rw [List.append_nil] at keys
    by_cases inside : j ∈ done
    · exact settled j inside
    · have none : m.get j = none := get_eq_none (keys ▸ inside)
      rw [List.foldl_nil, none, ← same j inside, none]
      rfl
  | k :: rest, done, m, keys, earlier, settled, same, j => by
    have later := earlier.later
    rw [keys, List.pairwise_append] at later
    have distinct : (done ++ k :: rest).Nodup := keys ▸ m.nodup
    have notDone : k ∉ done := fun mem =>
      (List.nodup_append.1 distinct).2.2 k mem k List.mem_cons_self rfl
    rw [List.foldl_cons]
    refine get_foldl_visit reads rest (done ++ [k]) (m.visit settle k) ?_
      (reads.needsEarlier_visit earlier k) (fun i mem => ?_) (fun i outside => ?_) j
    · rw [keys_visit, keys, List.append_assoc]
      rfl
    · rcases List.mem_append.1 mem with inside | last
      · have ne : i ≠ k := fun eq => notDone (eq ▸ inside)
        rw [get_visit_ne m ne, settled i inside]
        cases found : m₀.get i with
        | none => rfl
        | some w =>
          have now : m.get i = some (settle m.get i w) := by
            rw [settled i inside, found, Option.map_some]
          have free := later.2.2 i inside k List.mem_cons_self _ now
          rw [reads.needs_settle] at free
          refine congrArg some (reads.congr _ _ _ _ fun d need => ?_)
          exact (get_visit_ne m (ne_of_mem_of_not_mem need free)).symm
      · obtain rfl := List.mem_singleton.1 last
        rw [get_visit_self, same i notDone]
        cases found : m₀.get i with
        | none => rfl
        | some w =>
          have free := earlier.self i w ((same i notDone).trans found)
          refine congrArg some (reads.congr _ _ _ _ fun d need => ?_)
          exact (get_visit_ne m (ne_of_mem_of_not_mem need free)).symm
    · rw [List.mem_append, List.mem_singleton, not_or] at outside
      rw [get_visit_ne m outside.2, same i outside.1]

/-- Each value is what the values after the pass give it. -/
theorem ReadsNeeds.get_pass (reads : ReadsNeeds settle needs) (earlier : NeedsEarlier needs m)
    (k : α) : (m.pass settle).get k = (m.get k).map (settle (m.pass settle).get k) :=
  reads.get_foldl_visit m.keys [] m rfl earlier (fun _ mem => nomatch mem) (fun _ _ => rfl) k

theorem keys_foldl_visit (visited : List α) :
    ∀ m : OrderedMap α β, (visited.foldl (visit settle) m).keys = m.keys := by
  induction visited with
  | nil => exact fun _ => rfl
  | cons k rest ih => exact fun m => (ih _).trans (keys_visit m k)

theorem keys_pass (m : OrderedMap α β) : (m.pass settle).keys = m.keys :=
  keys_foldl_visit m.keys m

end Pass

end OrderedMap
