import KimiCli.Config.Salvage
import Mathlib.Algebra.Order.BigOperators.Group.List
import Mathlib.Algebra.Order.Ring.Nat

/-!
# Tables without some of their sections and entries

What is left of a table after a list of removals: nothing that was not there before, everything that
none of the removals is about, and less with every removal of something that is there.
-/

namespace KimiCli.Salvage

variable {V C : Type*}

/-! ## Removing sections and entries -/

/-- Something that the report can name. -/
inductive Removal where
  | wholeSection (name : String)
  | oneEntry (name entry : String)

def Removal.report : Removal → String
  | .wholeSection name => camelToSnake name
  | .oneEntry name entry => camelToSnake name ++ "." ++ entry

/-- The issue is one of the section, or of the entry. -/
def Issue.At (issue : Issue) : Removal → Prop
  | .wholeSection name => ∃ rest, issue.path = .key name :: rest
  | .oneEntry name entry => ∃ rest, issue.path = .key name :: .key entry :: rest

/-- The table without a section or an entry. -/
def without (table : Table V) : Removal → Table V
  | .wholeSection name => table.delete name
  | .oneEntry name entry =>
    match table.own.get name with
    | some (.object fields) => table.put name (.object (fields.delete entry))
    | _ => table

def withoutAll (table : Table V) (removals : List Removal) : Table V := removals.foldl without table

/-- What the loop may remove: an invalid section that is not removed entry by entry, or an invalid
entry. -/
def Schema.Due (schema : Schema V) (table : Table V) : Removal → Prop
  | .wholeSection name => ∃ value, table.own.get name = some value ∧
      ¬ schema.SectionOk name value ∧ ∀ fields, name ∈ ENTRY_KEYED_SECTIONS → value ≠ .object fields
  | .oneEntry name entry => name ∈ ENTRY_KEYED_SECTIONS ∧ ∃ fields v,
      table.own.get name = some (.object fields) ∧ fields.own.get entry = some v ∧
        ¬ schema.entryOk name v

variable {schema : Schema V} {table other : Table V} {removals : List Removal} {name : String}

/-! ## What a removal leaves -/

theorem get_delete_other {name' : String} (ne : name' ≠ name) :
    (table.delete name).own.get name' = table.own.get name' :=
  OrderedMap.get_delete_ne _ ne

variable {value : SectionValue V} {removal : Removal}

theorem get_put {name' : String} (table : Table V) :
    (table.put name value).own.get name' =
      if name' = name then some value else table.own.get name' := by
  by_cases same : name' = name
  · rw [if_pos same, same]
    exact OrderedMap.get_set_self _ _ _
  · rw [if_neg same]
    exact OrderedMap.get_set_ne _ _ same

theorem has_of_get (found : table.own.get name = some value) :
    table.has name = true := by
  rw [PlainObject.has, Bool.or_eq_true, decide_eq_true_eq]
  exact .inl (OrderedMap.mem_keys.2 ⟨value, found⟩)

/-- The value is what is left of another one. -/
def LeftOf (name : String) (value old : SectionValue V) : Prop :=
  value = old ∨ name ∈ ENTRY_KEYED_SECTIONS ∧ ∃ fields old', value = .object fields ∧
    old = .object old' ∧ ∀ entry v, fields.own.get entry = some v → old'.own.get entry = some v

theorem LeftOf.trans {a b c : SectionValue V} (ab : LeftOf name a b) (bc : LeftOf name b c) :
    LeftOf name a c := by
  rcases ab with rfl | ⟨keyed, fields, fields', rfl, rfl, within⟩
  · exact bc
  · rcases bc with rfl | ⟨-, _, old, same, rfl, within'⟩
    · exact .inr ⟨keyed, fields, fields', rfl, rfl, within⟩
    · cases same
      exact .inr ⟨keyed, fields, old, rfl, rfl, fun entry v found => within' _ _ (within _ _ found)⟩

/-- Everything in the table is left of what the other table has there. -/
def Within (table other : Table V) : Prop :=
  ∀ name value, table.own.get name = some value →
    ∃ old, other.own.get name = some old ∧ LeftOf name value old

theorem Within.refl (table : Table V) : Within table table :=
  fun _ value found => ⟨value, found, .inl rfl⟩

theorem Within.trans {table' : Table V} (first : Within table other)
    (second : Within other table') : Within table table' := by
  intro name value found
  obtain ⟨middle, found', left⟩ := first name value found
  obtain ⟨old, found'', left'⟩ := second name middle found'
  exact ⟨old, found'', left.trans left'⟩

theorem within_without (removal : Removal)
    (keyed : ∀ name entry, removal = .oneEntry name entry → name ∈ ENTRY_KEYED_SECTIONS) :
    Within (without table removal) table := by
  intro name' value found
  rcases removal with name | ⟨name, entry⟩
  · by_cases same : name' = name
    · rw [without, same, PlainObject.delete, OrderedMap.get_delete_self] at found
      cases found
    · rw [without, get_delete_other same] at found
      exact ⟨value, found, .inl rfl⟩
  · rw [without] at found
    split at found
    case h_1 fields present =>
      rw [get_put] at found
      split at found
      case isTrue same =>
        cases found
        subst same
        refine ⟨_, present, .inr ⟨keyed _ _ rfl, _, fields, rfl, rfl, fun entry' v inside => ?_⟩⟩
        rw [← OrderedMap.mem_entries] at inside ⊢
        exact (OrderedMap.mem_entries_delete.1 inside).2
      case isFalse => exact ⟨value, found, .inl rfl⟩
    case h_2 => exact ⟨value, found, .inl rfl⟩

theorem Schema.Due.keyed (due : schema.Due table removal) {entry : String}
    (shape : removal = .oneEntry name entry) : name ∈ ENTRY_KEYED_SECTIONS := by
  subst shape
  exact due.1

theorem Schema.Due.of_within (due : schema.Due table removal) (within : Within table other) :
    schema.Due other removal := by
  rcases removal with name | ⟨name, entry⟩
  · obtain ⟨value, found, invalid, whole⟩ := due
    obtain ⟨old, found', rfl | ⟨keyed, fields, -, rfl, -⟩⟩ := within name value found
    · exact ⟨value, found', invalid, whole⟩
    · exact absurd rfl (whole fields keyed)
  · obtain ⟨keyed, fields, v, found, inside, invalid⟩ := due
    obtain ⟨old, found', rfl | ⟨-, _, old', same, rfl, sub⟩⟩ := within name _ found
    · exact ⟨keyed, fields, v, found', inside, invalid⟩
    · cases same
      exact ⟨keyed, old', v, found', sub _ _ inside, invalid⟩

theorem withoutAll_append (more : List Removal) :
    withoutAll table (removals ++ more) = withoutAll (withoutAll table removals) more :=
  List.foldl_append

theorem within_withoutAll (due : ∀ removal ∈ removals, schema.Due other removal) :
    ∀ {table : Table V}, Within (withoutAll table removals) table := by
  induction removals with
  | nil => exact Within.refl _
  | cons removal removals ih =>
    intro table
    have here := List.forall_mem_cons.1 due
    rw [withoutAll, List.foldl_cons]
    exact (ih here.2).trans (within_without removal fun _ _ shape => here.1.keyed shape)

/-! ## Removals make the table smaller -/

def SectionValue.weight : SectionValue V → ℕ
  | .object fields => fields.own.entries.length + 1
  | .other _ => 1

/-- How many sections and entries there are. -/
def size (table : Table V) : ℕ := (table.own.entries.map fun e => e.2.weight).sum

/-- The size of the table if the section had the weight `w`. -/
def sizeWith (table : Table V) (name : String) (w : ℕ) : ℕ :=
  (table.own.entries.map fun e => if e.1 = name then w else e.2.weight).sum

theorem sizeWith_le {w : ℕ}
    (lighter : ∀ value, table.own.get name = some value → w ≤ value.weight) :
    sizeWith table name w ≤ size table := by
  refine List.sum_le_sum fun e inside => ?_
  split
  case isTrue same =>
    subst same
    exact lighter _ (OrderedMap.mem_entries.1 inside)
  case isFalse => exact le_rfl

theorem sizeWith_lt {w : ℕ} (found : table.own.get name = some value) (lighter : w < value.weight) :
    sizeWith table name w < size table := by
  refine List.sum_lt_sum _ _ (fun e inside => ?_)
    ⟨(name, value), OrderedMap.mem_entries.2 found, by rwa [if_pos rfl]⟩
  split
  case isTrue same =>
    subst same
    have here := OrderedMap.mem_entries.1 inside
    rw [found] at here
    cases here
    exact lighter.le
  case isFalse => exact le_rfl

theorem size_delete : size (table.delete name) = sizeWith table name 0 := by
  rw [size, sizeWith, PlainObject.delete, OrderedMap.delete]
  dsimp only
  induction table.own.entries with
  | nil => rfl
  | cons e entries ih =>
    rw [List.filter_cons, List.map_cons, List.sum_cons]
    by_cases same : e.1 = name
    · rw [if_neg (by simpa using same), if_pos same, zero_add]
      exact ih
    · rw [if_pos (by simpa using same), if_neg same, List.map_cons, List.sum_cons]
      exact congrArg _ ih

theorem size_put {old : SectionValue V} (found : table.own.get name = some old) :
    size (table.put name value) = sizeWith table name value.weight := by
  rw [size, sizeWith, PlainObject.put, OrderedMap.set,
    dif_pos (OrderedMap.mem_keys.2 ⟨old, found⟩), List.map_map]
  refine congrArg List.sum (List.map_congr_left fun e _ => ?_)
  rw [Function.comp_apply]
  split <;> rfl

theorem weight_delete_le (fields : PlainObject V) (entry : String) :
    (SectionValue.object (fields.delete entry)).weight ≤ (SectionValue.object fields).weight :=
  Nat.succ_le_succ (List.length_filter_le _ _)

theorem weight_delete_lt {fields : PlainObject V} {entry : String} {v : V}
    (found : fields.own.get entry = some v) :
    (SectionValue.object (fields.delete entry)).weight < (SectionValue.object fields).weight :=
  Nat.succ_lt_succ (List.length_filter_lt_length_iff_exists.2
    ⟨(entry, v), OrderedMap.mem_entries.2 found, by simp⟩)

theorem size_without_le (removal : Removal) : size (without table removal) ≤ size table := by
  rcases removal with name | ⟨name, entry⟩
  · rw [without, size_delete]
    exact sizeWith_le fun _ _ => Nat.zero_le _
  · rw [without]
    split
    case h_1 fields found =>
      rw [size_put found]
      refine sizeWith_le fun value found' => ?_
      rw [found] at found'
      cases found'
      exact weight_delete_le fields entry
    case h_2 => exact le_rfl

theorem size_withoutAll_le :
    ∀ {table : Table V}, size (withoutAll table removals) ≤ size table := by
  induction removals with
  | nil => exact le_rfl
  | cons removal removals ih => exact ih.trans (size_without_le removal)

theorem size_without_lt (due : schema.Due table removal) :
    size (without table removal) < size table := by
  rcases removal with name | ⟨name, entry⟩
  · obtain ⟨value, found, -, -⟩ := due
    rw [without, size_delete]
    refine sizeWith_lt found ?_
    cases value <;> exact Nat.succ_pos _
  · obtain ⟨-, fields, v, found, inside, -⟩ := due
    simp only [without, found]
    rw [size_put found]
    exact sizeWith_lt found (weight_delete_lt inside)

/-! ## What the removals keep -/

theorem without_keeps_section (stays : removal ≠ .wholeSection name)
    (whole : ∀ entry, removal ≠ .oneEntry name entry) :
    (without table removal).own.get name = table.own.get name := by
  rcases removal with name' | ⟨name', entry⟩
  · exact get_delete_other fun same => stays (congrArg _ same.symm)
  · rw [without]
    split
    · rw [get_put, if_neg]
      rintro rfl
      exact whole entry rfl
    · rfl

theorem without_keeps_entries {fields : PlainObject V}
    (found : table.own.get name = some (.object fields)) (stays : removal ≠ .wholeSection name) :
    ∃ fields', (without table removal).own.get name = some (.object fields') ∧
      ∀ entry, removal ≠ .oneEntry name entry → fields'.own.get entry = fields.own.get entry := by
  by_cases whole : ∀ entry, removal ≠ .oneEntry name entry
  · refine ⟨fields, ?_, fun _ _ => rfl⟩
    rw [without_keeps_section stays whole, found]
  · push Not at whole
    obtain ⟨entry, rfl⟩ := whole
    refine ⟨fields.delete entry, ?_, fun entry' ne => ?_⟩
    · simp only [without, found]
      rw [get_put, if_pos rfl]
    · exact OrderedMap.get_delete_ne _ fun same => ne (by rw [same])

theorem withoutAll_keeps_section (stays : .wholeSection name ∉ removals)
    (whole : ∀ entry, .oneEntry name entry ∉ removals) :
    ∀ {table : Table V}, (withoutAll table removals).own.get name = table.own.get name := by
  induction removals with
  | nil => exact rfl
  | cons removal removals ih =>
    intro table
    rw [withoutAll, List.foldl_cons]
    refine (ih (fun mem => stays (.tail _ mem)) fun entry mem => whole entry (.tail _ mem)).trans ?_
    refine without_keeps_section ?_ fun entry => ?_
    · rintro rfl
      exact stays List.mem_cons_self
    · rintro rfl
      exact whole entry List.mem_cons_self

theorem withoutAll_keeps_entries (stays : .wholeSection name ∉ removals) :
    ∀ {table : Table V} {fields : PlainObject V},
      table.own.get name = some (.object fields) →
      ∃ fields', (withoutAll table removals).own.get name = some (.object fields') ∧
        ∀ entry, .oneEntry name entry ∉ removals →
          fields'.own.get entry = fields.own.get entry := by
  induction removals with
  | nil => exact fun {_ fields} found => ⟨fields, found, fun _ _ => rfl⟩
  | cons removal removals ih =>
    intro table fields found
    have here : removal ≠ .wholeSection name := by
      rintro rfl
      exact stays List.mem_cons_self
    obtain ⟨middle, found', kept⟩ := without_keeps_entries found here
    obtain ⟨last, found'', kept'⟩ := ih (fun mem => stays (.tail _ mem)) found'
    refine ⟨last, found'', fun entry out => ?_⟩
    rw [kept' entry fun mem => out (.tail _ mem), kept entry]
    rintro rfl
    exact out List.mem_cons_self

end KimiCli.Salvage
