import Mathlib.Algebra.Ring.Nat
import Mathlib.Data.Rat.Defs
import Mathlib.Tactic.Common

/-!
# What a TOML file says

The values that the TOML parser hands out.  A table is what it says at each key, so that the order
of its keys does not count.
-/

namespace KimiCli

/-- A number of the host.  Its zero without a sign is `finite 0`. -/
inductive TomlNumber where
  | finite (value : ℚ)
  | negativeZero
  | infinity (negative : Bool)
  | nan

/-- A value with no values in it.  No TOML file says `null`, but a copy of a value through JSON
may. -/
inductive TomlLeaf where
  | null
  | string (text : String)
  | number (value : TomlNumber)
  | boolean (value : Bool)
  | date (text : String)

inductive TomlValue where
  | leaf (value : TomlLeaf)
  | array (items : List TomlValue)
  | table (fields : String → Option TomlValue)

abbrev TomlTable := String → Option TomlValue

namespace TomlTable

def empty : TomlTable := fun _ => none

/-- `table[key] = value` -/
def set (fields : TomlTable) (key : String) (value : TomlValue) : TomlTable :=
  fun other => if other = key then some value else fields other

variable {fields : TomlTable} {key other : String} {value : TomlValue}

@[simp] theorem set_self : set fields key value key = some value := if_pos rfl

theorem set_other (ne : other ≠ key) : set fields key value other = fields other := if_neg ne

theorem set_set {value' : TomlValue} : set (set fields key value) key value' =
    set fields key value' := by
  funext other
  rw [set, set, set]
  split <;> rfl

end TomlTable

namespace TomlValue

/-! ## Changing the leaves -/

mutual

def mapLeaves (f : TomlLeaf → TomlLeaf) : TomlValue → TomlValue
  | .leaf value => .leaf (f value)
  | .array items => .array (mapItems f items)
  | .table fields => .table fun key => mapField f (fields key)

def mapItems (f : TomlLeaf → TomlLeaf) : List TomlValue → List TomlValue
  | [] => []
  | item :: items => mapLeaves f item :: mapItems f items

def mapField (f : TomlLeaf → TomlLeaf) : Option TomlValue → Option TomlValue
  | none => none
  | some value => some (mapLeaves f value)

end

mutual

/-- Every leaf of the value satisfies `p`. -/
def Every (p : TomlLeaf → Prop) : TomlValue → Prop
  | .leaf value => p value
  | .array items => EveryItem p items
  | .table fields => ∀ key, EveryField p (fields key)

def EveryItem (p : TomlLeaf → Prop) : List TomlValue → Prop
  | [] => True
  | item :: items => Every p item ∧ EveryItem p items

def EveryField (p : TomlLeaf → Prop) : Option TomlValue → Prop
  | none => True
  | some value => Every p value

end

variable {f : TomlLeaf → TomlLeaf} {p : TomlLeaf → Prop}

mutual

theorem mapLeaves_mapLeaves (idem : ∀ value, f (f value) = f value) :
    ∀ value, mapLeaves f (mapLeaves f value) = mapLeaves f value
  | .leaf value => by
    simp only [mapLeaves, idem]
  | .array items => by
    simp only [mapLeaves]
    rw [mapItems_mapItems idem items]
  | .table fields => by
    simp only [mapLeaves]
    exact congrArg table (funext fun key => mapField_mapField idem (fields key))

theorem mapItems_mapItems (idem : ∀ value, f (f value) = f value) :
    ∀ items, mapItems f (mapItems f items) = mapItems f items
  | [] => by simp only [mapItems]
  | item :: items => by
    simp only [mapItems]
    rw [mapLeaves_mapLeaves idem item, mapItems_mapItems idem items]

theorem mapField_mapField (idem : ∀ value, f (f value) = f value) :
    ∀ field, mapField f (mapField f field) = mapField f field
  | none => by simp only [mapField]
  | some value => by
    simp only [mapField]
    rw [mapLeaves_mapLeaves idem value]

end

mutual

theorem every_mapLeaves (same : ∀ leaf, p (f leaf) ↔ p leaf) :
    ∀ value, Every p (mapLeaves f value) ↔ Every p value
  | .leaf value => by rw [mapLeaves, Every, Every, same]
  | .array items => by rw [mapLeaves, Every, Every, every_mapItems same items]
  | .table fields => by
    rw [mapLeaves, Every, Every]
    exact forall_congr' fun key => every_mapField same (fields key)

theorem every_mapItems (same : ∀ leaf, p (f leaf) ↔ p leaf) :
    ∀ items, EveryItem p (mapItems f items) ↔ EveryItem p items
  | [] => by rw [mapItems]
  | item :: items => by
    rw [mapItems, EveryItem, EveryItem, every_mapLeaves same item, every_mapItems same items]

theorem every_mapField (same : ∀ leaf, p (f leaf) ↔ p leaf) :
    ∀ field, EveryField p (mapField f field) ↔ EveryField p field
  | none => by rw [mapField]
  | some value => by rw [mapField, EveryField, EveryField, every_mapLeaves same value]

end

/-! ## A copy through JSON -/

end TomlValue

/-- What `JSON.parse(JSON.stringify(value))` makes of a value with no values in it. -/
def TomlLeaf.cloned : TomlLeaf → TomlLeaf
  | .number .negativeZero => .number (.finite 0)
  | .number (.infinity _) => .null
  | .number .nan => .null
  | .date text => .string text
  | value => value

/-- The values that JSON has: no dates, and of the numbers not `nan`, `inf` and `-0.0`. -/
def TomlLeaf.PlainJson : TomlLeaf → Prop
  | .number (.finite _) => True
  | .number _ => False
  | .date _ => False
  | _ => True

/-- The parser takes the leaf back as it is printed.  An integral number from `2 ^ 53` to below
`10 ^ 21` is printed as an integer, and the parser refuses an integer that may not be exact. -/
def TomlLeaf.Readable : TomlLeaf → Prop
  | .number (.finite value) =>
    ¬ (value.den = 1 ∧ 2 ^ 53 ≤ value.num.natAbs ∧ value.num.natAbs < 10 ^ 21)
  | _ => True

theorem TomlLeaf.readable_cloned (value : TomlLeaf) : value.cloned.Readable ↔ value.Readable := by
  rcases value with _ | text | (_ | _ | _ | _) | value | text <;> simp [cloned, Readable]

theorem TomlLeaf.cloned_eq_iff {value : TomlLeaf} : value.cloned = value ↔ value.PlainJson := by
  rcases value with _ | text | (_ | _ | _ | _) | value | text <;> simp [cloned, PlainJson]

theorem TomlLeaf.cloned_cloned (value : TomlLeaf) : value.cloned.cloned = value.cloned := by
  rcases value with _ | text | (_ | _ | _ | _) | value | text <;> rfl

namespace TomlValue

/-- `JSON.parse(JSON.stringify(value))` -/
def cloned : TomlValue → TomlValue := mapLeaves TomlLeaf.cloned

def clonedField : Option TomlValue → Option TomlValue := mapField TomlLeaf.cloned

mutual

/-- What the printed value says: the printer leaves out the keys of a table that are `null`. -/
def written : TomlValue → TomlValue
  | .leaf value => .leaf value
  | .array items => .array (writtenItems items)
  | .table fields => .table fun key => writtenField (fields key)

def writtenItems : List TomlValue → List TomlValue
  | [] => []
  | item :: items => written item :: writtenItems items

def writtenField : Option TomlValue → Option TomlValue
  | none => none
  | some (.leaf .null) => none
  | some value => some (written value)

end

abbrev NullFree : TomlValue → Prop := Every (· ≠ .null)

abbrev PlainJson : TomlValue → Prop := Every TomlLeaf.PlainJson

abbrev Readable : TomlValue → Prop := Every TomlLeaf.Readable

theorem writtenField_some {value : TomlValue} (some' : value ≠ .leaf .null) :
    writtenField (some value) = some (written value) := by
  rw [writtenField]
  exact some'

theorem writtenField_array {items : List TomlValue} :
    writtenField (some (.array items)) = some (.array (writtenItems items)) := by
  rw [writtenField_some (by simp), written]

theorem writtenField_table {fields : TomlTable} :
    writtenField (some (.table fields)) = some (.table fun key => writtenField (fields key)) := by
  rw [writtenField_some (by simp), written]

mutual

/-- Copied and printed, a value says the same exactly when JSON has all of its leaves. -/
theorem written_cloned_iff :
    ∀ value, NullFree value → (written (mapLeaves TomlLeaf.cloned value) = value ↔ PlainJson value)
  | .leaf value, _ => by
    rw [mapLeaves, written, PlainJson, Every, leaf.injEq]
    exact TomlLeaf.cloned_eq_iff
  | .array items, free => by
    rw [NullFree, Every] at free
    rw [mapLeaves, written, PlainJson, Every, array.injEq]
    exact written_clonedItems_iff items free
  | .table fields, free => by
    rw [NullFree, Every] at free
    rw [mapLeaves, written, PlainJson, Every, table.injEq, funext_iff]
    exact forall_congr' fun key => written_clonedField_iff (fields key) (free key)

theorem written_clonedItems_iff :
    ∀ items, EveryItem (· ≠ .null) items →
      (writtenItems (mapItems TomlLeaf.cloned items) = items ↔
        EveryItem TomlLeaf.PlainJson items)
  | [], _ => by
    simp only [mapItems, writtenItems, EveryItem]
  | item :: items, free => by
    rw [EveryItem] at free
    rw [mapItems, writtenItems, EveryItem, List.cons.injEq]
    exact and_congr (written_cloned_iff item free.1) (written_clonedItems_iff items free.2)

theorem written_clonedField_iff :
    ∀ field, EveryField (· ≠ .null) field →
      (writtenField (mapField TomlLeaf.cloned field) = field ↔
        EveryField TomlLeaf.PlainJson field)
  | none, _ => by
    simp only [mapField, writtenField, EveryField]
  | some value, free => by
    rw [EveryField] at free
    have plain : Every TomlLeaf.PlainJson value ↔ _ := (written_cloned_iff value free).symm
    rw [mapField, EveryField, plain]
    by_cases null : mapLeaves TomlLeaf.cloned value = .leaf .null
    · rw [null, writtenField, written]
      constructor
      · intro same
        cases same
      · rintro rfl
        rw [Every] at free
        exact absurd rfl free
    · rw [writtenField_some null, Option.some.injEq]

end

end TomlValue

end KimiCli
