import KimiCli.Lib.OrderedMap
import KimiCli.Lib.Rounds

/-!
# What a broken config file loses

`salvageConfigData` validates the table of a config file and deletes what the validator complains
of, until the rest is accepted.  A complaint about a provider or a model costs that entry, any other
complaint the whole section.
-/

namespace KimiCli.Salvage

/-- One step of the path of an issue: a key, or an index into an array. -/
inductive PathStep where
  | key (name : String)
  | index (position : ℕ)

/-- What is read of an issue. -/
structure Issue where
  path : List PathStep

/-- An object: its own properties, and the names that it answers to without having them. -/
structure PlainObject (α : Type*) where
  own : OrderedMap String α
  inherited : List String := []

namespace PlainObject

variable {α : Type*}

/-- `name in object` -/
def has (object : PlainObject α) (name : String) : Bool :=
  decide (name ∈ object.own.keys) || decide (name ∈ object.inherited)

/-- `delete object[name]`, which does not reach what is inherited. -/
def delete (object : PlainObject α) (name : String) : PlainObject α :=
  { object with own := object.own.delete name }

/-- The object after a change to the value at a name. -/
def put (object : PlainObject α) (name : String) (value : α) : PlainObject α :=
  { object with own := object.own.set name value }

end PlainObject

/-- The value of a section: an object (`isPlainObject`) or something else. -/
inductive SectionValue (V : Type*) where
  | object (fields : PlainObject V)
  | other (value : V)

/-- The table that is validated, with the keys in camel case. -/
abbrev Table (V : Type*) := PlainObject (SectionValue V)

structure SalvageResult (C : Type*) where
  config : Option C
  dropped : List String
  error : Option (List Issue) := none

def camelToSnake (str : String) : String :=
  String.ofList (str.toList.flatMap fun ch => if ch.isUpper then ['_', ch.toLower] else [ch])

/-- Sections keyed by user-chosen names where single entries can be dropped. -/
def ENTRY_KEYED_SECTIONS : List String := ["providers", "models"]

/-- Where the walk over the issues of one validation is. -/
structure Walk (V : Type*) where
  transformed : Table V
  dropped : List String
  deletedAny : Bool := false

variable {V C : Type*}

namespace Walk

def deleteSection (walk : Walk V) (name : String) : Walk V where
  transformed := walk.transformed.delete name
  dropped := walk.dropped ++ [camelToSnake name]
  deletedAny := true

/-- `fields` is the value of the section, which the deletion changes in place. -/
def deleteEntry (walk : Walk V) (name : String) (fields : PlainObject V) (entry : String) :
    Walk V where
  transformed := walk.transformed.put name (.object (fields.delete entry))
  dropped := walk.dropped ++ [camelToSnake name ++ "." ++ entry]
  deletedAny := true

/-- What is done about one issue. -/
def drop (walk : Walk V) (issue : Issue) : Walk V :=
  match issue.path with
  | .key name :: rest =>
    if walk.transformed.has name then
      match walk.transformed.own.get name, rest with
      | some (.object fields), .key entry :: _ =>
        if name ∈ ENTRY_KEYED_SECTIONS then
          -- later issues of an entry that is gone do nothing
          if fields.has entry then walk.deleteEntry name fields entry else walk
        else walk.deleteSection name
      | _, _ => walk.deleteSection name
    else walk
  | _ => walk

end Walk

/-- One round: the table and the report so far, with the validator `safeParse`. -/
def salvageRound (safeParse : Table V → Except (List Issue) C) (state : Table V × List String) :
    (Table V × List String) ⊕ SalvageResult C :=
  match safeParse state.1 with
  | .ok config => .inr { config := some config, dropped := state.2 }
  | .error issues =>
    let walk := issues.foldl Walk.drop { transformed := state.1, dropped := state.2 }
    if walk.deletedAny then .inl (walk.transformed, walk.dropped)
    else .inr { config := none, dropped := walk.dropped, error := some issues }

/-- The loop, for at most so many rounds. -/
def salvageConfigData (safeParse : Table V → Except (List Issue) C) (fuel : ℕ)
    (transformed : Table V) : Option (SalvageResult C) :=
  Rounds.loop (salvageRound safeParse) fuel (transformed, [])

/-! ## What the validator is relied on for -/

/-- What makes the entries of the keyed sections and the values of the sections valid, each by
itself. -/
structure Schema (V : Type*) where
  entryOk : String → V → Prop
  valueOk : String → SectionValue V → Prop

/-- A keyed section that is an object is valid when its entries are. -/
def Schema.SectionOk (schema : Schema V) (name : String) (value : SectionValue V) : Prop :=
  match value with
  | .object fields =>
    if name ∈ ENTRY_KEYED_SECTIONS then
      ∀ entry v, fields.own.get entry = some v → schema.entryOk name v
    else schema.valueOk name (.object fields)
  | .other v => schema.valueOk name (.other v)

/-- The path leads to an invalid section, and into an invalid entry of one that is keyed. -/
def Schema.Offends (schema : Schema V) (table : Table V) (path : List PathStep) : Prop :=
  ∃ name rest value, path = .key name :: rest ∧ table.own.get name = some value ∧
    ¬ schema.SectionOk name value ∧
    ∀ fields, name ∈ ENTRY_KEYED_SECTIONS → value = .object fields →
      ∃ entry rest' v, rest = .key entry :: rest' ∧ fields.own.get entry = some v ∧
        ¬ schema.entryOk name v

/-- The validator accepts a table when all of its sections are valid, no section being required.
Else it reports each invalid section, and nothing that is valid. -/
structure Validates (schema : Schema V) (safeParse : Table V → Except (List Issue) C) : Prop where
  accepts : ∀ table, (∃ config, safeParse table = .ok config) ↔
    ∀ name value, table.own.get name = some value → schema.SectionOk name value
  reports : ∀ table issues, safeParse table = .error issues →
    ∀ name value, table.own.get name = some value → ¬ schema.SectionOk name value →
      ∃ issue ∈ issues, issue.path.head? = some (.key name)
  located : ∀ table issues, safeParse table = .error issues →
    ∀ issue ∈ issues, schema.Offends table issue.path

/-! ## The schema of the config -/

/-- The sections that `KimiConfigSchema` reads, each of them optional. -/
def SECTIONS : List String :=
  ["providers", "defaultProvider", "defaultModel", "models", "thinking", "planMode", "yolo",
    "defaultThinking", "defaultPermissionMode", "defaultPlanMode", "permission", "hooks",
    "services", "mergeAllAvailableSkills", "extraSkillDirs", "loopControl", "background",
    "orchestration", "experimental", "telemetry", "raw"]

/-- The schemas of an entry and of a section, as the paths to what they find wrong. -/
structure Checks (V : Type*) where
  entry : String → V → List (List PathStep)
  value : String → SectionValue V → List (List PathStep)

namespace Checks

variable (checks : Checks V)

/-- The issues of one section, as paths inside of it. -/
def sectionPaths (name : String) : SectionValue V → List (List PathStep)
  | .object fields =>
    if name ∈ ENTRY_KEYED_SECTIONS then
      fields.own.entries.flatMap fun e => (checks.entry name e.2).map (.key e.1 :: ·)
    else checks.value name (.object fields)
  | .other v => checks.value name (.other v)

def issues (table : Table V) : List Issue :=
  SECTIONS.flatMap fun name =>
    match table.own.get name with
    | some value => (checks.sectionPaths name value).map fun path => { path := .key name :: path }
    | none => []

/-- `KimiConfigSchema.safeParse`.  The config consists of the sections that are read. -/
def safeParse (table : Table V) : Except (List Issue) (List (String × SectionValue V)) :=
  if (checks.issues table).isEmpty then
    .ok (table.own.entries.filter fun e => e.1 ∈ SECTIONS)
  else .error (checks.issues table)

def toSchema : Schema V where
  entryOk name v := checks.entry name v = []
  valueOk name value := name ∈ SECTIONS → checks.value name value = []

variable {checks} {table : Table V} {name : String}

theorem sectionOk_iff {value : SectionValue V} (known : name ∈ SECTIONS) :
    checks.toSchema.SectionOk name value ↔ checks.sectionPaths name value = [] := by
  rcases value with fields | v
  · rw [Schema.SectionOk, sectionPaths]
    split
    · rw [List.flatMap_eq_nil_iff]
      constructor
      · intro valid e inside
        have fine : checks.entry name e.2 = [] := valid e.1 e.2 (OrderedMap.mem_entries.1 inside)
        rw [fine, List.map_nil]
      · intro none entry v found
        exact List.map_eq_nil_iff.1 (none (entry, v) (OrderedMap.mem_entries.2 found))
    · exact ⟨fun valid => valid known, fun none _ => none⟩
  · exact ⟨fun valid => valid known, fun none _ => none⟩

theorem sectionOk_of_unknown {value : SectionValue V} (unknown : name ∉ SECTIONS) :
    checks.toSchema.SectionOk name value := by
  have notKeyed : name ∉ ENTRY_KEYED_SECTIONS := by
    intro keyed
    rcases List.mem_cons.1 keyed with rfl | keyed
    · exact unknown (by decide)
    · obtain rfl := List.mem_singleton.1 keyed
      exact unknown (by decide)
  rcases value with fields | v
  · rw [Schema.SectionOk, if_neg notKeyed]
    exact fun known => absurd known unknown
  · exact fun known => absurd known unknown

theorem mem_issues {issue : Issue} : issue ∈ checks.issues table ↔
    ∃ name ∈ SECTIONS, ∃ value, table.own.get name = some value ∧
      ∃ path ∈ checks.sectionPaths name value, issue = { path := .key name :: path } := by
  rw [issues, List.mem_flatMap]
  refine exists_congr fun name => and_congr_right fun _ => ?_
  cases table.own.get name with
  | none => simp
  | some => simp [eq_comm]

theorem safeParse_eq_error {found : List Issue} (rejected : checks.safeParse table = .error found) :
    found = checks.issues table := by
  rw [safeParse] at rejected
  split at rejected
  · cases rejected
  · exact (Except.error.inj rejected).symm

theorem safeParse_validates (checks : Checks V) : Validates checks.toSchema checks.safeParse where
  accepts table := by
    rw [safeParse]
    split
    case isTrue empty =>
      refine iff_of_true ⟨_, rfl⟩ fun name value found => ?_
      rw [List.isEmpty_iff] at empty
      by_cases known : name ∈ SECTIONS
      · rw [sectionOk_iff known, List.eq_nil_iff_forall_not_mem]
        intro path inside
        have named := mem_issues.2 ⟨name, known, value, found, path, inside, rfl⟩
        rw [empty] at named
        cases named
      · exact sectionOk_of_unknown known
    case isFalse some =>
      refine iff_of_false (by rintro ⟨_, ⟨⟩⟩) fun valid => some ?_
      rw [List.isEmpty_iff, List.eq_nil_iff_forall_not_mem]
      intro issue inside
      obtain ⟨name, known, value, found, path, bad, -⟩ := mem_issues.1 inside
      rw [(sectionOk_iff known).1 (valid name value found)] at bad
      cases bad
  reports table found rejected name value present invalid := by
    obtain rfl := safeParse_eq_error rejected
    have known : name ∈ SECTIONS := by
      by_contra unknown
      exact invalid (sectionOk_of_unknown unknown)
    rw [sectionOk_iff known] at invalid
    obtain ⟨path, inside⟩ := List.exists_mem_of_ne_nil _ invalid
    exact ⟨_, mem_issues.2 ⟨name, known, value, present, path, inside, rfl⟩, rfl⟩
  located table found rejected issue inside := by
    obtain rfl := safeParse_eq_error rejected
    obtain ⟨name, known, value, present, path, bad, rfl⟩ := mem_issues.1 inside
    refine ⟨name, path, value, rfl, present, ?_, ?_⟩
    · rw [sectionOk_iff known]
      exact List.ne_nil_of_mem bad
    · rintro fields keyed rfl
      rw [sectionPaths, if_pos keyed, List.mem_flatMap] at bad
      obtain ⟨e, here, bad⟩ := bad
      obtain ⟨rest, wrong, rfl⟩ := List.mem_map.1 bad
      exact ⟨e.1, rest, e.2, rfl, OrderedMap.mem_entries.1 here, List.ne_nil_of_mem wrong⟩

end Checks

end KimiCli.Salvage
