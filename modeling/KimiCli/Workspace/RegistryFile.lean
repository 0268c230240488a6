import KimiCli.Js.Json
import KimiCli.Lib.OrderedMap

/-!
# The file of the workspace registry

`workspaces.json` of `services/workspace/workspaceRegistryService.ts`: what `readRegistry` makes of
the value that `JSON.parse` gives, and the value that `writeRegistry` prints.
-/

namespace KimiCli.WorkspaceRegistry

structure WorkspaceRegistryEntry where
  root : String
  name : String
  created_at : String
  last_opened_at : String

/-- The entries are properties of an object, so that `__proto__` is the name of none. -/
@[ext] structure WorkspaceRegistryFile where
  version : NumberToken
  workspaces : OrderedMap String WorkspaceRegistryEntry
  deleted_workspace_ids : List String
  plain : "__proto__" ∉ workspaces.keys

theorem version_isNumberChar : ∀ c ∈ ['1'], isNumberChar c = true :=
  List.forall_mem_singleton.2 rfl

def WORKSPACE_REGISTRY_VERSION : NumberToken := ⟨['1'], version_isNumberChar⟩

namespace WorkspaceRegistryFile

def empty : WorkspaceRegistryFile := ⟨WORKSPACE_REGISTRY_VERSION, ∅, [], List.not_mem_nil⟩

/-- `file.workspaces[id]`, for an id that `Object.prototype` has no property of. -/
def entry (file : WorkspaceRegistryFile) (id : String) : Option WorkspaceRegistryEntry :=
  file.workspaces.get id

/-- `file.workspaces[id] = entry`. -/
def setEntry (file : WorkspaceRegistryFile) (id : String) (entry : WorkspaceRegistryEntry) :
    WorkspaceRegistryFile :=
  if proto : id = "__proto__" then file
  else
    { file with
      workspaces := file.workspaces.set id entry
      plain := fun mem => by
        obtain ⟨entry', found⟩ := OrderedMap.mem_keys.1 mem
        rw [OrderedMap.get_set_ne _ _ (Ne.symm proto)] at found
        exact file.plain (OrderedMap.mem_keys.2 ⟨entry', found⟩) }

/-- `delete file.workspaces[id]`. -/
def deleteEntry (file : WorkspaceRegistryFile) (id : String) : WorkspaceRegistryFile :=
  { file with
    workspaces := file.workspaces.delete id
    plain := fun mem => by
      obtain ⟨entry', found⟩ := OrderedMap.mem_keys.1 mem
      have before := (OrderedMap.mem_entries_delete.1 (OrderedMap.mem_entries.2 found)).2
      exact file.plain (OrderedMap.mem_keys.2 ⟨entry', OrderedMap.mem_entries.1 before⟩) }

variable {file : WorkspaceRegistryFile} {id id' : String} {new : WorkspaceRegistryEntry}

theorem setEntry_workspaces (own : id ≠ "__proto__") :
    (file.setEntry id new).workspaces = file.workspaces.set id new := by
  rw [setEntry, dif_neg own]

theorem setEntry_version : (file.setEntry id new).version = file.version := by
  rw [setEntry]
  split <;> rfl

theorem setEntry_deleted :
    (file.setEntry id new).deleted_workspace_ids = file.deleted_workspace_ids := by
  rw [setEntry]
  split <;> rfl

theorem entry_setEntry_ne (other : id' ≠ id) :
    (file.setEntry id new).entry id' = file.entry id' := by
  by_cases proto : id = "__proto__"
  · rw [setEntry, dif_pos proto]
  · rw [entry, setEntry_workspaces proto, OrderedMap.get_set_ne _ _ other, entry]

end WorkspaceRegistryFile

/-! ## Reading and writing -/

/-- `sanitizeEntry`. -/
def sanitizeEntry (value : Json) : Option WorkspaceRegistryEntry :=
  if !value.isObject then none
  else
    match value.property "root", value.property "name", value.property "created_at",
      value.property "last_opened_at" with
    | some (.string root), some (.string name), some (.string created_at),
      some (.string last_opened_at) => some ⟨root, name, created_at, last_opened_at⟩
    | _, _, _, _ => none

/-- `Object.entries(value)`, in the order of insertion. -/
def objectEntries : Json → List (String × Json)
  | .object members => (members.foldl (fun map member => map.set member.1 member.2)
      (∅ : OrderedMap String Json)).entries
  | .array items => items.zipIdx.map fun item => (toString item.2, item.1)
  | _ => []

/-- The loop of `readRegistry` over the entries. -/
def keepEntries (file : WorkspaceRegistryFile) (entries : List (String × Json)) :
    WorkspaceRegistryFile :=
  entries.foldl (fun file member =>
    match sanitizeEntry member.2 with
    | some entry => file.setEntry member.1 entry
    | none => file) file

def stringItem : Json → Option String
  | .string id => some id
  | _ => none

/-- What `readRegistry` makes of the parsed text. -/
def fileOf (parsed : Json) : WorkspaceRegistryFile :=
  match parsed.property "workspaces" with
  | none => .empty
  | some rawWorkspaces =>
    if !rawWorkspaces.isObject then .empty
    else keepEntries
      { WorkspaceRegistryFile.empty with
        version := match parsed.property "version" with
          | some (.number version) => version
          | _ => WORKSPACE_REGISTRY_VERSION
        deleted_workspace_ids := match parsed.property "deleted_workspace_ids" with
          | some (.array rawDeleted) => rawDeleted.filterMap stringItem
          | _ => [] } (objectEntries rawWorkspaces)

def WorkspaceRegistryEntry.toJson (entry : WorkspaceRegistryEntry) : Json :=
  .object [("root", .string entry.root), ("name", .string entry.name),
    ("created_at", .string entry.created_at), ("last_opened_at", .string entry.last_opened_at)]

/-- The value that `writeRegistry` prints. -/
def WorkspaceRegistryFile.toJson (file : WorkspaceRegistryFile) : Json :=
  .object [("version", .number file.version),
    ("workspaces", .object (file.workspaces.entries.map fun e => (e.1, e.2.toJson))),
    ("deleted_workspace_ids", .array (file.deleted_workspace_ids.map .string))]

theorem objectEntries_object {members : List (String × Json)}
    (distinct : (members.map Prod.fst).Nodup) : objectEntries (.object members) = members := by
  exact (OrderedMap.entries_foldl_set distinct).trans (List.nil_append _)

theorem keepEntries_toJson {file : WorkspaceRegistryFile}
    {entries : List (String × WorkspaceRegistryEntry)}
    (plain : "__proto__" ∉ entries.map Prod.fst) :
    (keepEntries file (entries.map fun e => (e.1, e.2.toJson))).workspaces =
        entries.foldl (fun map e => map.set e.1 e.2) file.workspaces ∧
      (keepEntries file (entries.map fun e => (e.1, e.2.toJson))).version = file.version ∧
      (keepEntries file (entries.map fun e => (e.1, e.2.toJson))).deleted_workspace_ids =
        file.deleted_workspace_ids := by
  induction entries generalizing file with
  | nil => exact ⟨rfl, rfl, rfl⟩
  | cons e entries ih =>
    rw [List.map_cons, List.mem_cons, not_or] at plain
    obtain ⟨workspaces, version, deleted⟩ := @ih (file.setEntry e.1 e.2) plain.2
    refine ⟨workspaces.trans ?_, version.trans ?_, deleted.trans ?_⟩
    · rw [WorkspaceRegistryFile.setEntry_workspaces (Ne.symm plain.1), List.foldl_cons]
    · exact WorkspaceRegistryFile.setEntry_version
    · exact WorkspaceRegistryFile.setEntry_deleted

theorem fileOf_toJson (file : WorkspaceRegistryFile) : fileOf file.toJson = file := by
  have distinct :
      ((file.workspaces.entries.map fun e => (e.1, e.2.toJson)).map Prod.fst).Nodup := by
    rw [List.map_map]
    exact file.workspaces.nodup
  have deleted : (file.deleted_workspace_ids.map Json.string).filterMap stringItem =
      file.deleted_workspace_ids := by
    rw [List.filterMap_map]
    exact List.filterMap_some
  have read : fileOf file.toJson = keepEntries
      { WorkspaceRegistryFile.empty with
        version := file.version
        deleted_workspace_ids :=
          (file.deleted_workspace_ids.map Json.string).filterMap stringItem }
      (objectEntries (.object (file.workspaces.entries.map fun e => (e.1, e.2.toJson)))) := rfl
  rw [read, objectEntries_object distinct, deleted]
  obtain ⟨workspaces, version, ids⟩ := @keepEntries_toJson
    { WorkspaceRegistryFile.empty with
      version := file.version
      deleted_workspace_ids := file.deleted_workspace_ids } _ file.plain
  refine WorkspaceRegistryFile.ext version (OrderedMap.ext ?_) ids
  rw [workspaces, OrderedMap.entries_foldl_set]
  · rfl
  · exact file.workspaces.nodup

end KimiCli.WorkspaceRegistry
