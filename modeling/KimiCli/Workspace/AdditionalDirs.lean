import KimiCli.Js.Text
import KimiCli.Js.TomlData
import KimiCli.Lib.FirstOfEach

/-!
# The additional directories of a workspace

`local.toml` of a project lists directories that the agent may use besides the project itself.  The
list is loaded by one chain of helpers, and a new directory is added through another one, which
writes all entries back in resolved form.
-/

namespace KimiCli

open FirstOfEach

/-- What a call to the host can fail with: the path is not there (`ENOENT`, `ENOTDIR`), or
something else. -/
inductive HostError where
  | missing (message : String)
  | other (message : String)

def HostError.message : HostError → String
  | .missing message => message
  | .other message => message

inductive WorkspaceError where
  /-- A `KimiError` with the code `CONFIG_INVALID`. -/
  | configInvalid (message : String)
  | thrown (message : String)

/-- The functions of `pathe`, of the host and of the TOML library that are used. -/
structure WorkspaceHost (Disk : Type) where
  normalize : String → String
  isAbsolute : String → Bool
  resolve : String → String → String
  join : List String → String
  dirname : String → String
  /-- How often `dirname` can be taken before it stays. -/
  depth : String → ℕ
  dirname_depth : ∀ path, dirname path ≠ path → depth (dirname path) < depth path
  getcwd : String
  gethome : String
  normpath : String → String
  /-- `stat`, which says whether there is a directory. -/
  isDirectory : Disk → String → Except HostError Bool
  readText : Disk → String → Except HostError String
  mkdir : Disk → String → Except HostError Disk
  writeText : Disk → String → String → Except HostError Disk
  parseToml : String → Except String TomlTable
  stringifyToml : TomlTable → Except String String

structure WorkspaceAdditionalDirsLoadResult where
  projectRoot : String
  configPath : String
  additionalDirs : List String

/-- The file as it stands, and `workspace.additional_dir` of it. -/
structure WorkspaceLocalTomlFile where
  raw : TomlTable
  additionalDir : Option (List String)

namespace WorkspaceHost

variable {Disk : Type} (host : WorkspaceHost Disk)

/-! ## Paths -/

def getWorkspaceLocalConfigPath (projectRoot : String) : String :=
  host.join [projectRoot, ".kimi-code", "local.toml"]

def pathExists (disk : Disk) (filePath : String) : Bool :=
  match host.isDirectory disk filePath with
  | .ok _ => true
  | .error _ => false

def resolveWorkDir (workDir : String) : String :=
  if host.isAbsolute workDir then host.normpath workDir else host.resolve host.getcwd workDir

/-- The loop of `findProjectRoot`. -/
def searchRoot (disk : Disk) (initial current : String) : String :=
  if host.pathExists disk (host.join [current, ".git"]) then current
  else if _ : host.dirname current = current then initial
  else searchRoot disk initial (host.dirname current)
termination_by host.depth current
decreasing_by exact host.dirname_depth current ‹_›

def findProjectRoot (disk : Disk) (workDir : String) : String :=
  host.searchRoot disk (host.resolveWorkDir workDir) (host.resolveWorkDir workDir)

def expandHome (value : String) : String :=
  match value.toList with
  | ['~'] => host.gethome
  | '~' :: '/' :: rest => host.join [host.gethome, String.ofList rest]
  | _ => value

def resolvePath (projectRoot additionalDir : String) : String :=
  let expanded := host.expandHome additionalDir
  if host.isAbsolute expanded then host.normalize expanded else host.resolve projectRoot expanded

def hasSameAdditionalDir (dirs : List String) (target : String) : Bool :=
  hasKey host.normpath dirs target

/-- Where `normalizedDirs` is also what `seen` holds. -/
def normalizeAdditionalDirs (additionalDirs : List String) : List String :=
  additionalDirs.foldl
    (fun normalizedDirs additionalDir => keep id normalizedDirs (host.normalize additionalDir)) []

def mustBeDirectory : WorkspaceError :=
  .configInvalid "workspace.additional_dir must exist and be a directory"

def normalizeAdditionalDirInput (additionalDir : String) : Except WorkspaceError String :=
  if trim additionalDir = "" then .error mustBeDirectory
  else .ok (host.normalize (trim additionalDir))

def assertDirectory (disk : Disk) (filePath : String) : Except WorkspaceError Unit :=
  match host.isDirectory disk filePath with
  | .ok true => .ok ()
  | .ok false => .error mustBeDirectory
  | .error (.missing _) => .error mustBeDirectory
  | .error (.other message) => .error (.configInvalid s!"Failed to stat {filePath}: {message}")

def resolveAdditionalDir (disk : Disk) (projectRoot additionalDir : String) :
    Except WorkspaceError String := do
  let normalizedInput ← host.normalizeAdditionalDirInput additionalDir
  let resolvedDir := host.resolvePath projectRoot normalizedInput
  host.assertDirectory disk resolvedDir
  return resolvedDir

/-- The directories of the stored entries, as they are loaded. -/
def resolveAdditionalDirs (disk : Disk) (projectRoot : String) (additionalDirs : List String) :
    Except WorkspaceError (List String) :=
  (host.normalizeAdditionalDirs additionalDirs).foldlM (fun resolvedDirs additionalDir => do
    let resolvedDir ← host.resolveAdditionalDir disk projectRoot additionalDir
    return keep host.normpath resolvedDirs resolvedDir) []

/-- The directories of the stored entries, as they are kept when another one is added. -/
def resolveExistingAdditionalDirs (projectRoot : String) (additionalDirs : List String) :
    List String :=
  (host.normalizeAdditionalDirs additionalDirs).foldl (fun resolvedDirs additionalDir =>
    keep host.normpath resolvedDirs (host.resolvePath projectRoot additionalDir)) []

/-! ## The file -/

/-- `z.array(z.string())` -/
def arrayOfStrings : Option TomlValue → Option (List String)
  | some (.array items) => items.mapM fun
    | .leaf (.string text) => some text
    | _ => none
  | _ => none

/-- A date is an object to the schema, without any field. -/
def parseWorkspaceLocalToml (raw : TomlTable) : Except WorkspaceError (Option (List String)) :=
  let mustBeStrings := WorkspaceError.configInvalid
    "workspace.additional_dir must be an array of strings"
  match raw "workspace" with
  | none => .ok none
  | some (.table workspace) =>
    match arrayOfStrings (workspace "additional_dir") with
    | some additionalDir => .ok (some additionalDir)
    | none => .error mustBeStrings
  | some (.leaf (.date _)) => .error mustBeStrings
  | some _ => .error (.configInvalid "workspace must be a table")

/-- `JSON.parse(JSON.stringify(value))` of a table. -/
def clonedTable (fields : TomlTable) : TomlTable := fun key => TomlValue.clonedField (fields key)

/-- Of a value that is itself a copy, so that it is no date. -/
def cloneRecord : Option TomlValue → TomlTable
  | some (.table fields) => clonedTable fields
  | _ => TomlTable.empty

def readWorkspaceLocalToml (disk : Disk) (configPath : String) :
    Except WorkspaceError (Option WorkspaceLocalTomlFile) :=
  match host.readText disk configPath with
  | .error (.missing _) => .ok none
  | .error (.other message) =>
    .error (.configInvalid s!"Failed to read {configPath}: {message}")
  | .ok text =>
    if trim text = "" then .ok (some ⟨TomlTable.empty, none⟩)
    else
      match host.parseToml text with
      | .error message => .error (.configInvalid s!"Invalid TOML in {configPath}: {message}")
      | .ok raw => do
        let additionalDir ← parseWorkspaceLocalToml raw
        return some ⟨clonedTable raw, additionalDir⟩

def loadWorkspaceLocalConfig (disk : Disk) (workDir : String) :
    Except WorkspaceError WorkspaceAdditionalDirsLoadResult := do
  let projectRoot := host.findProjectRoot disk workDir
  let configPath := host.getWorkspaceLocalConfigPath projectRoot
  let file ← host.readWorkspaceLocalToml disk configPath
  match file.bind (·.additionalDir) with
  | none => return ⟨projectRoot, configPath, []⟩
  | some additionalDirs =>
    return ⟨projectRoot, configPath, ← host.resolveAdditionalDirs disk projectRoot additionalDirs⟩

/-- An error of the host that nobody catches. -/
def uncaught {α : Type} : Except HostError α → Except WorkspaceError α
  | .ok value => .ok value
  | .error error => .error (.thrown error.message)

def printToml (fields : TomlTable) : Except WorkspaceError String :=
  match host.stringifyToml fields with
  | .ok text => .ok text
  | .error message => .error (.thrown message)

/-- The table that is written, with `dirs` for `workspace.additional_dir`. -/
def withAdditionalDirs (raw : TomlTable) (dirs : List String) : TomlTable :=
  let workspace := cloneRecord (raw "workspace")
  let workspace := workspace.set "additional_dir" (.array (dirs.map fun dir => .leaf (.string dir)))
  raw.set "workspace" (.table workspace)

/-- The disk afterwards, and what is returned. -/
def appendWorkspaceAdditionalDir (disk : Disk) (workDir inputPath : String)
    (_currentAdditionalDirs : List String) :
    Except WorkspaceError (Disk × WorkspaceAdditionalDirsLoadResult) := do
  let projectRoot := host.findProjectRoot disk workDir
  let configPath := host.getWorkspaceLocalConfigPath projectRoot
  let additionalDir ← host.resolveAdditionalDir disk workDir inputPath
  let file := (← host.readWorkspaceLocalToml disk configPath).getD ⟨TomlTable.empty, none⟩
  let fileAdditionalDirs := file.additionalDir.getD []
  let fileExistingDirs := host.resolveExistingAdditionalDirs projectRoot fileAdditionalDirs
  if host.hasSameAdditionalDir fileExistingDirs additionalDir then
    return (disk, ⟨projectRoot, configPath, fileExistingDirs⟩)
  let raw := withAdditionalDirs file.raw (fileExistingDirs ++ [additionalDir])
  let disk ← uncaught (host.mkdir disk (host.dirname configPath))
  let disk ← uncaught (host.writeText disk configPath ((← host.printToml raw) ++ "\n"))
  return (disk, ⟨projectRoot, configPath, fileExistingDirs ++ [additionalDir]⟩)

/-! ## What is relied on -/

variable {host}

/-- What `pathe`, the host and the TOML library document.  The directory `.kimi-code` of a project
that exists and the file in it are no `.git`. -/
structure Laws (host : WorkspaceHost Disk) : Prop where
  head : ∀ path, host.isAbsolute path → ∃ c rest, path.toList = c :: rest ∧ c ≠ '~'
  absolute_normalize : ∀ path, host.isAbsolute path → host.isAbsolute (host.normalize path)
  absolute_trim : ∀ path, host.isAbsolute path → host.isAbsolute (trim path)
  absolute_resolve : ∀ base path, host.isAbsolute (host.resolve base path)
  normalize_normalize : ∀ path, host.normalize (host.normalize path) = host.normalize path
  normalize_resolve : ∀ base path, host.normalize (host.resolve base path) = host.resolve base path
  length_normalize : ∀ path, host.isAbsolute path → (host.normalize path).length ≤ path.length
  mkdir_keeps : ∀ disk disk' path, host.mkdir disk path = .ok disk' →
    ∀ other kind, host.isDirectory disk other = .ok kind → host.isDirectory disk' other = .ok kind
  writeText_keeps : ∀ disk disk' path text, host.writeText disk path text = .ok disk' →
    ∀ other kind, host.isDirectory disk other = .ok kind → host.isDirectory disk' other = .ok kind
  mkdir_git : ∀ disk disk' root, host.pathExists disk root →
    host.mkdir disk (host.dirname (host.getWorkspaceLocalConfigPath root)) = .ok disk' →
    ∀ other, host.pathExists disk' (host.join [other, ".git"]) →
      host.pathExists disk (host.join [other, ".git"])
  writeText_git : ∀ disk disk' root text,
    host.writeText disk (host.getWorkspaceLocalConfigPath root) text = .ok disk' →
    ∀ other, host.pathExists disk' (host.join [other, ".git"]) →
      host.pathExists disk (host.join [other, ".git"])
  readText_writeText : ∀ disk disk' path text, host.writeText disk path text = .ok disk' →
    host.readText disk' path = .ok text
  parse_nullFree : ∀ text raw, host.parseToml text = .ok raw → TomlValue.NullFree (.table raw)
  parse_print : ∀ raw text, host.stringifyToml raw = .ok text → clonedTable raw = raw →
    TomlValue.Readable (.table raw) → trim (text ++ "\n") ≠ "" →
    host.parseToml (text ++ "\n") = .ok fun key => TomlValue.writtenField (raw key)
  parse_unreadable : ∀ raw text, host.stringifyToml raw = .ok text → clonedTable raw = raw →
    ¬ TomlValue.Readable (.table raw) → ∃ message, host.parseToml (text ++ "\n") = .error message
  print_blank : ∀ raw text, host.stringifyToml raw = .ok text → trim (text ++ "\n") = "" →
    ∀ key, TomlValue.writtenField (raw key) = none

variable {disk disk' : Disk} {root path dir target workDir inputPath configPath : String}
  {dirs entries current : List String} {raw : TomlTable}
  {before result : WorkspaceAdditionalDirsLoadResult} {file : Option WorkspaceLocalTomlFile}

/-! ## Resolved paths -/

variable (host) in
/-- An absolute path in normal form. -/
structure Settled (path : String) : Prop where
  absolute : host.isAbsolute path
  normal : host.normalize path = path

theorem Laws.expandHome_absolute (laws : host.Laws) (absolute : host.isAbsolute path) :
    host.expandHome path = path := by
  obtain ⟨c, rest, chars, plain⟩ := laws.head path absolute
  rw [expandHome, chars]
  split
  case h_1 same =>
    cases same
    exact absurd rfl plain
  case h_2 same =>
    cases same
    exact absurd rfl plain
  case h_3 => rfl

theorem Laws.settled_resolvePath (laws : host.Laws) :
    host.Settled (host.resolvePath root path) := by
  rw [resolvePath]
  split
  case isTrue absolute =>
    exact ⟨laws.absolute_normalize _ absolute, laws.normalize_normalize _⟩
  case isFalse => exact ⟨laws.absolute_resolve _ _, laws.normalize_resolve _ _⟩

theorem Laws.resolvePath_absolute (laws : host.Laws) (absolute : host.isAbsolute path) :
    host.resolvePath root path = host.normalize path := by
  simp only [resolvePath, laws.expandHome_absolute absolute, absolute, if_true]

theorem Settled.resolvePath (settled : host.Settled path) (laws : host.Laws) :
    host.resolvePath root path = path :=
  (laws.resolvePath_absolute settled.absolute).trans settled.normal

variable (host) in
/-- The directory that an entry or an input names, when it has anything but white space. -/
def namedDir (root dir : String) : String := host.resolvePath root (host.normalize (trim dir))

theorem resolveAdditionalDir_eq_ok : host.resolveAdditionalDir disk root dir = .ok path ↔
    (trim dir ≠ "" ∧ host.isDirectory disk (host.namedDir root dir) = .ok true) ∧
      path = host.namedDir root dir := by
  rw [resolveAdditionalDir, normalizeAdditionalDirInput]
  by_cases blank : trim dir = ""
  · rw [if_pos blank]
    constructor
    · intro same
      cases same
    · rintro ⟨⟨some', -⟩, -⟩
      exact absurd blank some'
  · rw [if_neg blank]
    change (do
      host.assertDirectory disk (host.namedDir root dir)
      return host.namedDir root dir) = _ ↔ _
    rw [assertDirectory]
    split
    case h_1 directory =>
      rw [directory]
      change Except.ok _ = _ ↔ _
      rw [Except.ok.injEq, eq_comm]
      simp [blank]
    all_goals
      rename_i other
      rw [other]
      simp [bind, Except.bind]

theorem trim_eq_of_length (long : path.length ≤ (trim path).length) : trim path = path := by
  have sublist : (trimEndChars (trimStartChars path.toList)).Sublist path.toList :=
    (List.rdropWhile_prefix _ _).sublist.trans (List.dropWhile_sublist _)
  rw [trim, String.length_ofList, ← String.length_toList] at long
  rw [trim, sublist.eq_of_length_le long, String.ofList_toList]

/-- A resolved directory names itself as an entry exactly when no white space is trimmed off it. -/
theorem Settled.namedDir_eq_iff (settled : host.Settled dir) (laws : host.Laws) :
    host.namedDir root dir = dir ↔ trim dir = dir := by
  constructor
  · intro same
    have absolute := laws.absolute_trim dir settled.absolute
    rw [namedDir, laws.resolvePath_absolute (laws.absolute_normalize _ absolute),
      laws.normalize_normalize] at same
    have shorter := laws.length_normalize _ absolute
    rw [same] at shorter
    exact trim_eq_of_length shorter
  · intro same
    rw [namedDir, same, settled.normal, settled.resolvePath laws]

/-! ## The two chains -/

theorem normalizeAdditionalDirs_eq :
    host.normalizeAdditionalDirs entries = firstOfEach id (entries.map host.normalize) := by
  rw [normalizeAdditionalDirs, firstOfEach, List.foldl_map]

theorem Laws.normalize_of_mem (laws : host.Laws)
    (mem : dir ∈ host.normalizeAdditionalDirs entries) : host.normalize dir = dir := by
  rw [normalizeAdditionalDirs_eq] at mem
  obtain ⟨entry, -, rfl⟩ := List.mem_map.1 (firstOfEach_sublist.subset mem)
  exact laws.normalize_normalize entry

theorem normalizeAdditionalDirs_of_normal (normal : ∀ dir ∈ dirs, host.normalize dir = dir)
    (nodup : (dirs.map host.normpath).Nodup) : host.normalizeAdditionalDirs dirs = dirs := by
  have same : dirs.map host.normalize = dirs :=
    (List.map_congr_left normal).trans (List.map_id dirs)
  rw [normalizeAdditionalDirs_eq, same]
  refine firstOfEach_of_nodup ?_
  rw [List.map_id]
  exact nodup.of_map _

theorem resolveExistingAdditionalDirs_eq :
    host.resolveExistingAdditionalDirs root entries =
      firstOfEach host.normpath
        ((host.normalizeAdditionalDirs entries).map (host.resolvePath root)) := by
  rw [resolveExistingAdditionalDirs, firstOfEach, List.foldl_map]

theorem foldlM_keep_eq_ok {kept : List String} :
    dirs.foldlM (fun resolvedDirs additionalDir => do
        let resolvedDir ← host.resolveAdditionalDir disk root additionalDir
        return keep host.normpath resolvedDirs resolvedDir) kept = .ok entries ↔
      (∀ dir ∈ dirs, trim dir ≠ "" ∧ host.isDirectory disk (host.namedDir root dir) = .ok true) ∧
        entries = (dirs.map (host.namedDir root)).foldl (keep host.normpath) kept := by
  induction dirs generalizing kept with
  | nil =>
    rw [List.foldlM_nil]
    change Except.ok _ = _ ↔ _
    rw [Except.ok.injEq, eq_comm]
    simp
  | cons dir dirs ih =>
    rw [List.foldlM_cons, List.forall_mem_cons, List.map_cons, List.foldl_cons]
    cases resolved : host.resolveAdditionalDir disk root dir with
    | error =>
      constructor
      · intro same
        cases same
      · rintro ⟨⟨good, -⟩, -⟩
        rw [resolveAdditionalDir_eq_ok.2 ⟨good, rfl⟩] at resolved
        cases resolved
    | ok =>
      obtain ⟨good, rfl⟩ := resolveAdditionalDir_eq_ok.1 resolved
      refine ih.trans ?_
      rw [and_assoc]
      exact (and_iff_right good).symm

theorem resolveAdditionalDirs_eq_ok :
    host.resolveAdditionalDirs disk root entries = .ok dirs ↔
      (∀ dir ∈ host.normalizeAdditionalDirs entries,
        trim dir ≠ "" ∧ host.isDirectory disk (host.namedDir root dir) = .ok true) ∧
      dirs = firstOfEach host.normpath
        ((host.normalizeAdditionalDirs entries).map (host.namedDir root)) :=
  foldlM_keep_eq_ok

/-- Entries without white space around them name the same directories in both chains. -/
theorem Laws.resolveExisting_eq (laws : host.Laws)
    (trimmed : ∀ dir ∈ host.normalizeAdditionalDirs entries, trim dir = dir)
    (loaded : host.resolveAdditionalDirs disk root entries = .ok dirs) :
    host.resolveExistingAdditionalDirs root entries = dirs := by
  rw [(resolveAdditionalDirs_eq_ok.1 loaded).2, resolveExistingAdditionalDirs_eq]
  refine congrArg (firstOfEach host.normpath) (List.map_congr_left fun dir mem => ?_)
  rw [namedDir, trimmed dir mem, laws.normalize_of_mem mem]

theorem Laws.settled_of_mem (laws : host.Laws)
    (mem : dir ∈ host.resolveExistingAdditionalDirs root entries) : host.Settled dir := by
  rw [resolveExistingAdditionalDirs_eq] at mem
  obtain ⟨entry, -, rfl⟩ := List.mem_map.1 (firstOfEach_sublist.subset mem)
  exact laws.settled_resolvePath

theorem nodup_resolveExisting :
    ((host.resolveExistingAdditionalDirs root entries).map host.normpath).Nodup := by
  rw [resolveExistingAdditionalDirs_eq]
  exact nodup_firstOfEach

/-- Resolved directories load as they are exactly when none of them has white space around it. -/
theorem Laws.resolveAdditionalDirs_settled_iff (laws : host.Laws)
    (settled : ∀ dir ∈ dirs, host.Settled dir) (nodup : (dirs.map host.normpath).Nodup)
    (directories : ∀ dir ∈ dirs, host.isDirectory disk dir = .ok true) :
    host.resolveAdditionalDirs disk root dirs = .ok dirs ↔ ∀ dir ∈ dirs, trim dir = dir := by
  rw [resolveAdditionalDirs_eq_ok,
    normalizeAdditionalDirs_of_normal (fun dir mem => (settled dir mem).normal) nodup]
  constructor
  · rintro ⟨-, same⟩ dir mem
    have all : firstOfEach host.normpath (dirs.map (host.namedDir root)) =
        dirs.map (host.namedDir root) := by
      refine firstOfEach_sublist.eq_of_length ?_
      rw [← same, List.length_map]
    rw [all] at same
    have named := List.map_inj_left.1 (same.symm.trans (List.map_id dirs).symm) dir mem
    exact ((settled dir mem).namedDir_eq_iff laws).1 named
  · intro trimmed
    have named (dir : String) (mem : dir ∈ dirs) : host.namedDir root dir = dir :=
      ((settled dir mem).namedDir_eq_iff laws).2 (trimmed dir mem)
    refine ⟨fun dir mem => ?_, ?_⟩
    · rw [named dir mem, trimmed dir mem]
      refine ⟨?_, directories dir mem⟩
      rintro rfl
      obtain ⟨c, rest, chars, -⟩ := laws.head "" (settled _ mem).absolute
      cases chars
    · rw [List.map_congr_left (g := id) named, List.map_id, firstOfEach_of_nodup nodup]

theorem Laws.resolveExisting_settled (laws : host.Laws)
    (settled : ∀ dir ∈ dirs, host.Settled dir) (nodup : (dirs.map host.normpath).Nodup) :
    host.resolveExistingAdditionalDirs root dirs = dirs := by
  have resolved (dir : String) (mem : dir ∈ dirs) : host.resolvePath root dir = dir :=
    (settled dir mem).resolvePath laws
  rw [resolveExistingAdditionalDirs_eq,
    normalizeAdditionalDirs_of_normal (fun dir mem => (settled dir mem).normal) nodup,
    List.map_congr_left (g := id) resolved, List.map_id, firstOfEach_of_nodup nodup]

/-! ## Writing and reading back -/

theorem clonedTable_clonedTable : clonedTable (clonedTable raw) = clonedTable raw :=
  funext fun key => TomlValue.mapField_mapField TomlLeaf.cloned_cloned (raw key)

variable {key : String} {p : TomlLeaf → Prop} {parsed : Option (List String)}

theorem clonedTable_set {fields : TomlTable} {value : TomlValue} :
    clonedTable (fields.set key value) = (clonedTable fields).set key value.cloned := by
  funext other
  rw [clonedTable, TomlTable.set, TomlTable.set]
  split <;> rfl

/-- The keys of the table `workspace`. -/
def workspaceTable (raw : TomlTable) : TomlTable :=
  match raw "workspace" with
  | some (.table workspace) => workspace
  | _ => TomlTable.empty

theorem workspaceTable_of_table {workspace : TomlTable}
    (present : raw "workspace" = some (.table workspace)) : workspaceTable raw = workspace := by
  rw [workspaceTable, present]

theorem every_workspaceTable (all : TomlValue.EveryField p (raw "workspace")) (key : String) :
    TomlValue.EveryField p (workspaceTable raw key) := by
  rw [workspaceTable]
  rcases present : raw "workspace" with - | (_ | _ | fields)
  · trivial
  · trivial
  · trivial
  · rw [present, TomlValue.EveryField, TomlValue.Every] at all
    exact all key

def stringArray (texts : List String) : TomlValue :=
  .array (texts.map fun text => .leaf (.string text))

theorem stringArray_cloned (texts : List String) :
    (stringArray texts).cloned = stringArray texts := by
  refine congrArg TomlValue.array ?_
  induction texts with
  | nil => rfl
  | cons text texts ih =>
    rw [List.map_cons, TomlValue.mapItems, TomlValue.mapLeaves, ih]
    rfl

theorem stringArray_written (texts : List String) :
    TomlValue.writtenField (some (stringArray texts)) = some (stringArray texts) := by
  refine congrArg (fun items => some (TomlValue.array items)) ?_
  induction texts with
  | nil => rfl
  | cons text texts ih => rw [List.map_cons, TomlValue.writtenItems, TomlValue.written, ih]

theorem arrayOfStrings_stringArray (texts : List String) :
    arrayOfStrings (some (stringArray texts)) = some texts := by
  rw [stringArray, arrayOfStrings, List.mapM_map]
  induction texts with
  | nil => rfl
  | cons text texts ih =>
    rw [List.mapM_cons]
    simp only [Function.comp_apply, Option.pure_def, Option.bind_eq_bind, Option.bind_some]
    exact congrArg (Option.bind · _) ih

theorem withAdditionalDirs_cloned :
    clonedTable (withAdditionalDirs (clonedTable raw) dirs) =
      withAdditionalDirs (clonedTable raw) dirs := by
  have workspace (value : Option TomlValue) :
      clonedTable (cloneRecord value) = cloneRecord value := by
    rcases value with - | (_ | _ | fields)
    · rfl
    · rfl
    · rfl
    · exact clonedTable_clonedTable
  rw [withAdditionalDirs, clonedTable_set, clonedTable_clonedTable, TomlValue.cloned,
    TomlValue.mapLeaves]
  refine congrArg (fun fields => (clonedTable raw).set "workspace" (.table fields)) ?_
  change clonedTable ((cloneRecord _).set "additional_dir" (stringArray dirs)) = _
  rw [clonedTable_set, workspace, stringArray_cloned]
  rfl

/-- What the table that is written says, once it is printed. -/
def rewritten (raw : TomlTable) (dirs : List String) : TomlTable :=
  fun key => TomlValue.writtenField (withAdditionalDirs (clonedTable raw) dirs key)

theorem rewritten_other (ne : key ≠ "workspace") :
    rewritten raw dirs key = TomlValue.writtenField (TomlValue.clonedField (raw key)) := by
  rw [rewritten, withAdditionalDirs, TomlTable.set_other ne, clonedTable]

theorem cloneRecord_clonedTable :
    cloneRecord (clonedTable raw "workspace") = clonedTable (workspaceTable raw) := by
  rw [clonedTable, workspaceTable]
  rcases raw "workspace" with - | (_ | _ | fields)
  · rfl
  · rfl
  · rfl
  · exact clonedTable_clonedTable

theorem rewritten_workspace : rewritten raw dirs "workspace" =
    some (.table fun key => TomlValue.writtenField
      ((clonedTable (workspaceTable raw)).set "additional_dir" (stringArray dirs) key)) := by
  rw [rewritten, withAdditionalDirs, TomlTable.set_self, TomlValue.writtenField_table,
    cloneRecord_clonedTable]
  rfl

theorem workspaceTable_rewritten_other (ne : key ≠ "additional_dir") :
    workspaceTable (rewritten raw dirs) key =
      TomlValue.writtenField (TomlValue.clonedField (workspaceTable raw key)) := by
  rw [workspaceTable_of_table rewritten_workspace]
  exact congrArg TomlValue.writtenField (TomlTable.set_other ne)

theorem parse_rewritten : parseWorkspaceLocalToml (rewritten raw dirs) = .ok (some dirs) := by
  rw [parseWorkspaceLocalToml, rewritten_workspace]
  simp only [TomlTable.set_self, stringArray_written, arrayOfStrings_stringArray]

/-! ## The other keys -/

/-- All keys say the same as before, `workspace.additional_dir` aside. -/
structure OtherKeysKept (raw raw' : TomlTable) : Prop where
  top : ∀ key, key ≠ "workspace" → raw' key = raw key
  workspace : ∀ key, key ≠ "additional_dir" → workspaceTable raw' key = workspaceTable raw key

theorem eq_stringArray {field : Option TomlValue} {texts : List String}
    (strings : arrayOfStrings field = some texts) : field = some (stringArray texts) := by
  rcases field with - | (_ | items | _)
  · cases strings
  · cases strings
  · rw [arrayOfStrings] at strings
    refine congrArg (fun items => some (TomlValue.array items)) ?_
    induction items generalizing texts with
    | nil =>
      cases strings
      rfl
    | cons item items ih =>
      rw [List.mapM_cons] at strings
      simp only [Option.pure_def, Option.bind_eq_bind, Option.bind_eq_some_iff] at strings
      obtain ⟨text, first, rest, found, same⟩ := strings
      cases same
      rw [ih found]
      split at first
      case h_1 =>
        cases first
        rfl
      case h_2 => cases first
  · cases strings

theorem stringArray_every (strings : ∀ text, p (.string text)) (texts : List String) :
    TomlValue.Every p (stringArray texts) := by
  induction texts with
  | nil => trivial
  | cons text texts ih => exact ⟨by rw [TomlValue.Every]; exact strings text, ih⟩

theorem parsed_workspace (accepted : parseWorkspaceLocalToml raw = .ok parsed) :
    raw "workspace" = none ∧ parsed = none ∨
      ∃ workspace texts, raw "workspace" = some (.table workspace) ∧
        workspace "additional_dir" = some (stringArray texts) ∧ parsed = some texts := by
  rw [parseWorkspaceLocalToml] at accepted
  split at accepted
  case h_1 absent =>
    cases accepted
    exact .inl ⟨absent, rfl⟩
  case h_2 workspace present =>
    split at accepted
    case h_1 texts strings =>
      cases accepted
      exact .inr ⟨workspace, texts, present, eq_stringArray strings, rfl⟩
    case h_2 => cases accepted
  case h_3 => cases accepted
  case h_4 => cases accepted

/-- What holds of all strings holds of a file if it holds of the other keys. -/
theorem every_iff_others (strings : ∀ text, p (.string text))
    (accepted : parseWorkspaceLocalToml raw = .ok parsed) :
    TomlValue.Every p (.table raw) ↔
      (∀ key, key ≠ "workspace" → TomlValue.EveryField p (raw key)) ∧
        ∀ key, key ≠ "additional_dir" → TomlValue.EveryField p (workspaceTable raw key) := by
  rw [TomlValue.Every]
  constructor
  · exact fun all => ⟨fun key _ => all key, fun key _ => every_workspaceTable (all _) key⟩
  · rintro ⟨top, inner⟩ key
    by_cases own : key = "workspace"
    · subst own
      obtain ⟨absent, -⟩ | ⟨workspace, texts, present, listed, -⟩ := parsed_workspace accepted
      · rw [absent]
        trivial
      · rw [present, TomlValue.EveryField, TomlValue.Every]
        intro key
        by_cases own : key = "additional_dir"
        · rw [own, listed]
          exact stringArray_every strings texts
        · rw [← workspaceTable_of_table present]
          exact inner key own
    · exact top key own

/-- Rewriting keeps the other keys exactly when JSON has their values. -/
theorem otherKeysKept_iff (free : TomlValue.NullFree (.table raw))
    (accepted : parseWorkspaceLocalToml raw = .ok parsed) :
    OtherKeysKept raw (rewritten raw dirs) ↔ TomlValue.PlainJson (.table raw) := by
  have same (field : Option TomlValue) (free : TomlValue.EveryField (· ≠ .null) field) :
      TomlValue.writtenField (TomlValue.clonedField field) = field ↔ _ :=
    TomlValue.written_clonedField_iff field free
  rw [TomlValue.PlainJson, every_iff_others (fun _ => trivial) accepted]
  constructor
  · intro kept
    refine ⟨fun key top => ?_, fun key own => ?_⟩
    · rw [← same _ (free key), ← rewritten_other top]
      exact kept.top key top
    · rw [← same _ (every_workspaceTable (free _) key), ← workspaceTable_rewritten_other own]
      exact kept.workspace key own
  · rintro ⟨top, inner⟩
    refine ⟨fun key other => ?_, fun key own => ?_⟩
    · rw [rewritten_other other]
      exact (same _ (free key)).2 (top key other)
    · rw [workspaceTable_rewritten_other own]
      exact (same _ (every_workspaceTable (free _) key)).2 (inner key own)

theorem readable_withAdditionalDirs (accepted : parseWorkspaceLocalToml raw = .ok parsed) :
    TomlValue.Readable (.table (withAdditionalDirs (clonedTable raw) dirs)) ↔
      TomlValue.Readable (.table raw) := by
  have workspace : withAdditionalDirs (clonedTable raw) dirs "workspace" = some (.table
      ((clonedTable (workspaceTable raw)).set "additional_dir" (stringArray dirs))) := by
    rw [withAdditionalDirs, TomlTable.set_self, cloneRecord_clonedTable]
    rfl
  have accepted' : parseWorkspaceLocalToml (withAdditionalDirs (clonedTable raw) dirs) =
      .ok (some dirs) := by
    rw [parseWorkspaceLocalToml, workspace]
    simp only [TomlTable.set_self, arrayOfStrings_stringArray]
  have same (field : Option TomlValue) :
      TomlValue.EveryField TomlLeaf.Readable (TomlValue.clonedField field) ↔ _ :=
    TomlValue.every_mapField TomlLeaf.readable_cloned field
  rw [TomlValue.Readable, every_iff_others (fun _ => trivial) accepted',
    every_iff_others (fun _ => trivial) accepted, workspaceTable_of_table workspace]
  refine and_congr (forall₂_congr fun key other => ?_) (forall₂_congr fun key own => ?_)
  · rw [withAdditionalDirs, TomlTable.set_other other]
    exact same _
  · rw [TomlTable.set_other own]
    exact same _

/-! ## The two calls -/

variable (host) in
/-- What the file says, which is nothing when it is not there or blank. -/
def fileTable (disk : Disk) (configPath : String) : TomlTable :=
  match host.readText disk configPath with
  | .ok text =>
    if trim text = "" then TomlTable.empty
    else
      match host.parseToml text with
      | .ok raw => raw
      | .error _ => TomlTable.empty
  | .error _ => TomlTable.empty

/-- The entries of `workspace.additional_dir`. -/
def storedEntries (file : Option WorkspaceLocalTomlFile) : List String :=
  (file.bind (·.additionalDir)).getD []

theorem Laws.read_spec (laws : host.Laws)
    (read : host.readWorkspaceLocalToml disk configPath = .ok file) :
    (file.getD ⟨TomlTable.empty, none⟩).raw = clonedTable (host.fileTable disk configPath) ∧
      TomlValue.NullFree (.table (host.fileTable disk configPath)) ∧
      parseWorkspaceLocalToml (host.fileTable disk configPath) =
        .ok (file.bind (·.additionalDir)) := by
  have free : TomlValue.NullFree (.table TomlTable.empty) := by
    rw [TomlValue.NullFree, TomlValue.Every]
    exact fun _ => trivial
  rw [readWorkspaceLocalToml] at read
  rw [fileTable]
  split at read
  case h_1 absent =>
    cases read
    rw [absent]
    exact ⟨rfl, free, rfl⟩
  case h_2 => cases read
  case h_3 text present =>
    rw [present]
    simp only
    split at read
    case isTrue blank =>
      cases read
      rw [if_pos blank]
      exact ⟨rfl, free, rfl⟩
    case isFalse blank =>
      rw [if_neg blank]
      split at read
      case h_1 => cases read
      case h_2 raw parsed =>
        rw [parsed]
        simp only
        cases accepted : parseWorkspaceLocalToml raw with
        | error =>
          rw [accepted] at read
          cases read
        | ok =>
          rw [accepted] at read
          cases read
          exact ⟨rfl, laws.parse_nullFree text raw parsed, rfl⟩

theorem Laws.print_visible (laws : host.Laws) {text : String}
    (printed : host.stringifyToml (withAdditionalDirs (clonedTable raw) dirs) = .ok text) :
    trim (text ++ "\n") ≠ "" := by
  intro blank
  have absent : rewritten raw dirs "workspace" = none :=
    laws.print_blank _ _ printed blank "workspace"
  cases absent

theorem Laws.read_printed (laws : host.Laws) {text : String}
    (printed : host.stringifyToml (withAdditionalDirs (clonedTable raw) dirs) = .ok text)
    (readable : TomlValue.Readable (.table (withAdditionalDirs (clonedTable raw) dirs)))
    (written : host.writeText disk configPath (text ++ "\n") = .ok disk') :
    host.readWorkspaceLocalToml disk' configPath =
        .ok (some ⟨clonedTable (rewritten raw dirs), some dirs⟩) ∧
      host.fileTable disk' configPath = rewritten raw dirs := by
  have visible := laws.print_visible printed
  have parsed : host.parseToml (text ++ "\n") = .ok (rewritten raw dirs) :=
    laws.parse_print _ _ printed withAdditionalDirs_cloned readable visible
  rw [readWorkspaceLocalToml, fileTable, laws.readText_writeText _ _ _ _ written]
  simp only [if_neg visible, parsed, parse_rewritten]
  exact ⟨rfl, trivial⟩

theorem Laws.load_unreadable (laws : host.Laws) {text : String}
    (printed : host.stringifyToml (withAdditionalDirs (clonedTable raw) dirs) = .ok text)
    (unreadable : ¬ TomlValue.Readable (.table (withAdditionalDirs (clonedTable raw) dirs)))
    (written : host.writeText disk
      (host.getWorkspaceLocalConfigPath (host.findProjectRoot disk' workDir)) (text ++ "\n") =
        .ok disk') :
    host.loadWorkspaceLocalConfig disk' workDir ≠ .ok result := by
  obtain ⟨message, refused⟩ :=
    laws.parse_unreadable _ _ printed withAdditionalDirs_cloned unreadable
  rw [loadWorkspaceLocalConfig, readWorkspaceLocalToml, laws.readText_writeText _ _ _ _ written]
  simp only [if_neg (laws.print_visible printed), refused]
  exact fun no => nomatch no

theorem loadWorkspaceLocalConfig_eq : host.loadWorkspaceLocalConfig disk workDir = (do
    let projectRoot := host.findProjectRoot disk workDir
    let configPath := host.getWorkspaceLocalConfigPath projectRoot
    let file ← host.readWorkspaceLocalToml disk configPath
    let dirs ← host.resolveAdditionalDirs disk projectRoot (storedEntries file)
    return ⟨projectRoot, configPath, dirs⟩) := by
  refine congrArg (Except.bind _) (funext fun file => ?_)
  rw [storedEntries]
  cases file.bind (·.additionalDir) <;> rfl

theorem load_eq_ok (read : host.readWorkspaceLocalToml disk
      (host.getWorkspaceLocalConfigPath (host.findProjectRoot disk workDir)) = .ok file) :
    host.loadWorkspaceLocalConfig disk workDir = .ok result ↔
      host.resolveAdditionalDirs disk (host.findProjectRoot disk workDir) (storedEntries file) =
          .ok result.additionalDirs ∧
        result.projectRoot = host.findProjectRoot disk workDir ∧
        result.configPath = host.getWorkspaceLocalConfigPath result.projectRoot := by
  rw [loadWorkspaceLocalConfig_eq]
  simp only [read, bind, Except.bind]
  cases host.resolveAdditionalDirs disk (host.findProjectRoot disk workDir)
    (storedEntries file) with
  | error error => simp
  | ok dirs =>
    obtain ⟨root, path, loaded⟩ := result
    simp only [pure, Except.pure, Except.ok.injEq,
      WorkspaceAdditionalDirsLoadResult.mk.injEq]
    constructor
    · rintro ⟨rfl, rfl, rfl⟩
      exact ⟨rfl, rfl, rfl⟩
    · rintro ⟨rfl, rfl, rfl⟩
      exact ⟨rfl, rfl, rfl⟩

theorem searchRoot_congr {initial current : String}
    (same : ∀ path, host.pathExists disk' (host.join [path, ".git"]) =
      host.pathExists disk (host.join [path, ".git"])) :
    host.searchRoot disk' initial current = host.searchRoot disk initial current := by
  fun_induction host.searchRoot disk initial current with
  | case1 current found => rw [searchRoot, if_pos (by rw [same]; exact found)]
  | case2 current missing top =>
    rw [searchRoot, if_neg (by rw [same]; exact missing), dif_pos top]
  | case3 current missing top ih =>
    rw [searchRoot, if_neg (by rw [same]; exact missing), dif_neg top, ih]

theorem append_listed
    (named : trim inputPath ≠ "" ∧
      host.isDirectory disk (host.namedDir workDir inputPath) = .ok true)
    (read : host.readWorkspaceLocalToml disk
      (host.getWorkspaceLocalConfigPath (host.findProjectRoot disk workDir)) = .ok file)
    (listed : host.hasSameAdditionalDir
      (host.resolveExistingAdditionalDirs (host.findProjectRoot disk workDir) (storedEntries file))
      (host.namedDir workDir inputPath)) :
    host.appendWorkspaceAdditionalDir disk workDir inputPath current =
      .ok (disk, ⟨host.findProjectRoot disk workDir,
        host.getWorkspaceLocalConfigPath (host.findProjectRoot disk workDir),
        host.resolveExistingAdditionalDirs (host.findProjectRoot disk workDir)
          (storedEntries file)⟩) := by
  have entries : (file.getD ⟨TomlTable.empty, none⟩).additionalDir.getD [] =
      storedEntries file := by
    cases file <;> rfl
  rw [appendWorkspaceAdditionalDir]
  simp only [resolveAdditionalDir_eq_ok.2 ⟨named, rfl⟩, read, bind, Except.bind, entries, listed,
    if_true]
  rfl

/-- Everything that adding a directory can do. -/
theorem append_cases
    (appended : host.appendWorkspaceAdditionalDir disk workDir inputPath current =
      .ok (disk', result)) :
    ∃ root path file existing,
      root = host.findProjectRoot disk workDir ∧ path = host.getWorkspaceLocalConfigPath root ∧
      host.readWorkspaceLocalToml disk path = .ok file ∧
      existing = host.resolveExistingAdditionalDirs root (storedEntries file) ∧
      (trim inputPath ≠ "" ∧ host.isDirectory disk (host.namedDir workDir inputPath) = .ok true) ∧
      (host.hasSameAdditionalDir existing (host.namedDir workDir inputPath) ∧ disk' = disk ∧
          result = ⟨root, path, existing⟩ ∨
        ¬ host.hasSameAdditionalDir existing (host.namedDir workDir inputPath) ∧
          result = ⟨root, path, existing ++ [host.namedDir workDir inputPath]⟩ ∧
          ∃ made text, host.mkdir disk (host.dirname path) = .ok made ∧
            host.stringifyToml (withAdditionalDirs (file.getD ⟨TomlTable.empty, none⟩).raw
              (existing ++ [host.namedDir workDir inputPath])) = .ok text ∧
            host.writeText made path (text ++ "\n") = .ok disk') := by
  cases resolved : host.resolveAdditionalDir disk workDir inputPath with
  | error =>
    rw [appendWorkspaceAdditionalDir, resolved] at appended
    cases appended
  | ok =>
    obtain ⟨named, rfl⟩ := resolveAdditionalDir_eq_ok.1 resolved
    cases read : host.readWorkspaceLocalToml disk
        (host.getWorkspaceLocalConfigPath (host.findProjectRoot disk workDir)) with
    | error error =>
      rw [appendWorkspaceAdditionalDir, resolved, read] at appended
      cases appended
    | ok file =>
      refine ⟨_, _, file, _, rfl, rfl, read, rfl, named, ?_⟩
      by_cases listed : host.hasSameAdditionalDir
          (host.resolveExistingAdditionalDirs (host.findProjectRoot disk workDir)
            (storedEntries file)) (host.namedDir workDir inputPath)
      · rw [append_listed named read listed] at appended
        cases appended
        exact .inl ⟨listed, rfl, rfl⟩
      · have entries : (file.getD ⟨TomlTable.empty, none⟩).additionalDir.getD [] =
            storedEntries file := by
          cases file <;> rfl
        rw [appendWorkspaceAdditionalDir] at appended
        simp only [resolved, read, bind, Except.bind, entries, listed, uncaught, printToml]
          at appended
        rw [if_neg Bool.false_ne_true] at appended
        generalize (file.getD ⟨TomlTable.empty, none⟩).raw = raw at *
        generalize host.resolveExistingAdditionalDirs (host.findProjectRoot disk workDir)
          (storedEntries file) ++ [host.namedDir workDir inputPath] = dirs at *
        generalize host.getWorkspaceLocalConfigPath (host.findProjectRoot disk workDir) = path at *
        refine .inr ⟨listed, ?_⟩
        cases made : host.mkdir disk (host.dirname path) with
        | error =>
          rw [made] at appended
          cases appended
        | ok madeDisk =>
          cases printed : host.stringifyToml (withAdditionalDirs raw dirs) with
          | error =>
            rw [made, printed] at appended
            cases appended
          | ok text =>
            rw [made, printed] at appended
            cases written : host.writeText madeDisk path (text ++ "\n") with
            | error =>
              simp only [written] at appended
              cases appended
            | ok =>
              simp only [written] at appended
              cases appended
              exact ⟨rfl, madeDisk, text, rfl, rfl, written⟩

/-! ## Adding a directory -/

/-- The loaded directories with the added one, unless it is one of them. -/
def withDir (host : WorkspaceHost Disk) (dirs : List String) (added : String) : List String :=
  if host.hasSameAdditionalDir dirs added then dirs else dirs ++ [added]

/-- After a directory was added, the file loads as before with the new directory at the end, and
with the same other keys; what was returned is what loads; and adding it again changes nothing. -/
structure Preserved (host : WorkspaceHost Disk) (disk disk' : Disk) (workDir inputPath : String)
    (before result : WorkspaceAdditionalDirsLoadResult) : Prop where
  reloads : host.loadWorkspaceLocalConfig disk' workDir =
    .ok { before with
      additionalDirs := host.withDir before.additionalDirs (host.namedDir workDir inputPath) }
  others : OtherKeysKept (host.fileTable disk before.configPath)
    (host.fileTable disk' before.configPath)
  returned : host.loadWorkspaceLocalConfig disk' workDir = .ok result
  again : ∀ current,
    host.appendWorkspaceAdditionalDir disk' workDir inputPath current = .ok (disk', result)

/-- The entries of the file, none when it cannot be read. -/
def fileEntries (host : WorkspaceHost Disk) (disk : Disk) (configPath : String) : List String :=
  match host.readWorkspaceLocalToml disk configPath with
  | .ok file => storedEntries file
  | .error _ => []

theorem Laws.findProjectRoot_written (laws : host.Laws) {text : String} {made : Disk}
    (rootExists : host.pathExists disk (host.findProjectRoot disk workDir))
    (mkdir : host.mkdir disk (host.dirname
      (host.getWorkspaceLocalConfigPath (host.findProjectRoot disk workDir))) = .ok made)
    (written : host.writeText made
      (host.getWorkspaceLocalConfigPath (host.findProjectRoot disk workDir)) text = .ok disk') :
    host.findProjectRoot disk' workDir = host.findProjectRoot disk workDir := by
  refine searchRoot_congr fun path => Bool.eq_iff_iff.2 ⟨fun found => ?_, fun found => ?_⟩
  · exact laws.mkdir_git _ _ _ rootExists mkdir path
      (laws.writeText_git _ _ _ _ written path found)
  · rw [pathExists] at found ⊢
    cases stat : host.isDirectory disk (host.join [path, ".git"]) with
    | error =>
      rw [stat] at found
      cases found
    | ok =>
      rw [laws.writeText_keeps _ _ _ _ written _ _ (laws.mkdir_keeps _ _ _ mkdir _ _ stat)]

/-- Where no stored entry has white space around it, adding a directory preserves the others
exactly when the file is left alone, or no directory in it has white space around it, JSON has all
of its values and the parser takes back all of its numbers. -/
theorem preserved_iff (laws : host.Laws)
    (rootExists : host.pathExists disk (host.findProjectRoot disk workDir))
    (loaded : host.loadWorkspaceLocalConfig disk workDir = .ok before)
    (trimmed : ∀ dir ∈ host.normalizeAdditionalDirs (host.fileEntries disk before.configPath),
      trim dir = dir)
    (appended : host.appendWorkspaceAdditionalDir disk workDir inputPath current =
      .ok (disk', result)) :
    host.Preserved disk disk' workDir inputPath before result ↔
      host.hasSameAdditionalDir before.additionalDirs (host.namedDir workDir inputPath) ∨
        (∀ dir ∈ before.additionalDirs ++ [host.namedDir workDir inputPath], trim dir = dir) ∧
          TomlValue.PlainJson (.table (host.fileTable disk before.configPath)) ∧
          TomlValue.Readable (.table (host.fileTable disk before.configPath)) := by
  obtain ⟨root, path, file, existing, rfl, rfl, read, rfl, named, outcome⟩ := append_cases appended
  obtain ⟨resolved, sameRoot, samePath⟩ := (load_eq_ok read).1 loaded
  obtain ⟨root, path, dirs⟩ := before
  simp only at resolved sameRoot samePath trimmed ⊢
  subst sameRoot samePath
  rw [fileEntries, read] at trimmed
  have same := laws.resolveExisting_eq trimmed resolved
  rcases outcome with ⟨listed, rfl, rfl⟩ | ⟨new, rfl, made, text, mkdir, printed, written⟩
  · rw [same] at listed
    refine iff_of_true ?_ (.inl listed)
    exact {
      reloads := by rw [withDir, if_pos listed]; exact loaded
      others := ⟨fun _ _ => rfl, fun _ _ => rfl⟩
      returned := by rw [same]; exact loaded
      again := fun current => append_listed named read (by rw [same]; exact listed) }
  · rw [same] at new printed
    obtain ⟨raw, free, accepted⟩ := laws.read_spec read
    rw [raw] at printed
    have root' := laws.findProjectRoot_written rootExists mkdir written
    by_cases readable : TomlValue.Readable (.table (host.fileTable disk
      (host.getWorkspaceLocalConfigPath (host.findProjectRoot disk workDir))))
    case neg =>
      refine iff_of_false (fun kept => ?_) fun either =>
        either.elim new fun all => readable all.2.2
      exact laws.load_unreadable printed (mt (readable_withAdditionalDirs accepted).1 readable)
        (by rw [root']; exact written) kept.returned
    obtain ⟨read', table'⟩ :=
      laws.read_printed printed ((readable_withAdditionalDirs accepted).2 readable) written
    have keeps (dir : String) (there : host.isDirectory disk dir = .ok true) :
        host.isDirectory disk' dir = .ok true :=
      laws.writeText_keeps _ _ _ _ written _ _ (laws.mkdir_keeps _ _ _ mkdir _ _ there)
    have settled : ∀ dir ∈ dirs ++ [host.namedDir workDir inputPath], host.Settled dir := by
      intro dir mem
      rcases List.mem_append.1 mem with mem | mem
      · rw [← same] at mem
        exact laws.settled_of_mem mem
      · rw [List.mem_singleton.1 mem]
        exact laws.settled_resolvePath
    have nodup : ((dirs ++ [host.namedDir workDir inputPath]).map host.normpath).Nodup := by
      have before : (dirs.map host.normpath).Nodup := same ▸ nodup_resolveExisting
      have after : ((keep host.normpath dirs (host.namedDir workDir inputPath)).map
        host.normpath).Nodup := nodup_keep before
      have fresh : ¬ hasKey host.normpath dirs (host.namedDir workDir inputPath) := new
      rwa [keep, if_neg fresh] at after
    have directories : ∀ dir ∈ dirs ++ [host.namedDir workDir inputPath],
        host.isDirectory disk' dir = .ok true := by
      obtain ⟨named', dirsEq⟩ := resolveAdditionalDirs_eq_ok.1 resolved
      intro dir mem
      rcases List.mem_append.1 mem with mem | mem
      · rw [dirsEq] at mem
        obtain ⟨entry, inside, rfl⟩ := List.mem_map.1 (firstOfEach_sublist.subset mem)
        exact keeps _ (named' entry inside).2
      · rw [List.mem_singleton.1 mem]
        exact keeps _ named.2
    have longer : host.withDir dirs (host.namedDir workDir inputPath) =
        dirs ++ [host.namedDir workDir inputPath] := if_neg new
    rw [← root'] at read'
    have reloads : host.loadWorkspaceLocalConfig disk' workDir =
          .ok ⟨host.findProjectRoot disk workDir,
            host.getWorkspaceLocalConfigPath (host.findProjectRoot disk workDir),
            dirs ++ [host.namedDir workDir inputPath]⟩ ↔
        ∀ dir ∈ dirs ++ [host.namedDir workDir inputPath], trim dir = dir := by
      rw [load_eq_ok read', root', and_iff_left ⟨rfl, rfl⟩]
      exact laws.resolveAdditionalDirs_settled_iff settled nodup directories
    rw [or_iff_right new, and_iff_left readable, ← reloads, ← otherKeysKept_iff free accepted,
      ← table']
    constructor
    · intro kept
      refine ⟨?_, kept.others⟩
      rw [kept.reloads, longer]
    · rintro ⟨again, others⟩
      refine {
        reloads := by rw [longer]; exact again
        others := others
        returned := by rw [same]; exact again
        again := fun current => ?_ }
      have existing : host.resolveExistingAdditionalDirs (host.findProjectRoot disk' workDir)
          (dirs ++ [host.namedDir workDir inputPath]) = _ :=
        laws.resolveExisting_settled settled nodup
      have listed : host.hasSameAdditionalDir (dirs ++ [host.namedDir workDir inputPath])
          (host.namedDir workDir inputPath) :=
        hasKey_iff.2 (List.mem_map_of_mem (List.mem_append_right _ (List.mem_singleton_self _)))
      rw [append_listed ⟨named.1, keeps _ named.2⟩ read' (existing.symm ▸ listed), root', same]
      rw [root'] at existing
      exact congrArg (fun dirs => Except.ok (disk', WorkspaceAdditionalDirsLoadResult.mk _ _ dirs))
        existing

/-! ## A project with one entry -/

/-- The file that lists `dirs`. -/
def demoTable (dirs : List String) : TomlTable :=
  TomlTable.empty.set "workspace"
    (.table (TomlTable.empty.set "additional_dir" (stringArray dirs)))

def demoText (dirs : List String) : String :=
  let items := dirs.map fun dir => "\"" ++ dir ++ "\""
  "[workspace]\nadditional_dir = [ " ++ ", ".intercalate items ++ " ]\n"

def demoConfig : String := "/w/.kimi-code/local.toml"

def demoDirectories : List String := ["/w", "/w/.git", "/w/.kimi-code", "/w/foo", "/w/bar"]

/-- The lists of directories that occur. -/
def demoLists : List (List String) :=
  [["foo"], [" foo"], ["/w/foo", "/w/bar"], ["/w/ foo", "/w/bar"]]

open Classical in
theorem demo_dirname_depth (path : String) :
    (if path = demoConfig then "/w/.kimi-code" else "/") ≠ path →
      (if (if path = demoConfig then "/w/.kimi-code" else "/") = demoConfig then 2
        else if (if path = demoConfig then "/w/.kimi-code" else "/") = "/" then 0 else 1) <
      if path = demoConfig then 2 else if path = "/" then 0 else 1 := by
  by_cases config : path = demoConfig
  · intro _
    rw [if_pos config, if_pos config, if_neg (by decide), if_neg (by decide)]
    exact Nat.one_lt_two
  · rw [if_neg config, if_neg config, if_neg (by decide), if_pos rfl]
    intro below
    rw [if_neg (Ne.symm below)]
    exact Nat.one_pos

open Classical in
/-- The project `/w` with the directories `foo` and `bar`, where the disk is what `local.toml`
holds. -/
noncomputable def demoHost : WorkspaceHost (Option String) where
  normalize path := path
  isAbsolute path := path.toList.head? = some '/'
  resolve base path :=
    String.ofList ('/' :: (base.toList.dropWhile (· = '/') ++ '/' :: path.toList))
  join names := "/".intercalate names
  dirname path := if path = demoConfig then "/w/.kimi-code" else "/"
  depth path := if path = demoConfig then 2 else if path = "/" then 0 else 1
  dirname_depth := demo_dirname_depth
  getcwd := "/w"
  gethome := "/home"
  normpath path := path
  isDirectory _ path :=
    if path ∈ demoDirectories then .ok true
    else .error (.missing "ENOENT")
  readText disk path :=
    match disk with
    | some text => if path = demoConfig then .ok text else .error (.missing "ENOENT")
    | none => .error (.missing "ENOENT")
  mkdir disk path := if path = "/w/.kimi-code" then .ok disk else .error (.other "EACCES")
  writeText _ path text := if path = demoConfig then .ok (some text) else .error (.other "EACCES")
  parseToml text :=
    match demoLists.find? fun dirs => text = demoText dirs ∨ text = demoText dirs ++ "\n" with
    | some dirs => .ok (demoTable dirs)
    | none => .error "Invalid TOML"
  stringifyToml raw :=
    if raw = demoTable ["/w/foo", "/w/bar"] then .ok (demoText ["/w/foo", "/w/bar"])
    else if raw = demoTable ["/w/ foo", "/w/bar"] then .ok (demoText ["/w/ foo", "/w/bar"])
    else .error "unknown"

theorem demoTable_written (dirs : List String) :
    (fun key => TomlValue.writtenField (demoTable dirs key)) = demoTable dirs := by
  have field (key : String) (table : TomlTable) (value : TomlValue)
      (kept : TomlValue.writtenField (some value) = some value)
      (rest : ∀ other, table other = none) (other : String) :
      TomlValue.writtenField (table.set key value other) = table.set key value other := by
    rw [TomlTable.set]
    split
    case isTrue => exact kept
    case isFalse => rw [rest, TomlValue.writtenField]
  funext key
  refine field _ _ _ ?_ (fun _ => rfl) key
  exact congrArg (fun fields => some (TomlValue.table fields))
    (funext (field _ _ _ (stringArray_written dirs) fun _ => rfl))

theorem demoTable_every (strings : ∀ text, p (.string text)) (dirs : List String) :
    TomlValue.Every p (.table (demoTable dirs)) := by
  have field (key : String) (table : TomlTable) (value : TomlValue)
      (every : TomlValue.Every p value) (rest : ∀ other, table other = none) :
      TomlValue.Every p (.table (table.set key value)) := by
    intro other
    rw [TomlTable.set]
    split
    case isTrue => exact every
    case isFalse =>
      rw [rest]
      trivial
  exact field _ _ _ (field _ _ _ (stringArray_every strings dirs) fun _ => rfl) fun _ => rfl

theorem demoHost_isAbsolute : demoHost.isAbsolute path ↔ path.toList.head? = some '/' := by
  simp only [demoHost, decide_eq_true_eq]

theorem demoHost_directory {disk : Option String} :
    demoHost.isDirectory disk path = .ok true ↔ path ∈ demoDirectories := by
  simp only [demoHost]
  split
  case isTrue mem => exact iff_of_true rfl mem
  case isFalse absent => exact iff_of_false nofun absent

/-- `demoText`, character by character. -/
def demoChars (dirs : List String) : List Char :=
  "[workspace]\nadditional_dir = [ ".toList ++
    ", ".toList.intercalate (dirs.map fun dir => "\"".toList ++ dir.toList ++ "\"".toList) ++
      " ]\n".toList

theorem toList_demoText (dirs : List String) : (demoText dirs).toList = demoChars dirs := by
  have items : (dirs.map fun dir => "\"" ++ dir ++ "\"").map String.toList =
      dirs.map fun dir => "\"".toList ++ dir.toList ++ "\"".toList := by
    rw [List.map_map]
    refine List.map_congr_left fun dir _ => ?_
    rw [Function.comp_apply, String.toList_append, String.toList_append]
  unfold demoText demoChars
  rw [← items]
  rw [String.toList_append, String.toList_append, String.toList_intercalate]

theorem demoChars_found : ∀ dirs ∈ demoLists,
    ∀ text ∈ [demoChars dirs, demoChars dirs ++ "\n".toList],
      trimEndChars (trimStartChars text) ≠ [] ∧
        demoLists.find? (fun other => text = demoChars other ∨
          text = demoChars other ++ "\n".toList) = some dirs := by
  decide +kernel

theorem demoText_found : ∀ dirs ∈ demoLists, ∀ text ∈ [demoText dirs, demoText dirs ++ "\n"],
    trim text ≠ "" ∧
      demoLists.find? (fun other => text = demoText other ∨ text = demoText other ++ "\n") =
        some dirs := by
  intro dirs mem text same
  obtain ⟨visible, found⟩ := demoChars_found dirs mem text.toList (by
    rw [← toList_demoText, ← String.toList_append]
    exact List.mem_map_of_mem (f := String.toList) same)
  refine ⟨fun blank => visible (String.ofList_eq_empty_iff.1 blank), ?_⟩
  simpa only [← toList_demoText, ← String.toList_append, String.toList_inj] using found

theorem trim_slash {rest : List Char} (chars : path.toList = '/' :: rest) :
    (trim path).toList.head? = some '/' := by
  rw [trim, String.toList_ofList, chars, trimStartChars, List.dropWhile_cons_of_neg (by decide)]
  cases kept : trimEndChars ('/' :: rest) with
  | nil =>
    have blank := List.rdropWhile_eq_nil_iff.1 kept '/' (List.mem_cons_self ..)
    cases blank
  | cons =>
    have begins := List.rdropWhile_prefix isJsSpace ('/' :: rest)
    rw [← trimEndChars, kept, List.cons_prefix_cons] at begins
    rw [List.head?_cons, begins.1]

theorem demoHost_laws : demoHost.Laws where
  head path absolute := by
    obtain ⟨rest, chars⟩ := List.head?_eq_some_iff.1 (demoHost_isAbsolute.1 absolute)
    exact ⟨'/', rest, chars, by decide⟩
  absolute_normalize path absolute := absolute
  absolute_trim path absolute := by
    obtain ⟨rest, chars⟩ := List.head?_eq_some_iff.1 (demoHost_isAbsolute.1 absolute)
    exact demoHost_isAbsolute.2 (trim_slash chars)
  absolute_resolve base path := by
    rw [demoHost_isAbsolute]
    simp only [demoHost, String.toList_ofList, List.head?_cons]
  normalize_normalize path := rfl
  normalize_resolve base path := rfl
  length_normalize path _ := le_rfl
  mkdir_keeps disk disk' path _ other kind stat := stat
  writeText_keeps disk disk' path text _ other kind stat := stat
  mkdir_git disk disk' root _ _ other found := found
  writeText_git disk disk' root text _ other found := found
  readText_writeText disk disk' path text written := by
    simp only [demoHost] at written ⊢
    split at written
    case isTrue config =>
      cases written
      exact if_pos config
    case isFalse => cases written
  parse_nullFree text raw parsed := by
    simp only [demoHost] at parsed
    split at parsed
    case h_1 dirs _ =>
      cases parsed
      exact demoTable_every (fun _ => by simp) dirs
    case h_2 => cases parsed
  parse_unreadable raw text printed _ unreadable := by
    refine absurd ?_ unreadable
    simp only [demoHost] at printed
    split at printed
    case isTrue same => exact same ▸ demoTable_every (fun _ => trivial) _
    case isFalse =>
      split at printed
      case isTrue same => exact same ▸ demoTable_every (fun _ => trivial) _
      case isFalse => cases printed
  parse_print raw text printed _ _ _ := by
    simp only [demoHost] at printed ⊢
    split at printed
    case isTrue same =>
      cases printed
      rw [(demoText_found ["/w/foo", "/w/bar"] (by decide) _ (by simp)).2, same, demoTable_written]
    case isFalse =>
      split at printed
      case isTrue same =>
        cases printed
        rw [(demoText_found ["/w/ foo", "/w/bar"] (by decide) _ (by simp)).2, same,
          demoTable_written]
      case isFalse => cases printed
  print_blank raw text printed blank := by
    simp only [demoHost] at printed
    split at printed
    case isTrue =>
      cases printed
      exact absurd blank (demoText_found ["/w/foo", "/w/bar"] (by decide) _ (by simp)).1
    case isFalse =>
      split at printed
      case isTrue =>
        cases printed
        exact absurd blank (demoText_found ["/w/ foo", "/w/bar"] (by decide) _ (by simp)).1
      case isFalse => cases printed

theorem demoHost_findProjectRoot (disk : Option String) :
    demoHost.findProjectRoot disk "/w" = "/w" := by
  have work : demoHost.resolveWorkDir "/w" = "/w" := by
    exact if_pos (by decide)
  have git : demoHost.join ["/w", ".git"] = "/w/.git" := rfl
  rw [findProjectRoot, work, searchRoot, if_pos]
  rw [git, pathExists, demoHost_directory.2 (by decide)]

theorem demoHost_configPath : demoHost.getWorkspaceLocalConfigPath "/w" = demoConfig := rfl

theorem demoHost_read {text : String} (mem : dirs ∈ demoLists)
    (same : text = demoText dirs ∨ text = demoText dirs ++ "\n") :
    demoHost.readWorkspaceLocalToml (some text) demoConfig =
        .ok (some ⟨clonedTable (demoTable dirs), some dirs⟩) ∧
      demoHost.fileTable (some text) demoConfig = demoTable dirs := by
  have present : demoHost.readText (some text) demoConfig = .ok text := by
    simp only [demoHost, if_true]
  obtain ⟨visible, found⟩ := demoText_found dirs mem text (by simpa using same)
  have parsed : demoHost.parseToml text = .ok (demoTable dirs) := by
    simp only [demoHost, found]
  have accepted : parseWorkspaceLocalToml (demoTable dirs) = .ok (some dirs) := by
    rw [parseWorkspaceLocalToml, demoTable, TomlTable.set_self]
    simp only [TomlTable.set_self, arrayOfStrings_stringArray]
  rw [readWorkspaceLocalToml, fileTable, present]
  simp only [if_neg visible, parsed, accepted]
  exact ⟨rfl, trivial⟩

theorem demoTable_with {dirs' : List String} :
    withAdditionalDirs (clonedTable (demoTable dirs)) dirs' = demoTable dirs' := by
  have table : workspaceTable (demoTable dirs) = _ := workspaceTable_of_table TomlTable.set_self
  rw [withAdditionalDirs, cloneRecord_clonedTable, table, clonedTable_set, TomlTable.set_set,
    demoTable, clonedTable_set, TomlTable.set_set]
  rfl

theorem demoHost_append (entries dirs current : List String) (mem : entries ∈ demoLists)
    (existing : demoHost.resolveExistingAdditionalDirs "/w" entries = dirs)
    (new : demoHost.hasSameAdditionalDir dirs "/w/bar" = false)
    (printed : demoHost.stringifyToml (demoTable (dirs ++ ["/w/bar"])) =
      .ok (demoText (dirs ++ ["/w/bar"]))) :
    demoHost.appendWorkspaceAdditionalDir (some (demoText entries)) "/w" "bar" current =
      .ok (some (demoText (dirs ++ ["/w/bar"]) ++ "\n"),
        ⟨"/w", demoConfig, dirs ++ ["/w/bar"]⟩) := by
  have named : demoHost.resolveAdditionalDir (some (demoText entries)) "/w" "bar" =
      .ok "/w/bar" := resolveAdditionalDir_eq_ok.2 (by
    have dir : demoHost.namedDir "/w" "bar" = "/w/bar" := rfl
    exact ⟨⟨by decide, demoHost_directory.2 (by decide)⟩, rfl⟩)
  have read := (demoHost_read mem (.inl rfl)).1
  have made : demoHost.mkdir (some (demoText entries)) (demoHost.dirname demoConfig) =
      .ok (some (demoText entries)) := by
    simp only [demoHost, if_true]
  have written (text : String) : demoHost.writeText (some (demoText entries)) demoConfig text =
      .ok (some text) := by
    simp only [demoHost, if_true]
  rw [appendWorkspaceAdditionalDir, demoHost_findProjectRoot]
  simp only [demoHost_configPath, named, read, existing, new, made, uncaught, printToml, bind,
    Except.bind, Option.getD_some, demoTable_with, printed, written]
  rfl

theorem demoHost_load {text : String} (mem : entries ∈ demoLists)
    (same : text = demoText entries ∨ text = demoText entries ++ "\n") :
    demoHost.loadWorkspaceLocalConfig (some text) "/w" = .ok ⟨"/w", demoConfig, dirs⟩ ↔
      demoHost.resolveAdditionalDirs (some text) "/w" entries = .ok dirs := by
  have read := (demoHost_read mem same).1
  rw [← demoHost_configPath, ← demoHost_findProjectRoot (some text)] at read
  rw [load_eq_ok read, demoHost_findProjectRoot, and_iff_left ⟨rfl, demoHost_configPath.symm⟩]
  rfl

theorem demoHost_rootExists (disk : Option String) :
    demoHost.pathExists disk (demoHost.findProjectRoot disk "/w") := by
  rw [demoHost_findProjectRoot, pathExists, demoHost_directory.2 (by decide)]

theorem demoHost_resolved (entries : List String) {disk : Option String}
    (visible : ∀ dir ∈ demoHost.normalizeAdditionalDirs entries, trim dir ≠ "")
    (inside : ∀ dir ∈ demoHost.normalizeAdditionalDirs entries,
      demoHost.namedDir "/w" dir ∈ demoDirectories) :
    demoHost.resolveAdditionalDirs disk "/w" entries =
      .ok (firstOfEach demoHost.normpath
        ((demoHost.normalizeAdditionalDirs entries).map (demoHost.namedDir "/w"))) :=
  resolveAdditionalDirs_eq_ok.2
    ⟨fun dir mem => ⟨visible dir mem, demoHost_directory.2 (inside dir mem)⟩, rfl⟩

theorem demoTable_inj {dirs' : List String} (same : demoTable dirs = demoTable dirs') :
    dirs = dirs' := by
  have top := congrFun same "workspace"
  have inner := congrFun (TomlValue.table.inj (Option.some.inj top)) "additional_dir"
  rw [TomlTable.set_self, TomlTable.set_self] at inner
  have strings := arrayOfStrings_stringArray dirs
  rw [inner, arrayOfStrings_stringArray] at strings
  exact (Option.some.inj strings).symm

theorem demoHost_printed (dir : String) (known : dir = "/w/foo" ∨ dir = "/w/ foo") :
    demoHost.stringifyToml (demoTable ([dir] ++ ["/w/bar"])) =
      .ok (demoText ([dir] ++ ["/w/bar"])) := by
  simp only [demoHost]
  rcases known with rfl | rfl
  · exact if_pos rfl
  · rw [if_neg fun same => absurd (demoTable_inj same) (by decide)]
    exact if_pos rfl

/-- Of the entry ` foo` the white space is trimmed off when it is loaded, and kept when `bar` is
added. -/
theorem spaced_entry_renamed : ¬ ∀ (Disk : Type) (host : WorkspaceHost Disk) (disk disk' : Disk)
    (workDir inputPath : String) (current : List String)
    (before result : WorkspaceAdditionalDirsLoadResult), host.Laws →
    host.pathExists disk (host.findProjectRoot disk workDir) →
    host.loadWorkspaceLocalConfig disk workDir = .ok before →
    host.appendWorkspaceAdditionalDir disk workDir inputPath current = .ok (disk', result) →
    host.Preserved disk disk' workDir inputPath before result := by
  intro claim
  have loaded := (demoHost_load (by decide) (.inl rfl)).2
    (demoHost_resolved [" foo"] (by decide +kernel) (by decide +kernel))
  have appended := demoHost_append [" foo"] ["/w/ foo"] [] (by decide) (by decide +kernel)
    (by decide +kernel) (demoHost_printed _ (.inr rfl))
  have returned := (claim _ demoHost _ _ _ _ _ _ _ demoHost_laws (demoHost_rootExists _) loaded
    appended).returned
  rw [demoHost_load (by decide) (.inr rfl), resolveAdditionalDirs_eq_ok] at returned
  have there := (returned.1 "/w/ foo" (by decide +kernel)).2
  rw [demoHost_directory] at there
  exact absurd there (by decide +kernel)

theorem preserved_plain : demoHost.Preserved (some (demoText ["foo"]))
    (some (demoText (["/w/foo"] ++ ["/w/bar"]) ++ "\n")) "/w" "bar"
    ⟨"/w", demoConfig, ["/w/foo"]⟩ ⟨"/w", demoConfig, ["/w/foo"] ++ ["/w/bar"]⟩ := by
  have dirs : firstOfEach demoHost.normpath ((demoHost.normalizeAdditionalDirs ["foo"]).map
      (demoHost.namedDir "/w")) = ["/w/foo"] := by decide +kernel
  have loaded := (demoHost_load (by decide) (.inl rfl)).2
    (demoHost_resolved ["foo"] (by decide +kernel) (by decide +kernel))
  have appended := demoHost_append ["foo"] ["/w/foo"] [] (by decide) (by decide +kernel)
    (by decide +kernel) (demoHost_printed _ (.inl rfl))
  have read := demoHost_read (by decide) (.inl (rfl : demoText ["foo"] = _))
  refine (preserved_iff demoHost_laws (demoHost_rootExists _) loaded ?_ appended).2
    (.inr ⟨by decide +kernel, ?_⟩)
  · decide +kernel
  · exact ⟨demoTable_every (fun _ => trivial) _, demoTable_every (fun _ => trivial) _⟩

end WorkspaceHost

end KimiCli
