import KimiCli.Lib.TaskMachine
import KimiCli.Workspace.RegistryFile

/-!
# The operations of the workspace registry

`WorkspaceRegistryService`: each operation as a task that asks the file system for one thing after
the other, with `runExclusive` as the exclusive section.  `workspaces.json` and its temporary file
belong to the registry; everything else on the disk may change at any time.
-/

open Tasks

namespace KimiCli.WorkspaceRegistry

inductive Errno
  | ENOENT
  | ENOTDIR
  | other (code : String)

structure Dirent where
  name : String
  isDirectory : Bool

structure GitInfo where
  is_git_repo : Bool
  branch : Option String

structure Workspace where
  id : String
  root : String
  name : String
  is_git_repo : Bool
  branch : Option String
  created_at : String
  last_opened_at : String
  session_count : ℕ

inductive WorkspaceRegistryEvent
  | created (workspace : Workspace)
  | updated (workspace : Workspace)
  | deleted (workspace_id root : String)

inductive RegistryError
  | workspaceNotFound (workspaceId : String)
  | rootNotFound (root : String)
  | system (code : Errno)

/-- What the service takes from the session store and the host. -/
structure RegistryHost where
  homeDir : String
  join : String → String → String
  normalizeWorkDir : String → String
  encodeWorkDirKey : String → String
  posixBasename : String → String
  /-- `result.sort((a, b) => (b.last_opened_at < a.last_opened_at ? -1 : 1))`. -/
  sort : List Workspace → List Workspace
  sort_perm : ∀ list, (sort list).Perm list

/-! ## The disk -/

/-- What can be asked; the JSON files with the value that `JSON.parse` gives for them. -/
inductive RegistryOp
  | stat (path : String)
  | mkdir (path : String)
  | now
  | readRegistryFile
  | writeTmp (content : Json)
  | renameTmp
  | readdir (path : String)
  | readJson (path : String)
  | readSessionIndex
  | detectGit (root : String)
  | publish (event : WorkspaceRegistryEvent)

/-- A JSON file: `none` where `JSON.parse` throws. -/
abbrev JsonFile := Except Errno (Option Json)

def RegistryOp.Answer : RegistryOp → Type
  | .stat _ => Except Errno Bool
  | .mkdir _ | .writeTmp _ | .renameTmp => Except Errno Unit
  | .now => String
  | .readRegistryFile | .readJson _ => JsonFile
  | .readdir _ => Except Errno (List Dirent)
  | .readSessionIndex => List String
  | .detectGit _ => GitInfo
  | .publish _ => Unit

def registrySignature : Signature := ⟨RegistryOp, RegistryOp.Answer⟩

/-- What the disk and the clock answer. -/
structure Disk where
  /-- `(await fsp.stat(path)).isDirectory()`. -/
  stat : String → Except Errno Bool
  mkdir : String → Except Errno Unit
  readdir : String → Except Errno (List Dirent)
  readJson : String → JsonFile
  /-- The `workDir` of each entry that `readSessionIndex` gives, in the order of the map. -/
  sessionIndex : List String
  detectGit : String → GitInfo
  clock : String
  writeTmp : Except Errno Unit
  renameTmp : Except Errno Unit

structure RegistryWorld where
  disk : Disk
  /-- `workspaces.json` and `workspaces.json.tmp`. -/
  registry : JsonFile
  tmp : JsonFile
  published : List WorkspaceRegistryEvent

/-- A directory that has been made is there when the disk says so. -/
def RegistryWorld.act : (op : RegistryOp) → RegistryWorld → op.Answer × RegistryWorld
  | .stat path, w => (w.disk.stat path, w)
  | .mkdir path, w => (w.disk.mkdir path, w)
  | .now, w => (w.disk.clock, w)
  | .readRegistryFile, w => (w.registry, w)
  | .writeTmp content, w =>
    match w.disk.writeTmp with
    | .ok () => (.ok (), { w with tmp := .ok (some content) })
    | .error code => (.error code, { w with tmp := .ok none })
  | .renameTmp, w =>
    match w.disk.renameTmp, w.tmp with
    | .ok (), .ok content => (.ok (), { w with registry := .ok content, tmp := .error .ENOENT })
    | .ok (), .error code => (.error code, w)
    | .error code, _ => (.error code, w)
  | .readdir path, w => (w.disk.readdir path, w)
  | .readJson path, w => (w.disk.readJson path, w)
  | .readSessionIndex, w => (w.disk.sessionIndex, w)
  | .detectGit root, w => (w.disk.detectGit root, w)
  | .publish event, w => ((), { w with published := w.published ++ [event] })

abbrev RegistryTask := Task registrySignature RegistryError

namespace RegistryTask

def ask (op : RegistryOp) : RegistryTask op.Answer :=
  .step (.ask op) (.done : op.Answer → RegistryTask op.Answer)

/-- `await` of something that may throw an error of the system. -/
def await {α : Type} : Except Errno α → RegistryTask α
  | .ok value => .done value
  | .error code => .fail (.system code)

end RegistryTask

open RegistryTask

/-! ## The parts of the operations -/

/-- The registry as `readRegistry` gives it for a file. -/
def readAs : JsonFile → Except Errno WorkspaceRegistryFile
  | .error .ENOENT | .error .ENOTDIR | .ok none => .ok .empty
  | .error code => .error code
  | .ok (some parsed) => .ok (fileOf parsed)

namespace RegistryHost

variable (host : RegistryHost)

def sessionsDir : String := host.join host.homeDir "sessions"

def readRegistry : RegistryTask WorkspaceRegistryFile := do
  let raw ← ask .readRegistryFile
  await (readAs raw)

def writeRegistry (file : WorkspaceRegistryFile) : RegistryTask Unit := do
  await (← ask (.mkdir host.homeDir))
  await (← ask (.writeTmp file.toJson))
  await (← ask .renameTmp)

def isSessionArchived (sessionDir : String) : RegistryTask Bool := do
  match ← ask (.readJson (host.join sessionDir "state.json")) with
  | .ok (some parsed) =>
    match parsed.isObject, parsed.property "archived" with
    | true, some (.bool archived) => return archived
    | _, _ => return false
  | _ => return false

/-- One step of the loop of `countActiveSessions`. -/
def countDirent (dir : String) (d : Dirent) : RegistryTask (List Unit) := do
  if !d.isDirectory then return []
  else if ← host.isSessionArchived (host.join dir d.name) then return []
  else return [()]

def countActiveSessions (dir : String) : RegistryTask ℕ := do
  match ← ask (.readdir dir) with
  | .error .ENOENT => return 0
  | .error code => .fail (.system code)
  | .ok dirents =>
    let counted ← Task.collect (host.countDirent dir) dirents
    return counted.length

def hydrate (workspaceId : String) (entry : WorkspaceRegistryEntry) (sessionCount : Option ℕ) :
    RegistryTask Workspace := do
  let git ← ask (.detectGit entry.root)
  let session_count ← match sessionCount with
    | some count => (pure count : RegistryTask ℕ)
    | none => host.countActiveSessions (host.join host.sessionsDir workspaceId)
  return {
    id := workspaceId
    root := entry.root
    name := entry.name
    is_git_repo := git.is_git_repo
    branch := git.branch
    created_at := entry.created_at
    last_opened_at := entry.last_opened_at
    session_count }

def findDerivedWorkDir (workspaceId : String) : RegistryTask (Option String) := do
  let index ← ask .readSessionIndex
  return index.find? fun workDir => host.encodeWorkDirKey workDir = workspaceId

/-! ## The operations -/

/-- The working directories of the index that are neither registered nor deleted, by their ids. -/
def derived (file : WorkspaceRegistryFile) (index : List String) : OrderedMap String String :=
  index.foldl (fun derived workDir =>
    let id := host.encodeWorkDirKey workDir
    if (file.entry id).isSome ∨ id ∈ file.deleted_workspace_ids then derived
    else derived.set id workDir) ∅

/-- One step of the loop of `list` over the registered workspaces. -/
def listRegistered (entry : String × WorkspaceRegistryEntry) : RegistryTask (List Workspace) := do
  return [← host.hydrate entry.1 entry.2 none]

/-- One step of the loop of `list` over the derived workspaces. -/
def listDerived (derived : String × String) : RegistryTask (List Workspace) := do
  let sessionCount ← host.countActiveSessions (host.join host.sessionsDir derived.1)
  if sessionCount = 0 then return []
  else
    return [← host.hydrate derived.1
      { root := derived.2, name := host.posixBasename derived.2, created_at := ""
        last_opened_at := "" } (some sessionCount)]

def list : RegistryTask (List Workspace) := do
  let file ← Task.exclusive readRegistry
  let registered ← Task.collect host.listRegistered file.workspaces.entries
  let index ← ask .readSessionIndex
  let derived ← Task.collect host.listDerived (host.derived file index).entries
  return host.sort (registered ++ derived)

def lookup (workspaceId : String) : RegistryTask (Option WorkspaceRegistryEntry) := do
  let file ← readRegistry
  return file.entry workspaceId

def get (workspaceId : String) : RegistryTask Workspace := do
  match ← Task.exclusive (lookup workspaceId) with
  | none => .fail (.workspaceNotFound workspaceId)
  | some entry => host.hydrate workspaceId entry none

/-- The entry after `createOrTouch`. -/
def touched (file : WorkspaceRegistryFile) (normalizedRoot : String) (name : Option String)
    (now : String) : WorkspaceRegistryEntry :=
  match file.entry (host.encodeWorkDirKey normalizedRoot) with
  | some existing => { existing with last_opened_at := now }
  | none =>
    { root := normalizedRoot
      name := name.getD (host.posixBasename normalizedRoot)
      created_at := now
      last_opened_at := now }

/-- The registry after `createOrTouch`. -/
def touch (file : WorkspaceRegistryFile) (normalizedRoot : String) (name : Option String)
    (now : String) : WorkspaceRegistryFile :=
  let workspaceId := host.encodeWorkDirKey normalizedRoot
  { file.setEntry workspaceId (host.touched file normalizedRoot name now) with
    deleted_workspace_ids := file.deleted_workspace_ids.filter (· ≠ workspaceId) }

def createOrTouchSection (normalizedRoot : String) (name : Option String) (now : String) :
    RegistryTask (WorkspaceRegistryEntry × Bool) := do
  let file ← readRegistry
  host.writeRegistry (host.touch file normalizedRoot name now)
  return (host.touched file normalizedRoot name now,
    (file.entry (host.encodeWorkDirKey normalizedRoot)).isNone)

def createOrTouch (root : String) (name : Option String) : RegistryTask Workspace := do
  match ← ask (.stat root) with
  | .error .ENOENT | .error .ENOTDIR => .fail (.rootNotFound root)
  | .error code => .fail (.system code)
  | .ok false => .fail (.rootNotFound root)
  | .ok true =>
    let normalizedRoot := host.normalizeWorkDir root
    let workspaceId := host.encodeWorkDirKey normalizedRoot
    await (← ask (.mkdir (host.join host.sessionsDir workspaceId)))
    let now ← ask .now
    let (entry, created) ← Task.exclusive (host.createOrTouchSection normalizedRoot name now)
    let workspace ← host.hydrate workspaceId entry none
    if created then ask (.publish (.created workspace))
    return workspace

/-- The entry after `update`; the patch is its name. -/
def patched (existing : WorkspaceRegistryEntry) (name : Option String) : WorkspaceRegistryEntry :=
  { existing with name := name.getD existing.name }

def updateSection (workspaceId : String) (name : Option String) :
    RegistryTask WorkspaceRegistryEntry := do
  let file ← readRegistry
  match file.entry workspaceId with
  | none => .fail (.workspaceNotFound workspaceId)
  | some existing =>
    host.writeRegistry (file.setEntry workspaceId (patched existing name))
    return patched existing name

def update (workspaceId : String) (name : Option String) : RegistryTask Workspace := do
  let entry ← Task.exclusive (host.updateSection workspaceId name)
  let workspace ← host.hydrate workspaceId entry none
  ask (.publish (.updated workspace))
  return workspace

/-- The registry after `delete`. -/
def remove (file : WorkspaceRegistryFile) (workspaceId : String) : WorkspaceRegistryFile :=
  { file.deleteEntry workspaceId with
    deleted_workspace_ids := if workspaceId ∈ file.deleted_workspace_ids then
        file.deleted_workspace_ids
      else file.deleted_workspace_ids ++ [workspaceId] }

/-- The root of a derived workspace. -/
def derivedRoot (workspaceId : String) : RegistryTask String := do
  match ← host.findDerivedWorkDir workspaceId with
  | some derived => return derived
  | none => .fail (.workspaceNotFound workspaceId)

def deleteSection (workspaceId : String) : RegistryTask String := do
  let file ← readRegistry
  let root ← match file.entry workspaceId with
    | some existing => (pure existing.root : RegistryTask String)
    | none => host.derivedRoot workspaceId
  host.writeRegistry (remove file workspaceId)
  return root

def delete (workspaceId : String) : RegistryTask Unit := do
  let root ← Task.exclusive (host.deleteSection workspaceId)
  ask (.publish (.deleted workspaceId root))

def resolveRoot (workspaceId : String) : RegistryTask String := do
  match ← Task.exclusive (lookup workspaceId) with
  | some entry => return entry.root
  | none => host.derivedRoot workspaceId

end RegistryHost

/-! ## The service -/

inductive RegistryCall
  | list
  | get (workspaceId : String)
  | createOrTouch (root : String) (name : Option String)
  | update (workspaceId : String) (name : Option String)
  | delete (workspaceId : String)
  | resolveRoot (workspaceId : String)

inductive RegistryAnswer
  | list (workspaces : List Workspace)
  | workspace (workspace : Workspace)
  | root (root : String)
  | deleted

def RegistryHost.program (host : RegistryHost) : RegistryCall → RegistryTask RegistryAnswer
  | .list => do return .list (← host.list)
  | .get workspaceId => do return .workspace (← host.get workspaceId)
  | .createOrTouch root name => do return .workspace (← host.createOrTouch root name)
  | .update workspaceId name => do return .workspace (← host.update workspaceId name)
  | .delete workspaceId => do
    host.delete workspaceId
    return .deleted
  | .resolveRoot workspaceId => do return .root (← host.resolveRoot workspaceId)

/-- The service; only its own disk changes by itself. -/
def RegistryHost.service (host : RegistryHost) :
    System registrySignature RegistryWorld Disk RegistryCall RegistryError RegistryAnswer where
  act := RegistryWorld.act
  become disk w := { w with disk }
  program := host.program

abbrev Registry := Machine registrySignature RegistryWorld RegistryCall RegistryError RegistryAnswer

end KimiCli.WorkspaceRegistry
