import KimiCli.Fs.PathReferences
import KimiCli.Lib.Run
import Mathlib.Algebra.GroupWithZero.Nat

/-!
# The file watcher service

`FsWatcherService` watches paths for the connections of a server, with one underlying watcher for
each session.  A session entry and the `Map` of a connection's references in a session are objects:
the index of the connections and the one of the session refer to the same map.

What the watchers report, and the `cwd` that the reports are relative to, are left out.
-/

namespace KimiCli.Fs

structure SessionEntry where
  pathRefs : PathReferenceCollection := {}
  /-- For each connection its map in this session. -/
  connectionPathRefs : OrderedMap String ℕ := ∅
  disposed : Bool := false

/-- `SessionEntry.dispose` closes the watcher. -/
def SessionEntry.dispose (e : SessionEntry) : SessionEntry :=
  if e.disposed then e
  else
    { e with
      disposed := true
      pathRefs := { e.pathRefs with watcher := e.pathRefs.watcher ++ [.close] } }

structure FsWatchLimitError where
  connectionId : String
  requested : ℕ
  max : ℕ

structure FsWatcherService where
  /-- Every session entry that was made. -/
  entries : List SessionEntry := []
  sessions : OrderedMap String ℕ := ∅
  /-- Every map of references that was made; a reference belongs to a session entry. -/
  pathMaps : List (OrderedMap String ℕ) := []
  /-- For each connection and session the map of its references. -/
  connections : OrderedMap String (OrderedMap String ℕ) := ∅

namespace FsWatcherService

variable (s : FsWatcherService)

def pathMap (id : ℕ) : OrderedMap String ℕ := s.pathMaps[id]?.getD ∅

/-- `connections.get(connectionId)?.get(sessionId)`. -/
def connSessionRefs (connectionId sessionId : String) : Option ℕ :=
  (s.connections.get connectionId).bind (·.get sessionId)

def countForConnection (connectionId : String) : ℕ :=
  match s.connections.get connectionId with
  | some m => (m.entries.map fun entry => (s.pathMap entry.2).entries.length).sum
  | none => 0

def watchedPaths (connectionId sessionId : String) : List String :=
  match s.connSessionRefs connectionId sessionId with
  | some id => (s.pathMap id).keys
  | none => []

/-! ## Adding paths -/

def getOrCreateConnection (connectionId : String) : FsWatcherService :=
  match s.connections.get connectionId with
  | some _ => s
  | none => { s with connections := s.connections.set connectionId ∅ }

/-- `createSessionEntry` and the entry in the map of sessions. -/
def createSession (sessionId : String) : FsWatcherService :=
  { s with
    entries := s.entries ++ [{}]
    sessions := s.sessions.set sessionId s.entries.length }

def modifyEntry (ref : ℕ) (update : SessionEntry → SessionEntry) : FsWatcherService :=
  { s with entries := s.entries.modify ref update }

/-- A new map for a connection in a session, in both indexes. -/
def createPathMap (ref : ℕ) (connectionId sessionId : String) : FsWatcherService :=
  let connSessions := (s.connections.get connectionId).getD ∅
  { s.modifyEntry ref fun e =>
      { e with connectionPathRefs := e.connectionPathRefs.set connectionId s.pathMaps.length } with
    pathMaps := s.pathMaps ++ [∅]
    connections :=
      s.connections.set connectionId (connSessions.set sessionId s.pathMaps.length) }

/-- `existingForSession.set(abs, entry.pathRefs.acquire(abs))`. -/
def acquirePath (ref id : ℕ) (s : FsWatcherService) (abs : String) : FsWatcherService :=
  { s.modifyEntry ref fun e => { e with pathRefs := e.pathRefs.acquire abs } with
    pathMaps := s.pathMaps.modify id (·.set abs ref) }

/-- The paths of a list that the connection does not watch yet. -/
def newlyAdded (sessionId connectionId : String) (absPaths : List String) : List String :=
  absPaths.filter (· ∉ s.watchedPaths connectionId sessionId)

def projectedTotal (sessionId connectionId : String) (absPaths : List String) : ℕ :=
  s.countForConnection connectionId + (s.newlyAdded sessionId connectionId absPaths).length

/-- The entry of a session, which is made if it is missing. -/
def getOrCreateSession (sessionId : String) : ℕ × FsWatcherService :=
  match s.sessions.get sessionId with
  | some ref => (ref, s)
  | none => (s.entries.length, s.createSession sessionId)

/-- The map of a connection in a session, which is made if it is missing. -/
def getOrCreatePathMap (ref : ℕ) (connectionId sessionId : String) : ℕ × FsWatcherService :=
  match s.connSessionRefs connectionId sessionId with
  | some id => (id, s)
  | none => (s.pathMaps.length, s.createPathMap ref connectionId sessionId)

def addPaths (maxPathsPerConnection : ℕ) (sessionId connectionId : String)
    (absPaths : List String) : Except FsWatchLimitError (List String) × FsWatcherService :=
  let s := s.getOrCreateConnection connectionId
  let newlyAdded := s.newlyAdded sessionId connectionId absPaths
  let projectedTotal := s.projectedTotal sessionId connectionId absPaths
  if maxPathsPerConnection < projectedTotal then
    (.error { connectionId, requested := projectedTotal, max := maxPathsPerConnection }, s)
  else if newlyAdded = [] then (.ok (s.watchedPaths connectionId sessionId), s)
  else
    let (ref, s) := s.getOrCreateSession sessionId
    let (id, s) := s.getOrCreatePathMap ref connectionId sessionId
    let s := newlyAdded.foldl (acquirePath ref id) s
    (.ok (s.pathMap id).keys, s)

/-! ## Removing paths -/

/-- The references that a list of paths takes out of a map, and what is left of it. -/
def takeRefs (refs : OrderedMap String ℕ) : List String → List (String × ℕ) × OrderedMap String ℕ
  | [] => ([], refs)
  | abs :: absPaths =>
    match refs.get abs with
    | some ref => ((abs, ref) :: (takeRefs (refs.delete abs) absPaths).1,
        (takeRefs (refs.delete abs) absPaths).2)
    | none => takeRefs refs absPaths

def disposeRef (entries : List SessionEntry) (reference : String × ℕ) : List SessionEntry :=
  entries.modify reference.2 fun e => { e with pathRefs := e.pathRefs.release reference.1 }

/-- A connection that watches nothing in a session any more leaves both indexes. -/
def dropPathMap (ref id : ℕ) (connectionId sessionId : String) : FsWatcherService :=
  if (s.pathMap id).entries = [] then
    let connSessions := ((s.connections.get connectionId).getD ∅).delete sessionId
    { s.modifyEntry ref fun e =>
        { e with connectionPathRefs := e.connectionPathRefs.delete connectionId } with
      connections := if connSessions.entries = [] then s.connections.delete connectionId
        else s.connections.set connectionId connSessions }
  else s

/-- `sessions.deleteAndDispose(sessionId)`, when no path of the session is referenced. -/
def dropSession (ref : ℕ) (sessionId : String) : FsWatcherService :=
  if (s.entries[ref]?.map (·.pathRefs.size)) = some 0 then
    { s.modifyEntry ref SessionEntry.dispose with sessions := s.sessions.delete sessionId }
  else s

def removePaths (sessionId connectionId : String) (absPaths : List String) :
    List String × FsWatcherService :=
  match s.sessions.get sessionId, s.connSessionRefs connectionId sessionId with
  | some ref, some id =>
    let (refsToDispose, rest) := takeRefs (s.pathMap id) absPaths
    let s := { s with
      pathMaps := s.pathMaps.set id rest
      entries := refsToDispose.foldl disposeRef s.entries }
    (rest.keys, (s.dropPathMap ref id connectionId sessionId).dropSession ref sessionId)
  | _, _ => ([], s)

def forgetConnection (connectionId : String) : FsWatcherService :=
  match s.connections.get connectionId with
  | some sessionMap =>
    let s := sessionMap.entries.foldl
      (fun s entry => (s.removePaths entry.1 connectionId (s.pathMap entry.2).keys).2) s
    { s with connections := s.connections.delete connectionId }
  | none => s

def bindSessionCwd (sessionId : String) : FsWatcherService :=
  match s.sessions.get sessionId with
  | some _ => s
  | none => s.createSession sessionId

/-! ## The steps -/

inductive FsCall
  | addPaths (sessionId connectionId : String) (absPaths : List String)
  | removePaths (sessionId connectionId : String) (absPaths : List String)
  | forgetConnection (connectionId : String)
  | bindSessionCwd (sessionId : String)

def step (maxPathsPerConnection : ℕ) (s : FsWatcherService) : FsCall → Option FsWatcherService
  | .addPaths sessionId connectionId absPaths =>
    some (s.addPaths maxPathsPerConnection sessionId connectionId absPaths).2
  | .removePaths sessionId connectionId absPaths =>
    some (s.removePaths sessionId connectionId absPaths).2
  | .forgetConnection connectionId => some (s.forgetConnection connectionId)
  | .bindSessionCwd sessionId => some (s.bindSessionCwd sessionId)

end FsWatcherService

end KimiCli.Fs
