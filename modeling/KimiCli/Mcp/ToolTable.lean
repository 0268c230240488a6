import KimiCli.Js.Json
import KimiCli.Lib.Run
import KimiCli.Mcp.ToolNaming
import Mathlib.Logic.Function.Basic

/-!
# The table of MCP tools

The MCP half of `ToolManager` (`agent/tool/index.ts`): the table of qualified names and the list of
names for each server, kept up to date by the status changes that the connection manager emits.  A
change comes with what the connection manager answers while its listeners run.  `Client` is the type
of the clients.
-/

namespace KimiCli

open Transition

/-! ## Tools -/

/-- A tool as its server describes it. -/
structure McpTool where
  name : List Char
  description : String
  parameters : Json

/-- What executing a tool does first. -/
inductive McpRequest (Client : Type*)
  | callTool (client : Client) (toolName : List Char) (args : Json)
  /-- The OAuth flow of a server, which ends in a reconnect. -/
  | authenticate (serverName : List Char) (serverUrl : String)

structure ExecutableMcpTool (Client : Type*) where
  name : List Char
  description : String
  /-- `none` for the schema of no arguments, which a package renders. -/
  parameters : Option Json
  approvalRule : List Char
  execute : Json → McpRequest Client

structure McpToolEntry (Client : Type*) where
  tool : ExecutableMcpTool Client
  serverName : List Char

variable {Client : Type*}

/-- The tool that `registerMcpServer` makes. -/
def wrapMcpTool (client : Client) (tool : McpTool) (qualified : List Char) :
    ExecutableMcpTool Client where
  name := qualified
  description := tool.description
  parameters := some tool.parameters
  approvalRule := qualified
  execute args := .callTool client tool.name args

def authToolToolName : List Char := "authenticate".toList

def authToolDescription (serverName : String) : String :=
  s!"Authenticate with MCP server \"{serverName}\" via OAuth.\n\n" ++
  "This server requires an OAuth login that has not yet been completed. " ++
  "Calling this tool starts the authorization flow:\n\n" ++
  "  1. The tool prints an authorization URL.\n" ++
  "  2. **You must show that URL to the user verbatim** and ask them to open it\n" ++
  "     in a browser, sign in, and approve the kimi-code client.\n" ++
  "  3. The tool blocks (up to 15 minutes) until the browser redirects back to\n" ++
  "     the local callback listener.\n" ++
  "  4. On success, kimi-code reconnects the MCP server and the real tools\n" ++
  "     replace this synthetic tool.\n\n" ++
  "Take no arguments. Treat the URL as sensitive — do not modify it or strip\n" ++
  "query parameters."

/-- `createMcpAuthTool`. -/
def createMcpAuthTool (serverName : List Char) (serverUrl : String) : ExecutableMcpTool Client where
  name := qualifyMcpToolName serverName authToolToolName
  description := authToolDescription (String.ofList serverName)
  parameters := none
  approvalRule := qualifyMcpToolName serverName authToolToolName
  execute _ := .authenticate serverName serverUrl

@[simp] theorem createMcpAuthTool_name (serverName : List Char) (serverUrl : String) :
    (createMcpAuthTool serverName serverUrl : ExecutableMcpTool Client).name =
      qualifyMcpToolName serverName authToolToolName := rfl

/-! ## Status changes -/

inductive McpServerStatus
  | pending | connected | failed | disabled | needsAuth
  deriving DecidableEq

/-- `McpConnectionManager.resolved`. -/
structure ResolvedMcpServer (Client : Type*) where
  client : Client
  tools : List McpTool
  enabledNames : List (List Char)

structure McpStatusChange (Client : Type*) where
  name : List Char
  status : McpServerStatus
  /-- The answer of `resolved(name)`. -/
  resolved : Option (ResolvedMcpServer Client) := none
  /-- The answer of `getRemoteServerUrl(name)`. -/
  remoteServerUrl : Option String := none

inductive CollidesWith
  | sameServer (toolName : List Char)
  | otherServer (serverName : List Char)

structure McpToolCollision where
  qualified : List Char
  toolName : List Char
  collidesWith : CollidesWith

inductive ToolListReason
  | connected | failed | disconnected

inductive McpToolEvent
  | toolListUpdated (reason : ToolListReason) (serverName : List Char)
  /-- `mcp.tool_name_collision`. -/
  | error (message : String) (serverName : List Char) (collisions : List McpToolCollision)

/-! ## The tool manager -/

structure McpToolManager (Client : Type*) where
  /-- The connection manager owns an OAuth service. -/
  hasOAuthService : Bool
  mcpTools : List Char → Option (McpToolEntry Client) := fun _ => none
  mcpToolsByServer : List Char → Option (List (List Char)) := fun _ => none
  events : List McpToolEvent := []

/-- The variables of the loop of `registerMcpServer`. -/
structure RegisterLoop (Client : Type*) where
  mcpTools : List Char → Option (McpToolEntry Client)
  qualifiedNames : List (List Char) := []
  collisions : List McpToolCollision := []
  seenInThisCall : List Char → Option (List Char) := fun _ => none

/-- One round of the loop of `registerMcpServer`. -/
def RegisterLoop.register (serverName : List Char) (client : Client)
    (enabledTools : Option (List (List Char))) (loop : RegisterLoop Client) (tool : McpTool) :
    RegisterLoop Client :=
  if enabledTools.any (tool.name ∉ ·) then loop
  else
    let qualified := qualifyMcpToolName serverName tool.name
    match loop.seenInThisCall qualified, loop.mcpTools qualified with
    | some first, _ =>
      { loop with
        collisions := loop.collisions ++ [⟨qualified, tool.name, .sameServer first⟩] }
    | none, some existing =>
      { loop with
        collisions :=
          loop.collisions ++ [⟨qualified, tool.name, .otherServer existing.serverName⟩] }
    | none, none =>
      { loop with
        seenInThisCall := Function.update loop.seenInThisCall qualified (some tool.name)
        mcpTools := Function.update loop.mcpTools qualified
          (some ⟨wrapMcpTool client tool qualified, serverName⟩)
        qualifiedNames := loop.qualifiedNames ++ [qualified] }

namespace McpToolManager

def emit (m : McpToolManager Client) (event : McpToolEvent) : McpToolManager Client :=
  { m with events := m.events ++ [event] }

/-- `unregisterMcpServer`, and whether there was something to remove. -/
def unregisterMcpServer (m : McpToolManager Client) (serverName : List Char) :
    McpToolManager Client × Bool :=
  match m.mcpToolsByServer serverName with
  | none => (m, false)
  | some existing =>
    ({ m with
       mcpTools := existing.foldl (fun tools qualified => Function.update tools qualified none)
         m.mcpTools
       mcpToolsByServer := Function.update m.mcpToolsByServer serverName none }, true)

/-- `registerMcpServer`, with the collisions. -/
def registerMcpServer (m : McpToolManager Client) (serverName : List Char) (client : Client)
    (tools : List McpTool) (enabledTools : Option (List (List Char))) :
    McpToolManager Client × List McpToolCollision :=
  let m := (m.unregisterMcpServer serverName).1
  let loop := tools.foldl (RegisterLoop.register serverName client enabledTools)
    { mcpTools := m.mcpTools }
  ({ m with
     mcpTools := loop.mcpTools
     mcpToolsByServer :=
       Function.update m.mcpToolsByServer serverName (some loop.qualifiedNames) },
    loop.collisions)

def collisionText (collision : McpToolCollision) : String :=
  let toolName := String.ofList collision.toolName
  let qualified := String.ofList collision.qualified
  match collision.collidesWith with
  | .sameServer first =>
    s!"\"{toolName}\" -> {qualified} (collides with \"{String.ofList first}\" " ++
      "from the same server)"
  | .otherServer serverName =>
    s!"\"{toolName}\" -> {qualified} (collides with server \"{String.ofList serverName}\")"

def emitMcpToolCollisions (m : McpToolManager Client) (serverName : List Char)
    (collisions : List McpToolCollision) : McpToolManager Client :=
  if collisions.isEmpty then m
  else
    let summary := "; ".intercalate (collisions.map collisionText)
    let plural := if collisions.length = 1 then "" else "s"
    let message :=
      s!"MCP server \"{String.ofList serverName}\" registered {collisions.length} tool name" ++
      s!"{plural} " ++
      s!"that collide with existing qualified names; the losing tools were dropped: {summary}"
    m.emit (.error message serverName collisions)

def registerConnectedMcpServer (m : McpToolManager Client) (entry : McpStatusChange Client) :
    McpToolManager Client :=
  match entry.resolved with
  | none => m
  | some resolved =>
    let result := m.registerMcpServer entry.name resolved.client resolved.tools
      (some resolved.enabledNames)
    (result.1.emitMcpToolCollisions entry.name result.2).emit
      (.toolListUpdated .connected entry.name)

def registerNeedsAuthMcpServer (m : McpToolManager Client) (entry : McpStatusChange Client) :
    McpToolManager Client :=
  let m := (m.unregisterMcpServer entry.name).1
  match m.hasOAuthService, entry.remoteServerUrl with
  | true, some serverUrl =>
    let tool := createMcpAuthTool entry.name serverUrl
    { m with
      mcpTools := Function.update m.mcpTools tool.name (some ⟨tool, entry.name⟩)
      mcpToolsByServer := Function.update m.mcpToolsByServer entry.name (some [tool.name])
      events := m.events ++ [.toolListUpdated .connected entry.name] }
  | _, _ => m

def handleMcpServerStatusChange (m : McpToolManager Client) (entry : McpStatusChange Client) :
    McpToolManager Client :=
  match entry.status with
  | .connected => m.registerConnectedMcpServer entry
  | .needsAuth => m.registerNeedsAuthMcpServer entry
  | .failed =>
    (m.unregisterMcpServer entry.name).1.emit (.toolListUpdated .failed entry.name)
  | .disabled | .pending =>
    let result := m.unregisterMcpServer entry.name
    if result.2 then result.1.emit (.toolListUpdated .disconnected entry.name) else result.1

/-- The first loop of `attachMcpTools`; the change of an entry of the list says what the connection
manager answers about it. -/
def attachMcpTools (m : McpToolManager Client) (entries : List (McpStatusChange Client)) :
    McpToolManager Client :=
  entries.foldl (fun m entry =>
    match entry.status with
    | .connected => m.registerConnectedMcpServer entry
    | .needsAuth => m.registerNeedsAuthMcpServer entry
    | _ => m) m

/-- The names listed for a server. -/
def listed (m : McpToolManager Client) (serverName : List Char) : List (List Char) :=
  (m.mcpToolsByServer serverName).getD []

end McpToolManager

/-! ## Runs -/

/-- A tool manager with the changes it has been told, newest first. -/
structure McpSession (Client : Type*) where
  manager : McpToolManager Client
  history : List (McpStatusChange Client) := []

namespace McpSession

/-- The table after a change. -/
def next (s : McpSession Client) (change : McpStatusChange Client) : McpSession Client where
  manager := s.manager.handleMcpServerStatusChange change
  history := change :: s.history

def step (s : McpSession Client) (change : McpStatusChange Client) : Option (McpSession Client) :=
  some (s.next change)

def start (hasOAuthService : Bool) : McpSession Client where
  manager := { hasOAuthService := hasOAuthService }

/-- The last status of a server. -/
def status (s : McpSession Client) (serverName : List Char) : Option McpServerStatus :=
  (s.history.find? (·.name = serverName)).map (·.status)

end McpSession

/-- The manager leaves everything as it is: the server's client is gone again. -/
def McpStatusChange.inert (change : McpStatusChange Client) : Bool :=
  change.status = .connected && change.resolved.isNone

/-- The last change of a server that the manager acted on. -/
def McpSession.registration (s : McpSession Client) (serverName : List Char) :
    Option (McpStatusChange Client) :=
  s.history.find? fun change => change.name = serverName && !change.inert

/-- The entry of a qualified name is made from an enabled tool of the server, or is the synthetic
tool, and calls that. -/
inductive MadeFrom (change : McpStatusChange Client) (qualified : List Char)
    (entry : McpToolEntry Client) : Prop
  | tool {resolved : ResolvedMcpServer Client} {tool : McpTool} :
      change.status = .connected → change.resolved = some resolved → tool ∈ resolved.tools →
      tool.name ∈ resolved.enabledNames →
      qualified = qualifyMcpToolName change.name tool.name →
      (∀ args, entry.tool.execute args = .callTool resolved.client tool.name args) →
      MadeFrom change qualified entry
  | authenticate {serverUrl : String} :
      change.status = .needsAuth → change.remoteServerUrl = some serverUrl →
      qualified = qualifyMcpToolName change.name authToolToolName →
      (∀ args, entry.tool.execute args = .authenticate change.name serverUrl) →
      MadeFrom change qualified entry

namespace McpSession

/-- The table belongs to its servers. -/
structure Belongs (s : McpSession Client) : Prop where
  /-- A name in the table is listed under the server its entry names and under no other, and a name
  listed for a server is in the table with that server. -/
  listed_iff : ∀ serverName qualified, qualified ∈ s.manager.listed serverName ↔
    ∃ entry, s.manager.mcpTools qualified = some entry ∧ entry.serverName = serverName
  active : ∀ serverName, s.manager.listed serverName ≠ [] →
    s.status serverName = some .connected ∨ s.status serverName = some .needsAuth
  made : ∀ qualified entry, s.manager.mcpTools qualified = some entry →
    ∃ change, s.registration entry.serverName = some change ∧ MadeFrom change qualified entry

/-- The change neither removes nor replaces a tool of another server. -/
def Undisturbed (s : McpSession Client) (change : McpStatusChange Client) : Prop :=
  ∀ qualified entry, s.manager.mcpTools qualified = some entry → entry.serverName ≠ change.name →
    (s.next change).manager.mcpTools qualified = some entry

/-- If the change registers the synthetic tool, no other server has its qualified name. -/
def AuthNameFree (s : McpSession Client) (change : McpStatusChange Client) : Prop :=
  change.status = .needsAuth → s.manager.hasOAuthService = true → change.remoteServerUrl.isSome →
    ∀ entry, s.manager.mcpTools (qualifyMcpToolName change.name authToolToolName) = some entry →
      entry.serverName = change.name

end McpSession

/-! ## Registration and removal -/

namespace McpToolManager

/-- `Belongs.listed_iff`, of the manager alone. -/
def Owned (m : McpToolManager Client) : Prop :=
  ∀ serverName qualified, qualified ∈ m.listed serverName ↔
    ∃ entry, m.mcpTools qualified = some entry ∧ entry.serverName = serverName

variable {m : McpToolManager Client} {serverName qualified : List Char}

theorem foldl_update_none (names : List (List Char))
    (tools : List Char → Option (McpToolEntry Client)) (qualified : List Char) :
    names.foldl (fun tools qualified => Function.update tools qualified none) tools qualified =
      if qualified ∈ names then none else tools qualified := by
  induction names generalizing tools with
  | nil => simp
  | cons name names ih =>
    rw [List.foldl_cons, ih]
    by_cases same : qualified = name
    · simp [same]
    · simp [same, Function.update_of_ne]

theorem unregister_mcpTools (m : McpToolManager Client) (serverName qualified : List Char) :
    (m.unregisterMcpServer serverName).1.mcpTools qualified =
      if qualified ∈ m.listed serverName then none else m.mcpTools qualified := by
  unfold unregisterMcpServer listed
  split
  case h_1 none => simp [none]
  case h_2 existing found =>
    rw [found]
    exact foldl_update_none existing m.mcpTools qualified

theorem unregister_listed (m : McpToolManager Client) (serverName other : List Char) :
    (m.unregisterMcpServer serverName).1.listed other =
      if other = serverName then [] else m.listed other := by
  unfold unregisterMcpServer
  by_cases same : other = serverName
  · subst same
    split
    case h_1 none => simp [listed, none]
    case h_2 => simp [listed]
  · split <;> simp [listed, same, Function.update_of_ne]

@[simp] theorem unregister_hasOAuthService (m : McpToolManager Client) (serverName : List Char) :
    (m.unregisterMcpServer serverName).1.hasOAuthService = m.hasOAuthService := by
  unfold unregisterMcpServer
  split <;> rfl

theorem Owned.unregister_eq_some (owned : m.Owned) {entry : McpToolEntry Client} :
    (m.unregisterMcpServer serverName).1.mcpTools qualified = some entry ↔
      m.mcpTools qualified = some entry ∧ entry.serverName ≠ serverName := by
  rw [unregister_mcpTools]
  by_cases mem : qualified ∈ m.listed serverName
  · obtain ⟨old, found, same⟩ := (owned serverName qualified).1 mem
    rw [if_pos mem, found]
    simp only [reduceCtorEq, Option.some.injEq, false_iff, not_and, ne_eq, not_not]
    rintro rfl
    exact same
  · rw [if_neg mem]
    refine ⟨fun found => ⟨found, fun same => mem ?_⟩, And.left⟩
    exact (owned serverName qualified).2 ⟨entry, found, same⟩

theorem Owned.unregister (owned : m.Owned) : (m.unregisterMcpServer serverName).1.Owned := by
  intro other qualified
  simp only [unregister_listed, owned.unregister_eq_some]
  split
  case isTrue same =>
    subst same
    simp
  case isFalse other_ne =>
    rw [owned other qualified]
    refine exists_congr fun entry => ?_
    constructor
    · rintro ⟨found, rfl⟩
      exact ⟨⟨found, other_ne⟩, rfl⟩
    · rintro ⟨⟨found, -⟩, same⟩
      exact ⟨found, same⟩

/-- What the loop of `registerMcpServer` keeps, over the table it starts with. -/
structure Registering (serverName : List Char) (client : Client) (tools : List McpTool)
    (enabledTools : Option (List (List Char)))
    (base : List Char → Option (McpToolEntry Client)) (loop : RegisterLoop Client) : Prop where
  names_iff : ∀ qualified, qualified ∈ loop.qualifiedNames ↔
    ∃ entry, loop.mcpTools qualified = some entry ∧ entry.serverName = serverName
  others : ∀ qualified entry, entry.serverName ≠ serverName →
    (loop.mcpTools qualified = some entry ↔ base qualified = some entry)
  made : ∀ qualified entry, loop.mcpTools qualified = some entry → entry.serverName = serverName →
    ∃ tool ∈ tools, (∀ names ∈ enabledTools, tool.name ∈ names) ∧
      qualified = qualifyMcpToolName serverName tool.name ∧
      entry.tool = wrapMcpTool client tool qualified

theorem Registering.register {client : Client} {tools : List McpTool}
    {enabledTools : Option (List (List Char))}
    {base : List Char → Option (McpToolEntry Client)} {loop : RegisterLoop Client}
    (books : Registering serverName client tools enabledTools base loop) {tool : McpTool}
    (mem : tool ∈ tools) :
    Registering serverName client tools enabledTools base
      (loop.register serverName client enabledTools tool) := by
  unfold RegisterLoop.register
  split
  case isTrue => exact books
  case isFalse enabled =>
    have enabled : ∀ names ∈ enabledTools, tool.name ∈ names := by
      rintro names (rfl : enabledTools = some names)
      simpa using enabled
    simp only
    split
    case h_1 => exact ⟨books.names_iff, books.others, books.made⟩
    case h_2 => exact ⟨books.names_iff, books.others, books.made⟩
    case h_3 free =>
      refine ⟨fun qualified => ?_, fun qualified entry other => ?_, fun qualified entry => ?_⟩
      all_goals
        simp only
        by_cases same : qualified = qualifyMcpToolName serverName tool.name
      · subst same
        simp
      · simp [same, Function.update_of_ne, books.names_iff]
      · subst same
        rw [Function.update_self, ← books.others _ _ other, free, Option.some.injEq]
        refine iff_of_false ?_ nofun
        rintro rfl
        exact other rfl
      · rw [Function.update_of_ne same]
        exact books.others qualified entry other
      · subst same
        rw [Function.update_self, Option.some.injEq]
        rintro rfl -
        exact ⟨tool, mem, enabled, rfl, rfl⟩
      · rw [Function.update_of_ne same]
        exact books.made qualified entry

theorem Owned.registerMcpServer (owned : m.Owned) (client : Client) (tools : List McpTool)
    (enabledTools : Option (List (List Char))) :
    Registering serverName client tools enabledTools (m.unregisterMcpServer serverName).1.mcpTools
      { mcpTools := (m.registerMcpServer serverName client tools enabledTools).1.mcpTools
        qualifiedNames :=
          (m.registerMcpServer serverName client tools enabledTools).1.listed serverName } := by
  have start : Registering serverName client tools enabledTools
      (m.unregisterMcpServer serverName).1.mcpTools
      { mcpTools := (m.unregisterMcpServer serverName).1.mcpTools } := by
    refine ⟨fun qualified => ?_, fun _ _ _ => Iff.rfl, fun qualified entry found same => ?_⟩
    · refine iff_of_false List.not_mem_nil ?_
      rintro ⟨entry, found, same⟩
      exact (owned.unregister_eq_some.1 found).2 same
    · exact absurd same (owned.unregister_eq_some.1 found).2
  have done := List.foldlRecOn tools (RegisterLoop.register serverName client enabledTools) start
    fun loop books tool mem => books.register mem
  refine ⟨fun qualified => ?_, done.others, done.made⟩
  refine Iff.trans ?_ (done.names_iff qualified)
  simp [McpToolManager.registerMcpServer, listed]

theorem registerMcpServer_listed_ne (m : McpToolManager Client) (client : Client)
    (tools : List McpTool) (enabledTools : Option (List (List Char))) {other : List Char}
    (ne : other ≠ serverName) :
    (m.registerMcpServer serverName client tools enabledTools).1.listed other =
      m.listed other := by
  have before := unregister_listed m serverName other
  rw [if_neg ne] at before
  rw [← before]
  simp [McpToolManager.registerMcpServer, listed, Function.update_of_ne ne]

/-! ## One change -/

/-- What a change of a server that the manager acts on does to the tables. -/
structure Changed (m : McpToolManager Client) (change : McpStatusChange Client)
    (m' : McpToolManager Client) : Prop where
  others : ∀ qualified entry, entry.serverName ≠ change.name →
    (m'.mcpTools qualified = some entry ↔ m.mcpTools qualified = some entry)
  othersListed : ∀ other, other ≠ change.name → m'.listed other = m.listed other
  own : ∀ qualified, qualified ∈ m'.listed change.name ↔
    ∃ entry, m'.mcpTools qualified = some entry ∧ entry.serverName = change.name
  active : m'.listed change.name ≠ [] → change.status = .connected ∨ change.status = .needsAuth
  made : ∀ qualified entry, m'.mcpTools qualified = some entry → entry.serverName = change.name →
    MadeFrom change qualified entry

/-- Events do not touch the tables. -/
theorem Changed.congr {change : McpStatusChange Client} {m' m'' : McpToolManager Client}
    (changed : m.Changed change m') (tools : m''.mcpTools = m'.mcpTools)
    (byServer : m''.mcpToolsByServer = m'.mcpToolsByServer) : m.Changed change m'' := by
  obtain ⟨others, othersListed, own, active, made⟩ := changed
  simp only [listed, ← tools, ← byServer] at others othersListed own active made
  exact ⟨others, othersListed, own, active, made⟩

theorem Owned.changed_unregister (owned : m.Owned) (change : McpStatusChange Client) :
    m.Changed change (m.unregisterMcpServer change.name).1 where
  others qualified entry other := by
    rw [owned.unregister_eq_some]
    exact and_iff_left other
  othersListed other ne := by rw [unregister_listed, if_neg ne]
  own qualified := owned.unregister change.name qualified
  active := by simp [unregister_listed]
  made qualified entry found same := absurd same (owned.unregister_eq_some.1 found).2

theorem Owned.changed_registerMcpServer (owned : m.Owned) {change : McpStatusChange Client}
    {resolved : ResolvedMcpServer Client} (connected : change.status = .connected)
    (found : change.resolved = some resolved) :
    m.Changed change (m.registerMcpServer change.name resolved.client resolved.tools
      (some resolved.enabledNames)).1 := by
  have books : Registering change.name resolved.client resolved.tools
      (some resolved.enabledNames) _ _ :=
    owned.registerMcpServer resolved.client resolved.tools (some resolved.enabledNames)
  refine
    { others := fun qualified entry other => ?_
      othersListed := fun other ne => registerMcpServer_listed_ne m _ _ _ ne
      own := books.names_iff
      active := fun _ => .inl connected
      made := fun qualified entry held same => ?_ }
  · rw [books.others qualified entry other, owned.unregister_eq_some]
    exact and_iff_left other
  · obtain ⟨tool, mem, enabled, name, eq⟩ := books.made qualified entry held same
    refine .tool connected found mem (enabled _ rfl) name fun args => ?_
    rw [eq]
    rfl

theorem Owned.changed_registerNeedsAuth (owned : m.Owned) {change : McpStatusChange Client}
    (needsAuth : change.status = .needsAuth)
    (free : m.hasOAuthService = true → change.remoteServerUrl.isSome →
      ∀ entry, m.mcpTools (qualifyMcpToolName change.name authToolToolName) = some entry →
        entry.serverName = change.name) :
    m.Changed change (m.registerNeedsAuthMcpServer change) := by
  unfold registerNeedsAuthMcpServer
  simp only [unregister_hasOAuthService, createMcpAuthTool_name]
  split
  case h_2 => exact owned.changed_unregister change
  case h_1 serverUrl service url =>
    have cleared := owned.changed_unregister change
    refine
      { others := fun qualified entry other => ?_
        othersListed := fun other ne => ?_
        own := fun qualified => ?_
        active := fun _ => .inr needsAuth
        made := fun qualified entry held same => ?_ }
    · by_cases same : qualified = qualifyMcpToolName change.name authToolToolName
      · subst same
        simp only [Function.update_self, Option.some.injEq]
        refine iff_of_false ?_ fun held => other (free service (by simp [url]) entry held)
        rintro rfl
        exact other rfl
      · simp only [Function.update_of_ne same]
        exact cleared.others qualified entry other
    · rw [← cleared.othersListed other ne]
      simp [listed, Function.update_of_ne ne]
    · simp only [listed, Function.update_self, Option.getD_some, List.mem_singleton]
      by_cases same : qualified = qualifyMcpToolName change.name authToolToolName
      · subst same
        simp
      · simp only [Function.update_of_ne same]
        refine iff_of_false same ?_
        rintro ⟨entry, held, own⟩
        exact (owned.unregister_eq_some.1 held).2 own
    · by_cases eq : qualified = qualifyMcpToolName change.name authToolToolName
      · subst eq
        simp only [Function.update_self, Option.some.injEq] at held
        subst held
        exact .authenticate needsAuth url rfl fun _ => rfl
      · simp only [Function.update_of_ne eq] at held
        exact absurd same (owned.unregister_eq_some.1 held).2

theorem emitMcpToolCollisions_mcpTools (m : McpToolManager Client) (serverName : List Char)
    (collisions : List McpToolCollision) :
    (m.emitMcpToolCollisions serverName collisions).mcpTools = m.mcpTools := by
  unfold emitMcpToolCollisions
  split <;> rfl

theorem emitMcpToolCollisions_mcpToolsByServer (m : McpToolManager Client)
    (serverName : List Char) (collisions : List McpToolCollision) :
    (m.emitMcpToolCollisions serverName collisions).mcpToolsByServer = m.mcpToolsByServer := by
  unfold emitMcpToolCollisions
  split <;> rfl

theorem Owned.changed (owned : m.Owned) {change : McpStatusChange Client}
    (active : change.inert = false)
    (free : change.status = .needsAuth → m.hasOAuthService = true → change.remoteServerUrl.isSome →
      ∀ entry, m.mcpTools (qualifyMcpToolName change.name authToolToolName) = some entry →
        entry.serverName = change.name) :
    m.Changed change (m.handleMcpServerStatusChange change) := by
  have cleared := owned.changed_unregister change
  unfold handleMcpServerStatusChange
  split
  case h_1 connected =>
    unfold registerConnectedMcpServer
    split
    case h_1 gone => simp [McpStatusChange.inert, connected, gone] at active
    case h_2 resolved found =>
      refine (owned.changed_registerMcpServer connected found).congr ?_ ?_
      · exact emitMcpToolCollisions_mcpTools _ _ _
      · exact emitMcpToolCollisions_mcpToolsByServer _ _ _
  case h_2 needsAuth => exact owned.changed_registerNeedsAuth needsAuth (free needsAuth)
  case h_3 => exact cleared.congr rfl rfl
  all_goals
    refine cleared.congr ?_ ?_
    all_goals
      simp only
      split <;> rfl

theorem handle_inert {change : McpStatusChange Client} (inert : change.inert = true) :
    m.handleMcpServerStatusChange change = m := by
  obtain ⟨connected, gone⟩ : change.status = .connected ∧ change.resolved = none := by
    simpa [McpStatusChange.inert] using inert
  simp [handleMcpServerStatusChange, registerConnectedMcpServer, connected, gone]

end McpToolManager

/-! ## Runs -/

namespace McpSession

open McpToolManager

variable {s : McpSession Client} {change : McpStatusChange Client}

theorem belongs_start (hasOAuthService : Bool) :
    (start hasOAuthService : McpSession Client).Belongs where
  listed_iff := by simp [start, listed]
  active := by simp [start, listed]
  made := by simp [start]

theorem status_next (serverName : List Char) : (s.next change).status serverName =
    if change.name = serverName then some change.status else s.status serverName := by
  unfold status next
  rw [List.find?_cons]
  by_cases same : change.name = serverName <;> simp [same]

theorem registration_next (serverName : List Char) : (s.next change).registration serverName =
    if change.name = serverName && !change.inert then some change
    else s.registration serverName := by
  unfold registration next
  rw [List.find?_cons]
  by_cases acted : (change.name = serverName && !change.inert) = true <;> simp [acted]

theorem Belongs.next (belongs : s.Belongs) (free : s.AuthNameFree change) :
    (s.next change).Belongs ∧ s.Undisturbed change := by
  by_cases inert : change.inert = true
  · have same : (s.next change).manager = s.manager := handle_inert inert
    have connected : change.status = .connected := by
      have := inert
      simp only [McpStatusChange.inert, Bool.and_eq_true, decide_eq_true_eq] at this
      exact this.1
    refine ⟨⟨?_, fun serverName nonempty => ?_, fun qualified entry held => ?_⟩, ?_⟩
    · rw [same]
      exact belongs.listed_iff
    · rw [same] at nonempty
      rw [status_next, connected]
      split
      · exact .inl rfl
      · exact belongs.active serverName nonempty
    · rw [same] at held
      rw [registration_next, inert]
      simpa using belongs.made qualified entry held
    · intro qualified entry held _
      rw [same]
      exact held
  · have inert : change.inert = false := by simpa using inert
    have changed := Owned.changed belongs.listed_iff inert free
    refine ⟨⟨fun serverName qualified => ?_, fun serverName nonempty => ?_,
      fun qualified entry held => ?_⟩, ?_⟩
    · by_cases own : serverName = change.name
      · subst own
        exact changed.own qualified
      · show qualified ∈ (s.manager.handleMcpServerStatusChange change).listed serverName ↔ _
        rw [changed.othersListed serverName own, belongs.listed_iff]
        refine exists_congr fun entry => and_congr_left fun name => ?_
        exact (changed.others qualified entry (name ▸ own)).symm
    · rw [status_next]
      by_cases own : change.name = serverName
      · subst own
        rw [if_pos rfl, Option.some.injEq, Option.some.injEq]
        exact changed.active nonempty
      · rw [if_neg own]
        apply belongs.active serverName
        rw [← changed.othersListed serverName (Ne.symm own)]
        exact nonempty
    · rw [registration_next, inert]
      by_cases own : change.name = entry.serverName
      · refine ⟨change, by simp [own], ?_⟩
        exact changed.made qualified entry held own.symm
      · rw [if_neg (by simp [own])]
        exact belongs.made qualified entry ((changed.others qualified entry (Ne.symm own)).1 held)
    · intro qualified entry held other
      exact (changed.others qualified entry other).2 held

/-- A change that takes the name of another server's tool for the synthetic one replaces that
tool. -/
theorem authNameFree_of_undisturbed (undisturbed : s.Undisturbed change) :
    s.AuthNameFree change := by
  intro needsAuth service url entry held
  by_contra other
  have after := undisturbed _ entry held other
  obtain ⟨serverUrl, url⟩ := Option.isSome_iff_exists.1 url
  simp only [next, handleMcpServerStatusChange, needsAuth, registerNeedsAuthMcpServer,
    unregister_hasOAuthService, service, url, createMcpAuthTool_name, Function.update_self,
    Option.some.injEq] at after
  exact other (after ▸ rfl)

theorem belongs_run {hasOAuthService : Bool} {changes : List (McpStatusChange Client)}
    (run : Run step AuthNameFree (start hasOAuthService) changes s) : s.Belongs := by
  refine run.invariant Belongs (belongs_start hasOAuthService) ?_
  intro s change t belongs free eq
  cases eq
  exact (belongs.next free).1

/-- In every run in which no synthetic tool is given the name of another server's tool the table
belongs to its servers, and the next change keeps that and the tools of the others exactly if it
meets the same condition. -/
theorem mcpTools_belong {hasOAuthService : Bool} {changes : List (McpStatusChange Client)}
    (run : Run step AuthNameFree (start hasOAuthService) changes s) :
    s.Belongs ∧ ∀ change, (s.next change).Belongs ∧ s.Undisturbed change ↔ s.AuthNameFree change :=
  ⟨belongs_run run, fun _ =>
    ⟨fun kept => authNameFree_of_undisturbed kept.2, fun free => (belongs_run run).next free⟩⟩

/-- A server connects that has a tool called `authenticate`, and one whose name is sanitised to the
same text needs authentication. -/
def sameSanitizedName : List (McpStatusChange String) :=
  [{ name := "a_b".toList
     status := .connected
     resolved := some ⟨"client", [⟨authToolToolName, "", .null⟩], [authToolToolName]⟩ },
   { name := "a b".toList, status := .needsAuth, remoteServerUrl := some "url" }]

theorem mcpTools_belong_connected :
    ((start true).next (sameSanitizedName.head (by decide))).Belongs :=
  (mcpTools_belong (.cons (fun needsAuth => by cases needsAuth) rfl .nil)).1

/-- The second server's synthetic tool replaces the first server's tool, which stays listed. -/
theorem sameSanitizedName_taken :
    ¬(sameSanitizedName.foldl next (start true)).Belongs := by
  intro belongs
  have listed : qualifyMcpToolName "a_b".toList authToolToolName ∈
      (sameSanitizedName.foldl next (start true)).manager.listed "a_b".toList := by decide +kernel
  obtain ⟨entry, held, owner⟩ := (belongs.listed_iff _ _).1 listed
  have taken : ((sameSanitizedName.foldl next (start true)).manager.mcpTools
      (qualifyMcpToolName "a_b".toList authToolToolName)).map (·.serverName) =
        some "a b".toList := by decide +kernel
  rw [held, Option.map_some, owner] at taken
  exact absurd taken (by decide)

end McpSession

end KimiCli
