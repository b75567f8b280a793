/-
NeuralHub.Mcp.ToolBridge — MCP servers, and their tools in the registry:
`server_manager.py`, `server_manager_support.py`, `tool_bridge.py`,
`bridge_support.py` and the registry under them.

A method of the manager holds the manager's lock until it ends. What it
changes is read under that lock only, and it raises the version where it
ends, so each is one action. A synchronization holds the bridge's lock and
asks the manager several times; between two questions anything may happen.
The removal of tools ahead of a question is an action of its own, since the
manager has no part in it.

Which tools a server lists is a function of its configuration. A client is
the configuration it was created from; it is in the table of clients while
it is connected, since a call of it that fails takes it out. The manager is
initialized, its store does not fail, and the numbers that the methods of
the bridge return are left out.
-/
import NeuralHub.Adapters.Streaming
import NeuralHub.Lib.Machine
import NeuralHub.Lib.Table

namespace NeuralHub.Mcp

open NeuralHub.Lib
open NeuralHub.Adapters (Python member)

/-! ## Tools and the registry -/

structure MCPToolInfo where
  name : String
  description : String := ""
  inputSchema : Members := .nil
  serverId : String
  deriving DecidableEq, Repr

structure ToolParameterSchema where
  type : String
  description : String
  required : List String
  properties : List (String × Json)
  deriving DecidableEq, Repr

structure ToolPermission where
  requiresApproval : Bool := false
  sandboxed : Bool := true
  deriving DecidableEq, Repr

structure ToolDefinition where
  name : String
  description : String
  category : String
  parameters : ToolParameterSchema
  permission : ToolPermission := {}
  sideEffect : Bool := true
  deriving DecidableEq, Repr

/-- What runs a tool: the closure of `_build_executor`, or anything else. -/
inductive Executor
  | mcp (serverId toolName : String)
  | native
  deriving DecidableEq, Repr

structure RegisteredTool where
  definition : ToolDefinition
  executor : Executor
  deriving DecidableEq, Repr

def RegisteredTool.name (tool : RegisteredTool) : String := tool.definition.name

/-- The server whose tool this is. -/
def RegisteredTool.server (tool : RegisteredTool) : Option String :=
  match tool.executor with
  | .mcp serverId _ => some serverId
  | .native => none

/-- `_tools` and `_executors`. -/
abbrev ToolRegistry := Table RegisteredTool.name

/-! ## `build_definition` -/

/-- `f"mcp__{server_id}__"`. -/
def toolPrefix (serverId : String) : String := "mcp__" ++ serverId ++ "__"

/-- `list(value)` where all of its items are strings. -/
def stringList : Json → Option (List String)
  | .arr items => items.toList.mapM fun item =>
      match item with
      | .str s => some s
      | _ => none
  | .str s => some (s.toList.map String.singleton)
  | .obj members => some (members.toList.map (·.1))
  | _ => none

/-- An item of a list that `dict` takes for a key and its value. -/
def keyAndValue : Json → Option (String × Json)
  | .arr items =>
    match items.toList with
    | [.str key, value] => some (key, value)
    | _ => none
  | .str s =>
    match s.toList with
    | [key, value] => some (String.singleton key, .str (String.singleton value))
    | _ => none
  | .obj members =>
    match members.toList with
    | [(key, _), (value, _)] => some (key, .str value)
    | _ => none
  | _ => none

/-- `dict(value)` where all of its keys are strings. -/
def dictOf : Json → Option (List (String × Json))
  | .obj members => some members.toList
  | .arr items => items.toList.mapM keyAndValue
  | .str s => if s = "" then some [] else none
  | _ => none

/-- `to_parameter_schema`; none where it raises. -/
def toParameterSchema (py : Python) (inputSchema : Members) : Option ToolParameterSchema := do
  let required ← stringList (member inputSchema "required" (.arr .nil))
  let properties ← dictOf (member inputSchema "properties" (.obj .nil))
  return {
    type := py.str (member inputSchema "type" (.str "object"))
    description := py.str (member inputSchema "description" (.str ""))
    required, properties }

/-- `build_definition`. -/
def buildDefinition (py : Python) (serverId : String) (tool : MCPToolInfo) :
    Option ToolDefinition :=
  (toParameterSchema py tool.inputSchema).map fun parameters =>
    { name := toolPrefix serverId ++ tool.name
      description :=
        if tool.description = "" then "MCP tool " ++ tool.name ++ " from " ++ serverId
        else tool.description
      category := "mcp"
      parameters
      permission := { requiresApproval := true, sandboxed := false } }

/-! ## `MCPServerManager` -/

inductive Transport
  | stdio
  | sse
  deriving DecidableEq, Repr

structure MCPServerConfig where
  id : String
  name : String
  transport : Transport := .stdio
  command : String := ""
  args : List String := []
  env : List (String × String) := []
  url : String := ""
  enabled : Bool := true
  deriving DecidableEq, Repr

structure MCPServerStatus where
  id : String
  name : String
  transport : Option Transport
  connected : Bool
  toolCount : Nat
  enabled : Bool
  deriving DecidableEq, Repr

/-- An entry of `_tool_cache`. -/
structure CachedTools where
  serverId : String
  tools : List MCPToolInfo
  deriving DecidableEq, Repr

structure MCPServerManager where
  servers : Table MCPServerConfig.id
  clients : Table MCPServerConfig.id := .empty
  toolCache : Table CachedTools.serverId := .empty
  version : Nat := 0

namespace MCPServerManager

variable (listTools : MCPServerConfig → List MCPToolInfo) (m : MCPServerManager)

def connected (serverId : String) : Bool := (m.clients.find serverId).isSome

/-- `build_status`. -/
def buildStatus (config : MCPServerConfig) : MCPServerStatus where
  id := config.id
  name := config.name
  transport := config.transport
  connected := m.connected config.id
  toolCount := ((m.toolCache.find config.id).map (·.tools.length)).getD 0
  enabled := config.enabled

/-- `missing_status`; the transport is `unknown`. -/
def missingStatus (serverId : String) : MCPServerStatus :=
  ⟨serverId, serverId, none, false, 0, false⟩

/-- A connected client and the tools it lists are stored. -/
def withClient (config : MCPServerConfig) : MCPServerManager :=
  { m with
    clients := m.clients.put config
    toolCache := m.toolCache.put ⟨config.id, listTools config⟩ }

/-- The client of a server and its tools are taken out. -/
def withoutClient (serverId : String) : MCPServerManager :=
  { m with clients := m.clients.erase serverId, toolCache := m.toolCache.erase serverId }

def bumpVersion : MCPServerManager := { m with version := m.version + 1 }

/-- `add_server`; `failure` is the error of `connect` or `list_tools`, if there is one. -/
def addServer (config : MCPServerConfig) (failure : Option String) :
    Except String String × MCPServerManager :=
  if m.servers.find config.id ≠ none then (.error "MCP_SERVER_EXISTS", m)
  else
    let added := { m with servers := m.servers.put config }
    if config.enabled then
      match failure with
      | some code => (.error code, m)
      | none => (.ok config.id, (added.withClient listTools config).bumpVersion)
    else (.ok config.id, added.bumpVersion)

/-- `remove_server`. -/
def removeServer (serverId : String) : Bool × MCPServerManager :=
  if m.servers.find serverId = none then (false, m)
  else
    (true, ({ m with servers := m.servers.erase serverId }.withoutClient serverId).bumpVersion)

/-- `list_servers`. -/
def listServers : List MCPServerStatus := m.servers.entries.map m.buildStatus

/-- `refresh_tools`: `connect_server_state`, and `_drop_failed_client` where a call fails. -/
def refreshTools (serverId : String) (failure : Option String) :
    Except String (List MCPToolInfo) × MCPServerManager :=
  match m.servers.find serverId with
  | none =>
    (.error "MCP_SERVER_NOT_FOUND", { m with toolCache := m.toolCache.erase serverId })
  | some config =>
    match m.clients.find serverId, failure with
    | none, none => (.ok (listTools config), m.withClient listTools config)
    | none, some code => (.error code, { m with toolCache := m.toolCache.erase serverId })
    | some client, none =>
      (.ok (listTools client),
        { m with toolCache := m.toolCache.put ⟨serverId, listTools client⟩ })
    | some _, some code => (.error code, (m.withoutClient serverId).bumpVersion)

/-- `connect_server`; a client that is there is replaced. -/
def connectServer (serverId : String) (failure : Option String) :
    Except String MCPServerStatus × MCPServerManager :=
  match m.servers.find serverId, failure with
  | none, _ => (.error "MCP_SERVER_NOT_FOUND", m)
  | some _, some code => (.error code, m)
  | some config, none =>
    let m := (m.withClient listTools config).bumpVersion
    (.ok (m.buildStatus config), m)

/-- `disconnect_server`. -/
def disconnectServer (serverId : String) (ignoreMissing : Bool) :
    Except String MCPServerStatus × MCPServerManager :=
  let dropped := m.withoutClient serverId
  match m.servers.find serverId, ignoreMissing with
  | none, false => (.error "MCP_SERVER_NOT_FOUND", dropped)
  | none, true => (.ok (missingStatus serverId), dropped.bumpVersion)
  | some config, _ => (.ok (dropped.buildStatus config), dropped.bumpVersion)

end MCPServerManager

/-! ## `MCPToolBridge` -/

/-- An entry of `_server_tools`. -/
structure ServerTools where
  serverId : String
  names : List String
  deriving DecidableEq, Repr

/-- What a bridge and its registry hold. -/
structure MCPToolBridge where
  registry : ToolRegistry
  serverTools : Table ServerTools.serverId := .empty
  syncedVersion : Int := -1

namespace MCPToolBridge

variable (py : Python) (bridge : MCPToolBridge)

/-- `_discover_names`. -/
def discoverNames (serverId : String) : List String :=
  (bridge.registry.entries.map RegisteredTool.name).filter fun name =>
    (toolPrefix serverId).toList.isPrefixOf name.toList

/-- `_remove_server_tools_locked`. -/
def removeServerTools (serverId : String) : MCPToolBridge :=
  let names :=
    match bridge.serverTools.find serverId with
    | some entry => entry.names
    | none => bridge.discoverNames serverId
  { bridge with
    registry := bridge.registry.keep fun tool => tool.name ∉ names
    serverTools := bridge.serverTools.erase serverId }

/-- The loop of `_sync_server_tools_locked`; it ends where a definition cannot be built or its
name is taken. -/
def registerTools (serverId : String) :
    ToolRegistry → List MCPToolInfo → ToolRegistry × Option (List String)
  | registry, [] => (registry, some [])
  | registry, tool :: rest =>
    match buildDefinition py serverId tool with
    | none => (registry, none)
    | some definition =>
      match registry.insertNew ⟨definition, .mcp serverId tool.name⟩ with
      | none => (registry, none)
      | some registry =>
        let (registry, names) := registerTools serverId registry rest
        (registry, names.map (definition.name :: ·))

/-- `_sync_server_tools_locked` behind its question; the record is written where nothing
has been raised. -/
def registerServer (serverId : String) (tools : List MCPToolInfo) : MCPToolBridge :=
  match registerTools py serverId bridge.registry tools with
  | (registry, none) => { bridge with registry }
  | (registry, some names) =>
    { bridge with registry, serverTools := bridge.serverTools.put ⟨serverId, names⟩ }

end MCPToolBridge

/-! ## Interleaved operations -/

/-- A method of the bridge that takes its lock. -/
inductive SyncCall
  | syncAll
  | syncServerTools (serverId : String)
  deriving DecidableEq, Repr

/-- What the holder of the bridge's lock does next. The rest are the servers behind this one
in a `sync_all`; there is none in `sync_server_tools`. -/
inductive Question
  | list
  | remove (serverId : String) (rest : Option (List String))
  | refresh (serverId : String) (rest : Option (List String))
  deriving DecidableEq, Repr

structure BridgeState where
  manager : MCPServerManager
  bridge : MCPToolBridge
  waiting : List SyncCall := []
  holder : Option Question := none

/-- `needs_sync`. -/
def BridgeState.needsSync (s : BridgeState) : Prop :=
  (s.manager.version : Int) ≠ s.bridge.syncedVersion

instance (s : BridgeState) : Decidable s.needsSync := inferInstanceAs (Decidable (_ ≠ _))

inductive Action
  | addServer (config : MCPServerConfig) (failure : Option String)
  | removeServer (serverId : String)
  | connectServer (serverId : String) (failure : Option String)
  | disconnectServer (serverId : String) (ignoreMissing : Bool)
  | syncIfNeeded
  | call (call : SyncCall)
  /-- the first one that waits takes the bridge's lock -/
  | acquire
  /-- the holder of the lock goes on -/
  | resume (failure : Option String)

namespace BridgeState

/-- The next server of a synchronization, or its end. -/
def continueWith (s : BridgeState) : Option (List String) → BridgeState
  | none => { s with holder := none }
  | some [] =>
    { s with bridge := { s.bridge with syncedVersion := s.manager.version }, holder := none }
  | some (serverId :: rest) => { s with holder := some (.remove serverId (some rest)) }

/-- `active_ids`, in the order of the list. -/
def activeIds (s : BridgeState) : List String :=
  (s.manager.listServers.filter fun status => status.enabled && status.connected).map (·.id)

/-- `sync_all` behind the list: what is not active is removed, the rest is to be refreshed. -/
def listed (s : BridgeState) : BridgeState :=
  let inactive := (s.bridge.serverTools.entries.map (·.serverId)).filter (· ∉ s.activeIds)
  { s with bridge := inactive.foldl MCPToolBridge.removeServerTools s.bridge }.continueWith
    (some s.activeIds)

/-- `refresh_tools`, the registration, and what follows. What has raised ends
`sync_server_tools`, which is at its end, and `sync_all` goes on. -/
def refreshed (listTools : MCPServerConfig → List MCPToolInfo) (py : Python) (s : BridgeState)
    (serverId : String) (rest : Option (List String)) (failure : Option String) : BridgeState :=
  match s.manager.refreshTools listTools serverId failure with
  | (.error _, manager) => { s with manager }.continueWith rest
  | (.ok tools, manager) =>
    { s with manager, bridge := s.bridge.registerServer py serverId tools }.continueWith rest

end BridgeState

def machine (listTools : MCPServerConfig → List MCPToolInfo) (py : Python) :
    Machine BridgeState Action where
  step s
    | .addServer config failure =>
      some { s with manager := (s.manager.addServer listTools config failure).2 }
    | .removeServer serverId => some { s with manager := (s.manager.removeServer serverId).2 }
    | .connectServer serverId failure =>
      some { s with manager := (s.manager.connectServer listTools serverId failure).2 }
    | .disconnectServer serverId ignoreMissing =>
      some { s with manager := (s.manager.disconnectServer serverId ignoreMissing).2 }
    | .syncIfNeeded =>
      if s.needsSync then some { s with waiting := s.waiting ++ [.syncAll] } else some s
    | .call call => some { s with waiting := s.waiting ++ [call] }
    | .acquire =>
      match s.holder, s.waiting with
      | none, .syncAll :: waiting => some { s with waiting, holder := some .list }
      | none, .syncServerTools serverId :: waiting =>
        some { s with waiting, holder := some (.remove serverId none) }
      | _, _ => none
    | .resume failure =>
      match s.holder with
      | none => none
      | some .list => some s.listed
      | some (.remove serverId rest) =>
        some { s with
          bridge := s.bridge.removeServerTools serverId
          holder := some (.refresh serverId rest) }
      | some (.refresh serverId rest) =>
        some (s.refreshed listTools py serverId rest failure)

end NeuralHub.Mcp
