/-
NeuralHub.Mcp.BridgedTools — when the tools in the registry are those of
the connected servers.

A synchronization of all servers records at its end the version that the
manager has by then, so a change behind its list is taken for seen. A
server of which the bridge has no record gets its tools removed by the
prefix of their names, which tools of another server may have as well. And
a registration that raises leaves tools behind that no record names.
`Careful` excludes these; what is left is an invariant, `Inv`: each server
but those that the holder of the lock has still to refresh is mirrored in
the registry (`Mirrored`), unless a synchronization is due anyway.
-/
import NeuralHub.Mcp.ToolBridge

namespace NeuralHub.Mcp

open NeuralHub.Lib
open NeuralHub.Adapters (Python)

variable {listTools : MCPServerConfig → List MCPToolInfo} {py : Python}
  {m : MCPServerManager} {bridge : MCPToolBridge} {registry registry' : ToolRegistry}
  {s t : BridgeState} {id : String} {config : MCPServerConfig}

/-! ## What is to hold -/

/-- The registered tool for a tool of a server. -/
def bridgedTool (py : Python) (serverId : String) (tool : MCPToolInfo) : Option RegisteredTool :=
  (buildDefinition py serverId tool).map fun definition =>
    ⟨definition, .mcp serverId tool.name⟩

/-- The configuration of a server that is enabled and connected. -/
def Active (m : MCPServerManager) (config : MCPServerConfig) : Prop :=
  m.servers.find config.id = some config ∧ config.enabled = true ∧ m.connected config.id = true

structure Good (listTools : MCPServerConfig → List MCPToolInfo) (py : Python)
    (native : List RegisteredTool) (s : BridgeState) : Prop where
  /-- the MCP tools in the registry are tools of active servers -/
  sound : ∀ tool ∈ s.bridge.registry.entries, tool.definition.category = "mcp" →
    ∃ config, Active s.manager config ∧
      ∃ info ∈ listTools config, bridgedTool py config.id info = some tool
  /-- every tool of an active server is in the registry -/
  complete : ∀ config, Active s.manager config → ∀ info ∈ listTools config,
    ∃ tool ∈ s.bridge.registry.entries, bridgedTool py config.id info = some tool
  /-- the bridge knows the names to remove -/
  recorded : ∀ tool ∈ s.bridge.registry.entries, tool.definition.category = "mcp" →
    ∃ id entry, tool.server = some id ∧ s.bridge.serverTools.find id = some entry ∧
      tool.name ∈ entry.names
  native : s.bridge.registry.entries.filter (fun tool => tool.definition.category ≠ "mcp") =
    native

/-- No method is at work, and no synchronization is due. -/
def Settled (s : BridgeState) : Prop := s.holder = none ∧ s.waiting = [] ∧ ¬s.needsSync

/-- A bridge that is new, and a registry without MCP tools. -/
structure Start (s : BridgeState) : Prop where
  clients : ∀ k client, s.manager.clients.find k = some client →
    s.manager.servers.find k = some client
  serverTools : s.bridge.serverTools.entries = []
  syncedVersion : s.bridge.syncedVersion = -1
  native : ∀ tool ∈ s.bridge.registry.entries,
    tool.executor = .native ∧ tool.definition.category ≠ "mcp"
  waiting : s.waiting = []
  holder : s.holder = none

/-! ## The condition -/

/-- A `sync_all` is at work behind its list. -/
def BridgeState.SyncingAll (s : BridgeState) : Prop :=
  match s.holder with
  | some (.remove _ (some _)) => True
  | some (.refresh _ (some _)) => True
  | _ => False

/-- A method of the manager that does not raise the version. -/
def Refused (m : MCPServerManager) : Action → Prop
  | .addServer config failure =>
    m.servers.find config.id ≠ none ∨ (config.enabled = true ∧ failure ≠ none)
  | .removeServer id => m.servers.find id = none
  | .connectServer id failure => m.servers.find id = none ∨ failure ≠ none
  | .disconnectServer id ignoreMissing => m.servers.find id = none ∧ ignoreMissing = false
  | _ => True

/-- The tools of a server can be built, and their names are free. -/
def Registrable (listTools : MCPServerConfig → List MCPToolInfo) (py : Python)
    (registry : ToolRegistry) (config : MCPServerConfig) : Prop :=
  ∀ info ∈ listTools config, ∃ tool ∈ bridgedTool py config.id info,
    registry.find tool.name = none

/-- Where the holder of the lock removes the tools of a server without a record, no name
begins with the prefix of the server; where it registers tools, none is refused, and they are
not those of a server that is not enabled, unless a synchronization is due. -/
def ResumeOk (listTools : MCPServerConfig → List MCPToolInfo) (py : Python) (s : BridgeState)
    (failure : Option String) : Prop :=
  match s.holder with
  | some (.remove id _) =>
    s.bridge.serverTools.find id = none → s.bridge.discoverNames id = []
  | some (.refresh id rest) => failure = none → ∀ config ∈ s.manager.servers.find id,
      Registrable listTools py s.bridge.registry config ∧
        (rest ≠ none ∨ config.enabled = true ∨ s.needsSync)
  | _ => True

def Careful (listTools : MCPServerConfig → List MCPToolInfo) (py : Python) (s : BridgeState) :
    Action → Prop
  | .resume failure => ResumeOk listTools py s failure
  | a => s.SyncingAll → Refused s.manager a

instance : Decidable s.SyncingAll := by
  unfold BridgeState.SyncingAll
  split <;> infer_instance

instance (a : Action) : Decidable (Refused m a) := by
  unfold Refused
  split <;> infer_instance

instance : Decidable (Registrable listTools py registry config) :=
  inferInstanceAs (Decidable (∀ info ∈ listTools config,
    ∃ tool ∈ bridgedTool py config.id info, registry.find tool.name = none))

instance (failure : Option String) : Decidable (ResumeOk listTools py s failure) := by
  unfold ResumeOk
  split <;> infer_instance

instance (a : Action) : Decidable (Careful listTools py s a) := by
  unfold Careful
  split <;> infer_instance

/-! ## Tools of a server -/

/-- The tools in the registry that are of this server. -/
def toolsOf (registry : ToolRegistry) (id : String) : List RegisteredTool :=
  registry.entries.filter fun tool => tool.server = some id

/-- The tools that are of no server. -/
def nativeTools (registry : ToolRegistry) : List RegisteredTool :=
  registry.entries.filter fun tool => tool.server = none

theorem bridgedTool_eq_some {info : MCPToolInfo} {tool : RegisteredTool}
    (h : bridgedTool py id info = some tool) :
    tool.server = some id ∧ tool.definition.category = "mcp" ∧
      tool.name = toolPrefix id ++ info.name := by
  obtain ⟨definition, hdef, rfl⟩ := Option.map_eq_some_iff.mp h
  obtain ⟨parameters, -, rfl⟩ := Option.map_eq_some_iff.mp hdef
  exact ⟨rfl, rfl, rfl⟩

/-- The registration is of all tools, behind what is there, or it raises. -/
theorem registerTools_spec {tools : List MCPToolInfo} {names : List String}
    (h : MCPToolBridge.registerTools py id registry tools = (registry', some names)) :
    ∃ added, registry'.entries = registry.entries ++ added ∧
      tools.map (bridgedTool py id) = added.map some ∧ names = added.map RegisteredTool.name := by
  induction tools generalizing registry names with
  | nil =>
    cases h
    exact ⟨[], by simp⟩
  | cons info rest ih =>
    rw [MCPToolBridge.registerTools] at h
    cases hdef : buildDefinition py id info with
    | none => simp [hdef] at h
    | some definition =>
      cases hins : registry.insertNew ⟨definition, .mcp id info.name⟩ with
      | none => simp [hdef, hins] at h
      | some next =>
        obtain ⟨-, hentries⟩ := Table.insertNew_eq_some_iff.mp hins
        cases hrest : MCPToolBridge.registerTools py id next rest with
        | mk final restNames =>
          simp only [hdef, hins, hrest, Prod.mk.injEq, Option.map_eq_some_iff] at h
          obtain ⟨rfl, restNames', rfl, rfl⟩ := h
          obtain ⟨added, hfinal, htools, hnames⟩ := ih hrest
          refine ⟨⟨definition, .mcp id info.name⟩ :: added, ?_, ?_, ?_⟩
          · rw [hfinal, hentries, List.append_assoc, List.singleton_append]
          · rw [List.map_cons, List.map_cons, htools, bridgedTool, hdef]
            rfl
          · rw [List.map_cons, hnames]
            rfl

/-- Tools that can be built, with names that are free and distinct, are all registered. -/
theorem exists_registerTools {tools : List MCPToolInfo}
    (hdistinct : (tools.map (·.name)).Nodup)
    (hfree : ∀ info ∈ tools, ∃ tool, bridgedTool py id info = some tool ∧
      registry.find tool.name = none) :
    ∃ registry' names, MCPToolBridge.registerTools py id registry tools =
      (registry', some names) := by
  induction tools generalizing registry with
  | nil => exact ⟨registry, [], rfl⟩
  | cons info rest ih =>
    rw [List.map_cons, List.nodup_cons] at hdistinct
    obtain ⟨⟨tool, htool, hname⟩, hrest⟩ := List.forall_mem_cons.mp hfree
    obtain ⟨definition, hdef, rfl⟩ := Option.map_eq_some_iff.mp htool
    obtain ⟨next, hnext⟩ : ∃ next, registry.insertNew ⟨definition, .mcp id info.name⟩ =
        some next := by
      rw [Table.insertNew, dif_neg (Table.find_eq_none_iff.mp hname)]
      exact ⟨_, rfl⟩
    have hfreeRest : ∀ other ∈ rest, ∃ tool, bridgedTool py id other = some tool ∧
        next.find tool.name = none := by
      intro other hother
      obtain ⟨tool, hbuilt, hnone⟩ := hrest other hother
      refine ⟨tool, hbuilt, ?_⟩
      rw [Table.find_insertNew hnext, if_neg, hnone]
      intro heq
      have hnames : toolPrefix id ++ other.name = toolPrefix id ++ info.name := by
        rw [← (bridgedTool_eq_some hbuilt).2.2, ← (bridgedTool_eq_some htool).2.2]
        exact heq
      refine hdistinct.1 ?_
      rw [← (String.append_right_inj _).mp hnames]
      exact List.mem_map_of_mem hother
    obtain ⟨final, names, hfinal⟩ := ih hdistinct.2 hfreeRest
    refine ⟨final, definition.name :: names, ?_⟩
    simp only [MCPToolBridge.registerTools, hdef, hnext, hfinal, Option.map_some]

/-! ## What the bridge has recorded -/

/-- The names on record for a server are those of its tools in the registry. -/
def Recorded (bridge : MCPToolBridge) : Prop :=
  ∀ id, ((bridge.serverTools.find id).map (·.names)).getD [] =
    (toolsOf bridge.registry id).map RegisteredTool.name

/-- The bridge after all tools of a server have been taken away. -/
structure Without (bridge : MCPToolBridge) (id : String) (after : MCPToolBridge) : Prop where
  entries : after.registry.entries = bridge.registry.entries.filter (·.server ≠ some id)
  serverTools : after.serverTools = bridge.serverTools.erase id
  syncedVersion : after.syncedVersion = bridge.syncedVersion

theorem toolsOf_of_filter {id k : String}
    (h : registry'.entries = registry.entries.filter (·.server ≠ some id)) :
    toolsOf registry' k = if k = id then [] else toolsOf registry k := by
  rw [toolsOf, h, List.filter_filter]
  split
  · rename_i hk
    rw [List.filter_eq_nil_iff]
    simp [hk]
  · rename_i hk
    refine List.filter_congr fun tool _ => ?_
    by_cases hserver : tool.server = some k
    · simp [hserver, hk]
    · simp [hserver]

theorem nativeTools_of_filter
    (h : registry'.entries = registry.entries.filter (·.server ≠ some id)) :
    nativeTools registry' = nativeTools registry := by
  rw [nativeTools, h, List.filter_filter]
  refine List.filter_congr fun tool _ => ?_
  by_cases hserver : tool.server = none
  · simp [hserver]
  · simp [hserver]

/-- With a record, or without a name to discover, exactly the tools of the server go. -/
theorem without_removeServerTools (hrec : Recorded bridge)
    (hclean : bridge.serverTools.find id = none → bridge.discoverNames id = []) :
    Without bridge id (bridge.removeServerTools id) := by
  refine ⟨?_, rfl, rfl⟩
  have hnames := hrec id
  show bridge.registry.entries.filter _ = _
  refine List.filter_congr fun tool htool => ?_
  rw [decide_eq_decide, not_iff_not]
  cases hfind : bridge.serverTools.find id with
  | none =>
    rw [hfind, Option.map_none, Option.getD_none] at hnames
    have hnone : toolsOf bridge.registry id = [] := List.map_eq_nil_iff.mp hnames.symm
    rw [toolsOf, List.filter_eq_nil_iff] at hnone
    simp only [hclean hfind, List.not_mem_nil, false_iff]
    exact fun hserver => hnone tool htool (decide_eq_true hserver)
  | some entry =>
    rw [hfind, Option.map_some, Option.getD_some] at hnames
    show tool.name ∈ entry.names ↔ _
    rw [hnames, List.mem_map]
    constructor
    · rintro ⟨other, hother, hname⟩
      obtain ⟨hmem, hserver⟩ := List.mem_filter.mp hother
      have hfindOther := Table.find_of_mem hmem
      rw [hname, Table.find_of_mem htool] at hfindOther
      rw [Option.some.inj hfindOther]
      exact decide_eq_true_iff.mp hserver
    · exact fun hserver => ⟨tool, List.mem_filter.mpr ⟨htool, decide_eq_true hserver⟩, rfl⟩

theorem Without.toolsOf {after : MCPToolBridge} (h : Without bridge id after) (k : String) :
    toolsOf after.registry k = if k = id then [] else toolsOf bridge.registry k :=
  toolsOf_of_filter h.entries

theorem Without.recorded {after : MCPToolBridge} (h : Without bridge id after)
    (hrec : Recorded bridge) : Recorded after := by
  intro k
  rw [h.serverTools, Table.find_erase, h.toolsOf]
  split
  · rfl
  · exact hrec k

/-- What no step of the bridge changes but the end of a synchronization. -/
structure Steady (native : List RegisteredTool) (bridge : MCPToolBridge) : Prop where
  recorded : Recorded bridge
  native : nativeTools bridge.registry = native
  category : ∀ tool ∈ bridge.registry.entries,
    (tool.server = none ↔ tool.definition.category ≠ "mcp")

variable {native : List RegisteredTool}

theorem Without.steady {after : MCPToolBridge} (h : Without bridge id after)
    (hs : Steady native bridge) : Steady native after := by
  refine ⟨h.recorded hs.recorded, ?_, fun tool htool => ?_⟩
  · rw [nativeTools_of_filter h.entries, hs.native]
  · rw [h.entries] at htool
    exact hs.category tool (List.mem_filter.mp htool).1

/-- The removal of several servers with records. -/
theorem removeAll_spec {ids : List String} (hs : Steady native bridge) (hnodup : ids.Nodup)
    (hthere : ∀ k ∈ ids, bridge.serverTools.find k ≠ none) :
    let after := ids.foldl MCPToolBridge.removeServerTools bridge
    Steady native after ∧ after.syncedVersion = bridge.syncedVersion ∧
      ∀ k, toolsOf after.registry k = if k ∈ ids then [] else toolsOf bridge.registry k := by
  induction ids generalizing bridge with
  | nil => exact ⟨hs, rfl, fun k => (if_neg List.not_mem_nil).symm⟩
  | cons id rest ih =>
    rw [List.nodup_cons] at hnodup
    obtain ⟨hid, hrest⟩ := List.forall_mem_cons.mp hthere
    have hwithout := without_removeServerTools hs.recorded fun hnone => absurd hnone hid
    have hthereRest : ∀ k ∈ rest,
        (bridge.removeServerTools id).serverTools.find k ≠ none := by
      intro k hk
      rw [hwithout.serverTools, Table.find_erase, if_neg]
      · exact hrest k hk
      · rintro rfl
        exact hnodup.1 hk
    obtain ⟨hsteady, hsynced, htools⟩ := ih (hwithout.steady hs) hnodup.2 hthereRest
    refine ⟨hsteady, hsynced.trans hwithout.syncedVersion, fun k => ?_⟩
    rw [List.foldl_cons, htools, hwithout.toolsOf]
    by_cases hk : k = id
    · simp [hk]
    · simp [hk]

/-- What a registration that does not raise does. -/
theorem registerServer_spec {tools : List MCPToolInfo} {after : MCPToolBridge}
    {names : List String} (hs : Steady native bridge) (hnone : toolsOf bridge.registry id = [])
    (hreg : MCPToolBridge.registerTools py id bridge.registry tools = (registry, some names))
    (h : bridge.registerServer py id tools = after) :
    Steady native after ∧ after.syncedVersion = bridge.syncedVersion ∧
      tools.map (bridgedTool py id) = (toolsOf after.registry id).map some ∧
      ∀ k, k ≠ id → toolsOf after.registry k = toolsOf bridge.registry k := by
  rw [MCPToolBridge.registerServer, hreg] at h
  subst h
  obtain ⟨added, hentries, htools, rfl⟩ := registerTools_spec hreg
  have hadded : ∀ tool ∈ added, tool.server = some id ∧ tool.definition.category = "mcp" := by
    intro tool htool
    have hmem : some tool ∈ tools.map (bridgedTool py id) := by
      rw [htools]
      exact List.mem_map_of_mem htool
    obtain ⟨info, -, hinfo⟩ := List.mem_map.mp hmem
    exact ⟨(bridgedTool_eq_some hinfo).1, (bridgedTool_eq_some hinfo).2.1⟩
  have hown : toolsOf registry id = added := by
    rw [toolsOf, hentries, List.filter_append, ← toolsOf, hnone, List.nil_append,
      List.filter_eq_self]
    exact fun tool htool => decide_eq_true (hadded tool htool).1
  have hother : ∀ k, k ≠ id → toolsOf registry k = toolsOf bridge.registry k := by
    intro k hk
    rw [toolsOf, hentries, List.filter_append, ← toolsOf,
      List.filter_eq_nil_iff.mpr, List.append_nil]
    intro tool htool hserver
    rw [(hadded tool htool).1] at hserver
    exact hk (Option.some.inj (decide_eq_true_iff.mp hserver)).symm
  refine ⟨⟨fun k => ?_, ?_, fun tool htool => ?_⟩, rfl, by rw [htools, hown], hother⟩
  · show (((bridge.serverTools.put ⟨id, _⟩).find k).map (·.names)).getD [] = _
    rw [Table.find_put]
    split
    · rename_i hk
      rw [show k = id from hk, hown]
      rfl
    · rename_i hk
      rw [hother k hk]
      exact hs.recorded k
  · rw [nativeTools, hentries, List.filter_append, ← nativeTools, hs.native,
      List.filter_eq_nil_iff.mpr, List.append_nil]
    intro tool htool hserver
    rw [(hadded tool htool).1] at hserver
    simp at hserver
  · rw [hentries] at htool
    rcases List.mem_append.mp htool with hmem | hmem
    · exact hs.category tool hmem
    · rw [(hadded tool hmem).1, (hadded tool hmem).2]
      simp

/-! ## The manager -/

/-- The configuration of a server that is to be mirrored. -/
def activeConfig (m : MCPServerManager) (id : String) : Option MCPServerConfig :=
  (m.servers.find id).filter fun config => config.enabled && m.connected id

/-- Clients are of servers. -/
def ClientsOk (m : MCPServerManager) : Prop :=
  ∀ k client, m.clients.find k = some client → m.servers.find k = some client

/-- Two managers with the same servers, connected and not. -/
structure Alike (m n : MCPServerManager) : Prop where
  servers : ∀ k, n.servers.find k = m.servers.find k
  clients : ∀ k, n.clients.find k = m.clients.find k
  version : n.version = m.version

theorem Alike.refl (m : MCPServerManager) : Alike m m := ⟨fun _ => rfl, fun _ => rfl, rfl⟩

theorem activeConfig_congr {m n : MCPServerManager} {k : String}
    (hservers : n.servers.find k = m.servers.find k)
    (hclients : n.clients.find k = m.clients.find k) :
    activeConfig n k = activeConfig m k := by
  rw [activeConfig, activeConfig, hservers, MCPServerManager.connected, hclients]
  rfl

theorem Alike.clientsOk {m n : MCPServerManager} (h : Alike m n) (hm : ClientsOk m) :
    ClientsOk n := by
  intro k client hk
  rw [h.servers]
  exact hm k client (h.clients k ▸ hk)

theorem activeConfig_eq_some :
    activeConfig m id = some config ↔ Active m config ∧ config.id = id := by
  rw [activeConfig, Option.filter_eq_some_iff, Bool.and_eq_true]
  constructor
  · rintro ⟨hfind, henabled, hconnected⟩
    obtain rfl := Table.key_of_find hfind
    exact ⟨⟨hfind, henabled, hconnected⟩, rfl⟩
  · rintro ⟨⟨hfind, henabled, hconnected⟩, rfl⟩
    exact ⟨hfind, henabled, hconnected⟩

/-- A method of the manager changes nothing that counts, or raises the version. -/
structure Managed (m n : MCPServerManager) (refused : Prop) : Prop where
  clientsOk : ClientsOk n
  version : m.version ≤ n.version
  alike : refused → Alike m n
  raised : ¬refused → m.version < n.version

theorem managed_addServer (hm : ClientsOk m) (failure : Option String) :
    Managed m (m.addServer listTools config failure).2
      (Refused m (.addServer config failure)) := by
  unfold MCPServerManager.addServer
  split
  · rename_i hthere
    exact ⟨hm, le_refl _, fun _ => .refl m, fun hne => absurd (Or.inl hthere) hne⟩
  rename_i hnew
  have hclients : ∀ k, k ≠ config.id → ∀ client, m.clients.find k = some client →
      (m.servers.put config).find k = some client := by
    intro k hk client hclient
    rw [Table.find_put_of_ne _ hk]
    exact hm k client hclient
  have hnone : m.clients.find config.id = none := by
    by_contra hne
    obtain ⟨client, hclient⟩ := Option.ne_none_iff_exists'.mp hne
    exact hnew (by rw [hm _ client hclient]; exact Option.some_ne_none client)
  split
  · rename_i henabled
    cases failure with
    | some code =>
      exact ⟨hm, le_refl _, fun _ => .refl m,
        fun hne => absurd (Or.inr ⟨henabled, Option.some_ne_none code⟩) hne⟩
    | none =>
      refine ⟨fun k client hk => ?_, Nat.le_succ _, fun hrefused => ?_,
        fun _ => Nat.lt_succ_self _⟩
      · change (m.clients.put config).find k = some client at hk
        show (m.servers.put config).find k = some client
        rw [Table.find_put] at hk
        split at hk
        · rename_i heq
          cases hk
          rw [heq, Table.find_put_self]
        · rename_i hne
          exact hclients k hne client hk
      · rcases hrefused with h | h
        · exact absurd h hnew
        · exact absurd rfl h.2
  · rename_i hdisabled
    refine ⟨fun k client hk => ?_, Nat.le_succ _, fun hrefused => ?_,
      fun _ => Nat.lt_succ_self _⟩
    · refine hclients k ?_ client hk
      rintro rfl
      change m.clients.find config.id = some client at hk
      rw [hnone] at hk
      cases hk
    · rcases hrefused with h | h
      · exact absurd h hnew
      · exact absurd h.1 hdisabled

theorem managed_removeServer (hm : ClientsOk m) :
    Managed m (m.removeServer id).2 (Refused m (.removeServer id)) := by
  unfold MCPServerManager.removeServer
  split
  · rename_i hnone
    exact ⟨hm, le_refl _, fun _ => .refl m, fun hne => absurd hnone hne⟩
  · rename_i hthere
    refine ⟨fun k client hk => ?_, Nat.le_succ _, fun hrefused => absurd hrefused hthere,
      fun _ => Nat.lt_succ_self _⟩
    change (m.clients.erase id).find k = some client at hk
    show (m.servers.erase id).find k = some client
    rw [Table.find_erase] at hk ⊢
    split at hk
    · cases hk
    · rename_i hne
      rw [if_neg hne]
      exact hm k client hk

theorem clientsOk_withClient (listTools : MCPServerConfig → List MCPToolInfo)
    (hm : ClientsOk m) (hfind : m.servers.find config.id = some config) :
    ClientsOk (m.withClient listTools config) := by
  intro k client hk
  change (m.clients.put config).find k = some client at hk
  show m.servers.find k = some client
  rw [Table.find_put] at hk
  split at hk
  · rename_i heq
    cases hk
    rw [heq, hfind]
  · exact hm k client hk

theorem clientsOk_withoutClient (hm : ClientsOk m) : ClientsOk (m.withoutClient id) := by
  intro k client hk
  change (m.clients.erase id).find k = some client at hk
  rw [Table.find_erase] at hk
  split at hk
  · cases hk
  · exact hm k client hk

theorem managed_connectServer (hm : ClientsOk m) (failure : Option String) :
    Managed m (m.connectServer listTools id failure).2
      (Refused m (.connectServer id failure)) := by
  unfold MCPServerManager.connectServer
  cases hfind : m.servers.find id with
  | none => exact ⟨hm, le_refl _, fun _ => .refl m, fun hne => absurd (Or.inl hfind) hne⟩
  | some config =>
    cases failure with
    | some code =>
      exact ⟨hm, le_refl _, fun _ => .refl m,
        fun hne => absurd (Or.inr (Option.some_ne_none code)) hne⟩
    | none =>
      have hid : m.servers.find config.id = some config := by
        rw [Table.key_of_find hfind, hfind]
      refine ⟨clientsOk_withClient listTools hm hid, Nat.le_succ _, fun hrefused => ?_,
        fun _ => Nat.lt_succ_self _⟩
      rcases hrefused with h | h
      · rw [hfind] at h
        cases h
      · exact absurd rfl h

theorem managed_disconnectServer (hm : ClientsOk m) (ignoreMissing : Bool) :
    Managed m (m.disconnectServer id ignoreMissing).2
      (Refused m (.disconnectServer id ignoreMissing)) := by
  unfold MCPServerManager.disconnectServer
  have hok : ClientsOk (m.withoutClient id) := clientsOk_withoutClient hm
  cases hfind : m.servers.find id with
  | none =>
    cases ignoreMissing with
    | false =>
      refine ⟨hok, le_refl _, fun _ => ⟨fun _ => rfl, fun k => ?_, rfl⟩,
        fun hne => absurd ⟨hfind, rfl⟩ hne⟩
      show (m.clients.erase id).find k = m.clients.find k
      rw [Table.find_erase]
      split
      · rename_i hk
        by_contra hne
        obtain ⟨client, hclient⟩ := Option.ne_none_iff_exists'.mp fun h => hne h.symm
        rw [hk] at hclient
        rw [hm id client hclient] at hfind
        cases hfind
      · rfl
    | true =>
      exact ⟨hok, Nat.le_succ _, fun hrefused => absurd hrefused.2 (by decide),
        fun _ => Nat.lt_succ_self _⟩
  | some config =>
    refine ⟨hok, Nat.le_succ _, fun hrefused => ?_, fun _ => Nat.lt_succ_self _⟩
    rw [show m.servers.find id = none from hrefused.1] at hfind
    cases hfind

/-! ## The invariant -/

/-- The registry has the tools of this server, if it is active, and no other ones of it. -/
def Mirrored (listTools : MCPServerConfig → List MCPToolInfo) (py : Python)
    (m : MCPServerManager) (registry : ToolRegistry) (id : String) : Prop :=
  match activeConfig m id with
  | some config => (listTools config).map (bridgedTool py id) = (toolsOf registry id).map some
  | none => toolsOf registry id = []

theorem Mirrored.congr {n : MCPServerManager} (h : Mirrored listTools py m registry id)
    (hm : activeConfig n id = activeConfig m id)
    (hr : toolsOf registry' id = toolsOf registry id) : Mirrored listTools py n registry' id := by
  rw [Mirrored, hm, hr]
  exact h

theorem mirrored_of_none (h : activeConfig m id = none) (ht : toolsOf registry id = []) :
    Mirrored listTools py m registry id := by
  rw [Mirrored, h]
  exact ht

theorem mirrored_of_some (h : activeConfig m id = some config)
    (ht : (listTools config).map (bridgedTool py id) = (toolsOf registry id).map some) :
    Mirrored listTools py m registry id := by
  rw [Mirrored, h]
  exact ht

/-- The servers that the holder of the lock has still to refresh. -/
def BridgeState.pending (s : BridgeState) : List String :=
  match s.holder with
  | some (.remove id rest) => id :: rest.getD []
  | some (.refresh id rest) => id :: rest.getD []
  | _ => []

/-- What holds of the others is right if a `sync_all` is at work, or none is due. -/
def BridgeState.Reliable (s : BridgeState) : Prop := s.SyncingAll ∨ ¬s.needsSync

def Enabled (m : MCPServerManager) (id : String) : Prop :=
  ∀ config, m.servers.find id = some config → config.enabled = true

structure Inv (listTools : MCPServerConfig → List MCPToolInfo) (py : Python)
    (native : List RegisteredTool) (s : BridgeState) : Prop where
  steady : Steady native s.bridge
  clients : ClientsOk s.manager
  version : s.bridge.syncedVersion ≤ s.manager.version
  mirrored : s.Reliable → ∀ k, k ∉ s.pending →
    Mirrored listTools py s.manager s.bridge.registry k
  enabled : s.SyncingAll → ∀ k ∈ s.pending, Enabled s.manager k
  cleared : ∀ id rest, s.holder = some (.refresh id rest) →
    toolsOf s.bridge.registry id = []

theorem inv_of_start (h : Start s) :
    Inv listTools py s.bridge.registry.entries s := by
  have hnone : ∀ tool ∈ s.bridge.registry.entries, tool.server = none := by
    intro tool htool
    rw [RegisteredTool.server, (h.native tool htool).1]
  have htools : ∀ k, toolsOf s.bridge.registry k = [] := by
    intro k
    rw [toolsOf, List.filter_eq_nil_iff]
    intro tool htool
    simp [hnone tool htool]
  refine ⟨⟨fun k => ?_, ?_, fun tool htool => ?_⟩, h.clients, ?_, ?_, ?_, ?_⟩
  · have hfind : s.bridge.serverTools.find k = none := by
      rw [Table.find_eq_none_iff, h.serverTools]
      simp
    rw [hfind, htools]
    rfl
  · rw [nativeTools, List.filter_eq_self]
    exact fun tool htool => decide_eq_true (hnone tool htool)
  · exact iff_of_true (hnone tool htool) (h.native tool htool).2
  · rw [h.syncedVersion]
    omega
  · rintro (hsyncing | hsynced)
    · rw [BridgeState.SyncingAll, h.holder] at hsyncing
      exact hsyncing.elim
    · refine absurd ?_ hsynced
      rw [BridgeState.needsSync, h.syncedVersion]
      omega
  · intro hsyncing
    rw [BridgeState.SyncingAll, h.holder] at hsyncing
    exact hsyncing.elim
  · intro id rest hholder
    rw [h.holder] at hholder
    cases hholder

/-- A method of the manager; behind the list of a `sync_all` it is to be refused. -/
theorem inv_manager {n : MCPServerManager} {refused : Prop} (hs : Inv listTools py native s)
    (h : Managed s.manager n refused) (hc : s.SyncingAll → refused) :
    Inv listTools py native { s with manager := n } := by
  have hversion : s.bridge.syncedVersion ≤ n.version := by
    have := hs.version
    have := h.version
    omega
  by_cases hrefused : refused
  · have halike := h.alike hrefused
    refine ⟨hs.steady, h.clientsOk, hversion, fun hreliable k hk => ?_, fun hsyncing k hk => ?_,
      hs.cleared⟩
    · refine (hs.mirrored ?_ k hk).congr
        (activeConfig_congr (halike.servers k) (halike.clients k)) rfl
      refine hreliable.imp_right fun hsynced => ?_
      rw [BridgeState.needsSync] at hsynced ⊢
      rwa [show n.version = s.manager.version from halike.version] at hsynced
    · intro config hconfig
      refine hs.enabled hsyncing k hk config ?_
      rw [← halike.servers]
      exact hconfig
  · have hnot : ¬s.SyncingAll := fun hsyncing => hrefused (hc hsyncing)
    refine ⟨hs.steady, h.clientsOk, hversion, ?_, fun hsyncing => absurd hsyncing hnot,
      hs.cleared⟩
    rintro (hsyncing | hsynced)
    · exact absurd hsyncing hnot
    · refine absurd ?_ hsynced
      have := hs.version
      have := h.raised hrefused
      show (n.version : Int) ≠ s.bridge.syncedVersion
      omega

/-- The next server, or the end. -/
theorem inv_continueWith {rest : Option (List String)} (hsteady : Steady native s.bridge)
    (hclients : ClientsOk s.manager) (hversion : s.bridge.syncedVersion ≤ s.manager.version)
    (hmirrored : rest ≠ none ∨ ¬s.needsSync → ∀ k, k ∉ rest.getD [] →
      Mirrored listTools py s.manager s.bridge.registry k)
    (henabled : ∀ k ∈ rest.getD [], Enabled s.manager k) :
    Inv listTools py native (s.continueWith rest) := by
  cases rest with
  | none =>
    refine ⟨hsteady, hclients, hversion, fun hreliable k _ => ?_, nofun, nofun⟩
    exact hmirrored (hreliable.imp_left nofun) k List.not_mem_nil
  | some rest =>
    have hsome : some rest ≠ none := Option.some_ne_none rest
    cases rest with
    | nil =>
      exact ⟨⟨hsteady.recorded, hsteady.native, hsteady.category⟩, hclients, le_refl _,
        fun _ k _ => hmirrored (Or.inl hsome) k List.not_mem_nil, nofun, nofun⟩
    | cons id rest =>
      exact ⟨hsteady, hclients, hversion, fun _ => hmirrored (Or.inl hsome),
        fun _ => henabled, nofun⟩

theorem mem_activeIds : id ∈ s.activeIds ↔ ∃ config, activeConfig s.manager id = some config := by
  simp only [BridgeState.activeIds, MCPServerManager.listServers, List.mem_map, List.mem_filter,
    activeConfig_eq_some]
  constructor
  · rintro ⟨status, ⟨⟨config, hconfig, rfl⟩, hactive⟩, rfl⟩
    rw [Bool.and_eq_true] at hactive
    exact ⟨config, ⟨Table.find_of_mem hconfig, hactive.1, hactive.2⟩, rfl⟩
  · rintro ⟨config, ⟨hfind, henabled, hconnected⟩, rfl⟩
    refine ⟨_, ⟨⟨config, Table.mem_of_find hfind, rfl⟩, ?_⟩, rfl⟩
    rw [Bool.and_eq_true]
    exact ⟨henabled, hconnected⟩

/-- Behind the list, whatever is not active has no tools, and the rest is pending. -/
theorem inv_listed (hs : Inv listTools py native s) : Inv listTools py native s.listed := by
  have hnodup : ((s.bridge.serverTools.entries.map (·.serverId)).filter
      (· ∉ s.activeIds)).Nodup := s.bridge.serverTools.nodup.filter _
  have hthere : ∀ k ∈ (s.bridge.serverTools.entries.map (·.serverId)).filter (· ∉ s.activeIds),
      s.bridge.serverTools.find k ≠ none := by
    intro k hk hnone
    exact Table.find_eq_none_iff.mp hnone (List.mem_filter.mp hk).1
  obtain ⟨hsteady, hsynced, htools⟩ := removeAll_spec hs.steady hnodup hthere
  refine inv_continueWith hsteady hs.clients (hsynced ▸ hs.version) (fun _ k hk => ?_)
    fun k hk config hconfig => ?_
  · have hnone : activeConfig s.manager k = none := by
      by_contra hne
      exact hk (mem_activeIds.mpr (Option.ne_none_iff_exists'.mp hne))
    refine mirrored_of_none hnone ?_
    rw [htools]
    split
    · rfl
    · rename_i hrecorded
      have hfind : s.bridge.serverTools.find k = none := by
        rw [Table.find_eq_none_iff]
        intro hmem
        exact hrecorded (List.mem_filter.mpr ⟨hmem, decide_eq_true hk⟩)
      have hnames := hs.steady.recorded k
      rw [hfind] at hnames
      exact List.map_eq_nil_iff.mp hnames.symm
  · obtain ⟨active, hactive⟩ := mem_activeIds.mp hk
    obtain ⟨⟨hfind, henabled, -⟩, rfl⟩ := activeConfig_eq_some.mp hactive
    change s.manager.servers.find active.id = some config at hconfig
    rw [hfind] at hconfig
    cases hconfig
    exact henabled

theorem inv_remove {rest : Option (List String)} (hs : Inv listTools py native s)
    (hholder : s.holder = some (.remove id rest))
    (hclean : s.bridge.serverTools.find id = none → s.bridge.discoverNames id = []) :
    Inv listTools py native { s with
      bridge := s.bridge.removeServerTools id, holder := some (.refresh id rest) } := by
  have hwithout := without_removeServerTools hs.steady.recorded hclean
  have hsyncing : ∀ t : BridgeState, t.holder = some (.refresh id rest) →
      t.SyncingAll → s.SyncingAll := by
    intro t ht hall
    rw [BridgeState.SyncingAll, ht] at hall
    rw [BridgeState.SyncingAll, hholder]
    cases rest with
    | none => exact hall
    | some rest => trivial
  have hpending : s.pending = id :: rest.getD [] := by rw [BridgeState.pending, hholder]
  have hmirrored := hs.mirrored
  have henabled := hs.enabled
  rw [hpending] at hmirrored henabled
  refine ⟨hwithout.steady hs.steady, hs.clients, hwithout.syncedVersion ▸ hs.version,
    fun hreliable k hk => ?_, fun hall => henabled (hsyncing _ rfl hall), ?_⟩
  · have hne : k ≠ id := fun heq => hk (heq ▸ List.mem_cons_self)
    refine (hmirrored ?_ k hk).congr rfl ?_
    · exact hreliable.imp (hsyncing _ rfl) fun hsynced => hsynced
    · rw [hwithout.toolsOf, if_neg hne]
  · rintro id' rest' ⟨⟩
    show toolsOf (s.bridge.removeServerTools id).registry id = []
    rw [hwithout.toolsOf, if_pos rfl]

/-! ## `refresh_tools` and the registration -/

/-- What the manager is behind a question, and what it answers. -/
structure Refreshed (listTools : MCPServerConfig → List MCPToolInfo) (m : MCPServerManager)
    (id : String) (failure : Option String)
    (answer : Except String (List MCPToolInfo) × MCPServerManager) : Prop where
  clientsOk : ClientsOk answer.2
  version : m.version ≤ answer.2.version
  servers : ∀ k, answer.2.servers.find k = m.servers.find k
  others : ∀ k, k ≠ id → activeConfig answer.2 k = activeConfig m k
  ok : ∀ tools, answer.1 = .ok tools → failure = none ∧ answer.2.version = m.version ∧
    ∃ config, m.servers.find id = some config ∧ tools = listTools config ∧
      answer.2.connected id = true
  error : ∀ code, answer.1 = .error code → activeConfig answer.2 id = none

theorem activeConfig_of_clients {n : MCPServerManager} (h : n.clients.find id = none) :
    activeConfig n id = none := by
  rw [activeConfig, MCPServerManager.connected, h]
  cases n.servers.find id <;> simp

theorem refreshed_refreshTools (listTools : MCPServerConfig → List MCPToolInfo)
    (hm : ClientsOk m) (id : String) (failure : Option String) :
    Refreshed listTools m id failure (m.refreshTools listTools id failure) := by
  unfold MCPServerManager.refreshTools
  cases hfind : m.servers.find id with
  | none =>
    refine ⟨hm, le_refl _, fun _ => rfl, fun _ _ => rfl, nofun, fun _ _ => ?_⟩
    show ((m.servers.find id).filter _) = none
    rw [hfind]
    rfl
  | some config =>
    have hid : config.id = id := Table.key_of_find hfind
    cases hclient : m.clients.find id with
    | none =>
      cases failure with
      | some code =>
        exact ⟨hm, le_refl _, fun _ => rfl, fun _ _ => rfl, nofun,
          fun _ _ => activeConfig_of_clients hclient⟩
      | none =>
        refine ⟨clientsOk_withClient listTools hm (hid ▸ hfind), le_refl _, fun _ => rfl,
          fun k hk => ?_, ?_, nofun⟩
        · refine activeConfig_congr rfl ?_
          show (m.clients.put config).find k = _
          rw [Table.find_put, if_neg (hid ▸ hk)]
        · rintro tools ⟨⟩
          refine ⟨rfl, rfl, config, hfind, rfl, ?_⟩
          show ((m.clients.put config).find id).isSome = true
          rw [← hid, Table.find_put_self]
          rfl
    | some client =>
      cases failure with
      | some code =>
        refine ⟨clientsOk_withoutClient hm, Nat.le_succ _, fun _ => rfl, fun k hk => ?_, nofun,
          fun _ _ => activeConfig_of_clients ?_⟩
        · refine activeConfig_congr rfl ?_
          show (m.clients.erase id).find k = _
          rw [Table.find_erase, if_neg hk]
        · show (m.clients.erase id).find id = none
          rw [Table.find_erase, if_pos rfl]
      | none =>
        have heq : config = client := by
          have hclient' := hm id client hclient
          rw [hfind] at hclient'
          exact Option.some.inj hclient'
        refine ⟨hm, le_refl _, fun _ => rfl, fun _ _ => rfl, ?_, nofun⟩
        rintro tools ⟨⟩
        refine ⟨rfl, rfl, config, hfind, by rw [heq], ?_⟩
        show (m.clients.find id).isSome = true
        rw [hclient]
        rfl

/-- A bridge and a manager behind a question, with what they are to be there. -/
theorem inv_answered {n : MCPServerManager} {after : MCPToolBridge}
    {rest : Option (List String)} (hs : Inv listTools py native s)
    (hholder : s.holder = some (.refresh id rest))
    (hsteady : Steady native after) (hclients : ClientsOk n)
    (hsynced : after.syncedVersion = s.bridge.syncedVersion)
    (hversion : s.manager.version ≤ n.version)
    (hservers : ∀ k, n.servers.find k = s.manager.servers.find k)
    (hactive : ∀ k, k ≠ id → activeConfig n k = activeConfig s.manager k)
    (htools : ∀ k, k ≠ id → toolsOf after.registry k = toolsOf s.bridge.registry k)
    (hown : rest ≠ none ∨ ¬s.needsSync → Mirrored listTools py n after.registry id) :
    Inv listTools py native
      (BridgeState.continueWith { s with manager := n, bridge := after } rest) := by
  have hpending : s.pending = id :: rest.getD [] := by rw [BridgeState.pending, hholder]
  have hsyncing : rest ≠ none → s.SyncingAll := by
    intro hrest
    rw [BridgeState.SyncingAll, hholder]
    cases rest with
    | none => exact absurd rfl hrest
    | some rest => trivial
  have hle := hs.version
  have hmirrored := hs.mirrored
  rw [hpending] at hmirrored
  refine inv_continueWith hsteady hclients ?_ (fun hreliable k hk => ?_) fun k hk => ?_
  · show after.syncedVersion ≤ n.version
    omega
  · -- if the version is the recorded one now, it was before the question
    have hbefore : rest ≠ none ∨ ¬s.needsSync := by
      refine hreliable.imp_right fun h hneeds => h ?_
      show (n.version : Int) ≠ after.syncedVersion
      change (s.manager.version : Int) ≠ s.bridge.syncedVersion at hneeds
      omega
    by_cases hid : k = id
    · rw [hid]
      exact hown hbefore
    · refine (hmirrored (hbefore.imp_left hsyncing) k ?_).congr (hactive k hid) (htools k hid)
      exact fun hmem => (List.mem_cons.mp hmem).elim hid hk
  · have hrest : rest ≠ none := by
      rintro rfl
      exact List.not_mem_nil hk
    intro config hconfig
    refine hs.enabled (hsyncing hrest) k (hpending ▸ List.mem_cons_of_mem id hk) config ?_
    rw [← hservers]
    exact hconfig

theorem inv_refreshed {rest : Option (List String)} {failure : Option String}
    (hdistinct : ∀ config, ((listTools config).map (·.name)).Nodup)
    (hs : Inv listTools py native s) (hholder : s.holder = some (.refresh id rest))
    (hc : failure = none → ∀ config ∈ s.manager.servers.find id,
      Registrable listTools py s.bridge.registry config ∧
        (rest ≠ none ∨ config.enabled = true ∨ s.needsSync)) :
    Inv listTools py native (s.refreshed listTools py id rest failure) := by
  have hanswer := refreshed_refreshTools listTools hs.clients id failure
  have hcleared := hs.cleared id rest hholder
  unfold BridgeState.refreshed
  cases hresult : s.manager.refreshTools listTools id failure with
  | mk result n =>
    rw [hresult] at hanswer
    cases result with
    | error code =>
      exact inv_answered hs hholder hs.steady hanswer.clientsOk rfl hanswer.version
        hanswer.servers hanswer.others (fun _ _ => rfl)
        fun _ => mirrored_of_none (hanswer.error code rfl) hcleared
    | ok tools =>
      obtain ⟨hfailure, -, config, hfind, rfl, hconnected⟩ := hanswer.ok tools rfl
      obtain ⟨hregistrable, hallowed⟩ := hc hfailure config hfind
      obtain rfl : config.id = id := Table.key_of_find hfind
      obtain ⟨registry, names, hreg⟩ := exists_registerTools (hdistinct config) hregistrable
      obtain ⟨hsteady, hsynced, hown, htools⟩ :=
        registerServer_spec hs.steady hcleared hreg rfl
      refine inv_answered hs hholder hsteady hanswer.clientsOk hsynced hanswer.version
        hanswer.servers hanswer.others htools fun hreliable => ?_
      have hlisted : rest ≠ none → config.enabled = true := by
        intro hrest
        refine hs.enabled ?_ config.id ?_ config hfind
        · rw [BridgeState.SyncingAll, hholder]
          cases rest with
          | none => exact absurd rfl hrest
          | some rest => trivial
        · rw [BridgeState.pending, hholder]
          exact List.mem_cons_self
      have henabled : config.enabled = true := by
        rcases hallowed with hrest | henabled | hneeds
        · exact hlisted hrest
        · exact henabled
        · exact hlisted (hreliable.resolve_right (not_not.mpr hneeds))
      refine mirrored_of_some (activeConfig_eq_some.mpr ⟨⟨?_, henabled, hconnected⟩, rfl⟩) hown
      rw [hanswer.servers]
      exact hfind

/-! ## Whole runs -/

theorem inv_step (hdistinct : ∀ config, ((listTools config).map (·.name)).Nodup) {a : Action}
    (hs : Inv listTools py native s) (hc : Careful listTools py s a)
    (h : (machine listTools py).step s a = some t) : Inv listTools py native t := by
  cases a with
  | addServer config failure =>
    cases h
    exact inv_manager hs (managed_addServer hs.clients failure) hc
  | removeServer id =>
    cases h
    exact inv_manager hs (managed_removeServer hs.clients) hc
  | connectServer id failure =>
    cases h
    exact inv_manager hs (managed_connectServer hs.clients failure) hc
  | disconnectServer id ignoreMissing =>
    cases h
    exact inv_manager hs (managed_disconnectServer hs.clients ignoreMissing) hc
  | syncIfNeeded =>
    change (if s.needsSync then _ else _) = some t at h
    split at h
    · cases h
      exact ⟨hs.steady, hs.clients, hs.version, hs.mirrored, hs.enabled, hs.cleared⟩
    · cases h
      exact hs
  | call call =>
    cases h
    exact ⟨hs.steady, hs.clients, hs.version, hs.mirrored, hs.enabled, hs.cleared⟩
  | acquire =>
    unfold machine at h
    simp only at h
    split at h
    · rename_i hholder _
      cases h
      refine ⟨hs.steady, hs.clients, hs.version, fun hrel k _ => ?_, nofun, nofun⟩
      refine hs.mirrored (Or.inr (hrel.resolve_left nofun)) k ?_
      rw [BridgeState.pending, hholder]
      exact List.not_mem_nil
    · rename_i hholder _
      cases h
      refine ⟨hs.steady, hs.clients, hs.version, fun hrel k _ => ?_, nofun, nofun⟩
      refine hs.mirrored (Or.inr (hrel.resolve_left nofun)) k ?_
      rw [BridgeState.pending, hholder]
      exact List.not_mem_nil
    · cases h
  | resume failure =>
    unfold machine at h
    simp only at h
    rw [Careful, ResumeOk] at hc
    cases hholder : s.holder with
    | none =>
      rw [hholder] at h
      cases h
    | some question =>
      rw [hholder] at h hc
      cases question with
      | list =>
        cases h
        exact inv_listed hs
      | remove id rest =>
        cases h
        exact inv_remove hs hholder hc
      | refresh id rest =>
        cases h
        exact inv_refreshed hdistinct hs hholder hc

theorem good_of_inv (hs : Inv listTools py native s) (hsettled : Settled s) :
    Good listTools py native s := by
  obtain ⟨hholder, -, hsynced⟩ := hsettled
  have hmirrored : ∀ k, Mirrored listTools py s.manager s.bridge.registry k := by
    intro k
    refine hs.mirrored (Or.inr hsynced) k ?_
    rw [BridgeState.pending, hholder]
    exact List.not_mem_nil
  have hactive : ∀ config, Active s.manager config →
      (listTools config).map (bridgedTool py config.id) =
        (toolsOf s.bridge.registry config.id).map some := by
    intro config hconfig
    have hmirror := hmirrored config.id
    rwa [Mirrored, activeConfig_eq_some.mpr ⟨hconfig, rfl⟩] at hmirror
  have hcomplete : ∀ config, Active s.manager config → ∀ info ∈ listTools config,
      ∃ tool ∈ toolsOf s.bridge.registry config.id,
        bridgedTool py config.id info = some tool := by
    intro config hconfig info hinfo
    have hmem := List.mem_map_of_mem (f := bridgedTool py config.id) hinfo
    rw [hactive config hconfig] at hmem
    obtain ⟨tool, htool, heq⟩ := List.mem_map.mp hmem
    exact ⟨tool, htool, heq.symm⟩
  have hserver : ∀ tool ∈ s.bridge.registry.entries, tool.definition.category = "mcp" →
      ∃ id, tool.server = some id := by
    intro tool htool hcategory
    refine Option.ne_none_iff_exists'.mp fun hnone => ?_
    exact (hs.steady.category tool htool).mp hnone hcategory
  refine ⟨fun tool htool hcategory => ?_, fun config hconfig info hinfo => ?_,
    fun tool htool hcategory => ?_, ?_⟩
  · obtain ⟨id, hserver⟩ := hserver tool htool hcategory
    have hmem : tool ∈ toolsOf s.bridge.registry id :=
      List.mem_filter.mpr ⟨htool, decide_eq_true hserver⟩
    have hmirror := hmirrored id
    rw [Mirrored] at hmirror
    split at hmirror
    · rename_i config hconfig
      obtain ⟨hactiveConfig, rfl⟩ := activeConfig_eq_some.mp hconfig
      have hsome := List.mem_map_of_mem (f := some) hmem
      rw [← hmirror] at hsome
      obtain ⟨info, hinfo, heq⟩ := List.mem_map.mp hsome
      exact ⟨config, hactiveConfig, info, hinfo, heq⟩
    · rw [hmirror] at hmem
      cases hmem
  · obtain ⟨tool, htool, heq⟩ := hcomplete config hconfig info hinfo
    exact ⟨tool, (List.mem_filter.mp htool).1, heq⟩
  · obtain ⟨id, hserver⟩ := hserver tool htool hcategory
    have hname : tool.name ∈ (toolsOf s.bridge.registry id).map RegisteredTool.name :=
      List.mem_map_of_mem (List.mem_filter.mpr ⟨htool, decide_eq_true hserver⟩)
    rw [← hs.steady.recorded id] at hname
    cases hfind : s.bridge.serverTools.find id with
    | none =>
      rw [hfind] at hname
      cases hname
    | some entry =>
      rw [hfind] at hname
      exact ⟨id, entry, hserver, hfind, hname⟩
  · rw [← hs.steady.native, nativeTools]
    refine List.filter_congr fun tool htool => ?_
    rw [decide_eq_decide]
    exact (hs.steady.category tool htool).symm

/-- The registry holds the tools of the connected servers, whenever no method is at work and
no synchronization is due, in a run whose steps are careful. -/
theorem good_of_settled {as : List Action}
    (hdistinct : ∀ config, ((listTools config).map (·.name)).Nodup) (hs : Start s)
    (hm : (machine listTools py).Meets (Careful listTools py) s as)
    (hrun : (machine listTools py).run s as = some t) (hsettled : Settled t) :
    Good listTools py s.bridge.registry.entries t :=
  good_of_inv ((machine listTools py).run_invariant_of_meets
    (fun _ _ _ => inv_step hdistinct) (inv_of_start hs) hm hrun) hsettled

/-! ## Runs -/

/-- Every server lists one tool. -/
def echoTools (config : MCPServerConfig) : List MCPToolInfo :=
  [{ name := "echo", serverId := config.id }]

theorem echoTools_distinct (config : MCPServerConfig) :
    ((echoTools config).map (·.name)).Nodup := List.nodup_singleton _

/-- No text has to be made of a value that is none. -/
def noTexts : Python := ⟨fun _ => none, fun _ => ""⟩

def readFile : RegisteredTool :=
  ⟨⟨"read_file", "", "file-ops", ⟨"object", "", [], []⟩, {}, true⟩, .native⟩

/-- No servers, and one tool that is not bridged. -/
def oneNativeTool : BridgeState where
  manager := { servers := .empty }
  bridge := { registry := Table.empty.put readFile }

theorem start_oneNativeTool : Start oneNativeTool :=
  ⟨nofun, rfl, rfl, by decide +kernel, rfl, rfl⟩

/-- `sync_all` with one server to refresh. -/
def syncOne : List Action :=
  [.call .syncAll, .acquire, .resume none, .resume none, .resume none]

/-- A server is bridged, and then another one in its place. -/
def replaced : List Action :=
  .addServer { id := "a", name := "A" } none :: syncOne ++
    (.removeServer "a" :: .addServer { id := "b", name := "B" } none :: syncOne)

theorem replaced_good : ∃ t, (machine echoTools noTexts).run oneNativeTool replaced = some t ∧
    t.bridge.registry.entries.map RegisteredTool.name = ["read_file", "mcp__b__echo"] ∧
    Good echoTools noTexts oneNativeTool.bridge.registry.entries t := by
  have hsome : ((machine echoTools noTexts).run oneNativeTool replaced).isSome := by
    decide +kernel
  obtain ⟨t, ht⟩ := Option.isSome_iff_exists.mp hsome
  have hview : ((machine echoTools noTexts).run oneNativeTool replaced).map (fun t =>
      (t.holder, t.waiting, t.manager.version, t.bridge.syncedVersion,
        t.bridge.registry.entries.map RegisteredTool.name)) =
      some (none, [], 3, 3, ["read_file", "mcp__b__echo"]) := by decide +kernel
  rw [ht, Option.map_some, Option.some_inj] at hview
  simp only [Prod.mk.injEq] at hview
  obtain ⟨hholder, hwaiting, hversion, hsynced, hnames⟩ := hview
  have hsettled : Settled t := by
    refine ⟨hholder, hwaiting, fun hneeds => hneeds ?_⟩
    rw [hversion, hsynced]
    rfl
  exact ⟨t, ht, hnames, good_of_settled echoTools_distinct start_oneNativeTool
    (by decide +kernel) ht hsettled⟩

/-- A server is added while `sync_all` asks the last one of its list. -/
def addedMeanwhile : List Action :=
  [.addServer { id := "a", name := "A" } none, .addServer { id := "c", name := "C" } none,
    .call .syncAll, .acquire, .resume none, .resume none, .resume none,
    .addServer { id := "b", name := "B" } none, .resume none, .resume none]

/-- The tools of that server are not registered, and no synchronization is due. -/
theorem not_always_bridged : ¬∀ (s t : BridgeState) (as : List Action), Start s →
    (machine echoTools noTexts).run s as = some t → Settled t →
      Good echoTools noTexts s.bridge.registry.entries t := by
  intro h
  have hsome : ((machine echoTools noTexts).run oneNativeTool addedMeanwhile).isSome := by
    decide +kernel
  obtain ⟨t, ht⟩ := Option.isSome_iff_exists.mp hsome
  have hbridge : ((machine echoTools noTexts).run oneNativeTool addedMeanwhile).map (fun t =>
      (t.holder, t.waiting, t.manager.version, t.bridge.syncedVersion,
        t.bridge.registry.entries.map RegisteredTool.name)) =
      some (none, [], 3, 3, ["read_file", "mcp__a__echo", "mcp__c__echo"]) := by decide +kernel
  have hmanager : ((machine echoTools noTexts).run oneNativeTool addedMeanwhile).map (fun t =>
      (t.manager.servers.find "b", t.manager.connected "b")) =
      some (some { id := "b", name := "B" }, true) := by decide +kernel
  rw [ht, Option.map_some, Option.some_inj] at hbridge hmanager
  simp only [Prod.mk.injEq] at hbridge hmanager
  obtain ⟨hholder, hwaiting, hversion, hsynced, hnames⟩ := hbridge
  obtain ⟨hserver, hconnected⟩ := hmanager
  have hsettled : Settled t := by
    refine ⟨hholder, hwaiting, fun hneeds => hneeds ?_⟩
    rw [hversion, hsynced]
    rfl
  have hgood := h oneNativeTool t addedMeanwhile start_oneNativeTool ht hsettled
  obtain ⟨tool, htool, hbuilt⟩ := hgood.complete { id := "b", name := "B" }
    ⟨hserver, rfl, hconnected⟩ _ (List.mem_singleton_self _)
  have hname : tool.name ∈ t.bridge.registry.entries.map RegisteredTool.name :=
    List.mem_map_of_mem htool
  rw [hnames, (bridgedTool_eq_some hbuilt).2.2] at hname
  revert hname
  decide +kernel

end NeuralHub.Mcp
