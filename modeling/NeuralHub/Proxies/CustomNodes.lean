/-
NeuralHub.Proxies.CustomNodes — the saved form of the chain overlay and
the tool that keeps it beside the live configuration.

Source: `proxy_custom_nodes.py`, `proxy_chain_tools.py`,
`proxy_chain_support.py`, `proxy_models.py`.

The file of custom nodes has the exit nodes as full records and *one* chain
setting: an exit and how its transits are chosen. `mergeIntoConfig` builds
the overlay again from it on a fresh subscription.

An action of the tool that succeeds writes both files; both are YAML and
are read back as they were written. An action that raises reports an error
and is not enabled here. `parse_chain_args` strips the texts and refuses
the empty ones; the extra fields of `add_exit` are those that
`build_add_exit_extra` has put together, and may be any dictionary. A
configuration without a proxy does not pass `_verify_saved_config`.
-/
import NeuralHub.Proxies.ChainManager

namespace NeuralHub.Proxies

open NeuralHub.Lib

/-! ## The saved state -/

structure ChainConfigState where
  exitNode : String := ""
  transitPattern : String := ""
  transitNodes : List String := []
  deriving DecidableEq, Repr

structure CustomNodesState where
  exitNodes : List Proxy := []
  chainConfig : ChainConfigState := {}

/-- The item has this text as its name. -/
def hasName (exitName : String) (item : Proxy) : Bool := item.get "name" = some (.str exitName)

/-- `value or None`. -/
def orNone {α : Type} [DecidableEq α] (empty value : α) : Option α :=
  if value = empty then none else some value

namespace Texts

variable (py : Texts)

/-- `CustomNodesManager.add_exit_node`. -/
def saveExitNode (saved : CustomNodesState) (node : Proxy) : Except String CustomNodesState := do
  let exitName ← normalizeExitName (some (py.name node))
  let normalized := node.set "name" (.str exitName)
  let exitNodes :=
    if saved.exitNodes.any (hasName exitName) then
      updateFirst (hasName exitName) (fun _ => normalized) saved.exitNodes
    else saved.exitNodes ++ [normalized]
  pure { saved with exitNodes := exitNodes }

end Texts

namespace CustomNodesState

/-- `CustomNodesManager.remove_exit_node`. -/
def removeExitNode (saved : CustomNodesState) (name : String) :
    Except String CustomNodesState := do
  let exitName ← normalizeExitName (some name)
  pure ⟨saved.exitNodes.filter fun item => !hasName exitName item,
    if saved.chainConfig.exitNode = exitName then {} else saved.chainConfig⟩

def setChainConfig (saved : CustomNodesState) (exitNode transitPattern : String)
    (transitNodes : List String) : Except String CustomNodesState := do
  let exitName ← normalizeExitName (some exitNode)
  pure ⟨saved.exitNodes,
    ⟨exitName, stripped transitPattern, (transitNodes.map stripped).filter (· ≠ "")⟩⟩

def clearChainConfig (saved : CustomNodesState) : CustomNodesState :=
  { saved with chainConfig := {} }

end CustomNodesState

namespace Texts

variable (py : Texts)

/-- Add a saved exit node to a configuration that does not have it. -/
def mergeNode (config : Config) (node : Proxy) : Config :=
  ⟨if (py.findProxy config.proxies (py.name node)).isNone then config.proxies ++ [node]
    else config.proxies,
    py.appendNameToGroups config.groups (py.name node) [chainGroupName]⟩

def mergeIntoConfig (saved : CustomNodesState) (config : Config) : Except String Config :=
  let result := saved.exitNodes.foldl py.mergeNode config
  if saved.chainConfig.exitNode ≠ "" then
    match py.setChain result saved.chainConfig.exitNode
      (orNone [] saved.chainConfig.transitNodes) (orNone "" saved.chainConfig.transitPattern) with
    | .ok merged => .ok merged.1
    | .error message => .error ("Failed to merge custom nodes: " ++ message)
  else .ok result

end Texts

/-! ## The tool -/

/-- The actions that change something, with the arguments as they are sent. -/
inductive ToolAction where
  | addExit (name : String) (args : NodeArgs)
  | removeExit (name : String)
  | set (exitNode : String) (transitNodes : List String) (transitPattern : String)
  | remove (exitNode : String)

/-- `_validate_text`. -/
def validateText (value : String) : Except String String :=
  if stripped value = "" then .error "Value cannot be empty" else .ok (stripped value)

def NodeArgs.parse (args : NodeArgs) : Except String NodeArgs := do
  let nodeType ← validateText args.nodeType
  let server ← validateText args.server
  if args.port < 1 ∨ 65535 < args.port then throw "Input should be a port"
  pure { args with
    nodeType := nodeType, server := server, password := stripped args.password,
    sni := stripped args.sni }

def withExitPrefix (name : String) : String :=
  if startsWith exitPrefix name then name else exitPrefix ++ name

/-- The configuration file and the file of custom nodes. -/
structure Files where
  live : Config
  saved : CustomNodesState

/-- `ProxyConfigGenerator.save`, of a configuration that is otherwise in order. -/
def saveConfig (config : Config) : Except String Unit :=
  if config.proxies = [] then .error "Config file proxies list is empty." else .ok ()

namespace Texts

variable (py : Texts)

def findExitNode (config : Config) (name : String) : Except String Proxy :=
  match py.findProxy config.proxies (withExitPrefix name) with
  | some node => .ok node
  | none => .error ("Exit node not found: " ++ withExitPrefix name)

def execute (files : Files) : ToolAction → Except String Files
  | .addExit name args => do
    let name ← validateText name
    let args ← args.parse
    let updated ← py.addExitNode files.live name args
    let node ← py.findExitNode updated name
    saveConfig updated
    let saved ← py.saveExitNode files.saved node
    pure ⟨updated, saved⟩
  | .removeExit name => do
    let name ← validateText name
    let updated ← py.removeExitNode files.live name
    saveConfig updated
    let saved ← files.saved.removeExitNode name
    pure ⟨updated, saved⟩
  | .set exitNode transitNodes transitPattern => do
    let exitNode ← validateText exitNode
    let transitPattern := stripped transitPattern
    let transitNodes := (transitNodes.map stripped).filter (· ≠ "")
    if transitNodes ≠ [] ∧ transitPattern ≠ "" then
      throw "transit_nodes and transit_pattern are mutually exclusive"
    let (updated, _) ← py.setChain files.live exitNode (orNone [] transitNodes)
      (orNone "" transitPattern)
    saveConfig updated
    let saved ← files.saved.setChainConfig exitNode transitPattern transitNodes
    pure ⟨updated, saved⟩
  | .remove exitNode => do
    let (updated, _) ← py.removeChain files.live (orNone "" (stripped exitNode))
    saveConfig updated
    pure ⟨updated, files.saved.clearChainConfig⟩

/-- The tool; only the actions that succeed are enabled. -/
def chainTool : Machine Files ToolAction := ⟨fun files action => (py.execute files action).toOption⟩

end Texts

end NeuralHub.Proxies
