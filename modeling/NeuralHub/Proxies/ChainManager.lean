/-
NeuralHub.Proxies.ChainManager — exit nodes and the chain proxies derived
from them, as `ChainProxyManager` rewrites a mihomo configuration.

Source: `proxy_chain.py`, `proxy_chain_utils.py`, `proxy_chain_node.py`.

A proxy is a dictionary of YAML values. An *exit node* is a proxy whose
name starts with `EXIT-`; a *chain proxy* is a copy of an exit node under
the name `CHAIN-<transit>__TO__<exit>` that dials through a transit proxy.
The names are the only record of which proxy is a copy of which. Besides
the proxies the four operations rewrite the proxy groups: an exit node is
offered in every group, the chain proxies in the group `Chain`, and that
group in `GLOBAL`.

A configuration is read here by its two lists; a list that is missing
reads as the empty one, which `ensure_list` puts in its place, and the
other keys are copied as they are. The options of a group are names. The
functions of the source work on a deep copy, so a call that raises leaves
its argument alone: an operation returns the new configuration or the
text of the `ChainProxyError`.
-/
import NeuralHub.Lib.Dict
import NeuralHub.Lib.Separators
import NeuralHub.Lib.Text
import NeuralHub.Plan.PlanResponse

namespace NeuralHub.Proxies

open NeuralHub.Lib
open NeuralHub.Plan (truthy)

/-! ## Texts -/

/-- What is taken from Python as it is: `str` of a value that is not a string, and
`str.lower`. -/
structure Texts where
  str : Json → String
  lower : String → String

def stripped (s : String) : String := String.ofList (Text.strip s.toList)

def startsWith (head s : String) : Bool := head.toList.isPrefixOf s.toList

/-- `needle in s`. -/
def contains (needle s : String) : Bool := decide (needle.toList <:+: s.toList)

namespace Texts

variable (py : Texts)

/-- `str(value)`. -/
def text : Json → String
  | .str s => s
  | value => py.str value

/-- `str(d.get(key) or "")`. -/
def field (d : Dict Json) (key : String) : String :=
  match d.get key with
  | some value => if truthy value then py.text value else ""
  | none => ""

end Texts

/-! ## Proxies -/

abbrev Proxy := Dict Json

def exitPrefix : String := "EXIT-"
def chainPrefix : String := "CHAIN-"
def chainGroupName : String := "Chain"
def chainSeparator : String := "__TO__"
def skipProxyTypes : List String := ["direct", "reject"]

namespace Texts

variable (py : Texts)

def name (proxy : Proxy) : String := py.field proxy "name"

def isExit (proxy : Proxy) : Bool := startsWith exitPrefix (py.name proxy)

def isChainProxy (proxy : Proxy) : Bool := startsWith chainPrefix (py.name proxy)

def findProxy (proxies : List Proxy) (name : String) : Option Proxy :=
  proxies.find? fun proxy => py.name proxy = name

def chainNames (proxies : List Proxy) : List String :=
  (proxies.filter fun proxy => py.isChainProxy proxy).map py.name

end Texts

def buildChainName (transit exitName : String) : String :=
  chainPrefix ++ transit ++ chainSeparator ++ exitName

/-- The copy of an exit node that dials through the transit. -/
def virtualProxy (exitProxy : Proxy) (transit exitName : String) : Proxy :=
  (exitProxy.set "name" (.str (buildChainName transit exitName))).set "dialer-proxy"
    (.str transit)

namespace Texts

variable (py : Texts)

def chainExit (proxy : Proxy) : String :=
  let head := chainPrefix ++ py.field proxy "dialer-proxy" ++ chainSeparator
  if startsWith head (py.name proxy) then
    String.ofList ((py.name proxy).toList.drop head.toList.length)
  else
    stripped (String.ofList (afterFirst chainSeparator.toList (py.name proxy).toList))

def isTransitCandidate (proxy : Option Proxy) (exitName : String) : Bool :=
  match proxy with
  | none => false
  | some proxy =>
    py.name proxy ≠ "" && py.name proxy ≠ exitName && !py.isExit proxy &&
      !py.isChainProxy proxy && !skipProxyTypes.contains (py.lower (py.field proxy "type"))

end Texts

def uniqueText (value : Option String) : String := stripped (value.getD "")

/-- `list(dict.fromkeys(names))`: every name once, at its first place. -/
def fromKeys (names : List String) : List String := names.reverse.dedup.reverse

def normalizeExitName (name : Option String) : Except String String :=
  if uniqueText name = "" then .error "Node name cannot be empty"
  else if startsWith exitPrefix (uniqueText name) then .ok (uniqueText name)
  else .ok (exitPrefix ++ uniqueText name)

/-! ## Groups -/

/-- What a group has under the key `proxies`. -/
inductive Options where
  | absent
  | names (options : List String)
  | other (value : Json)
  deriving DecidableEq, Repr

namespace Options

/-- The names that a group mentions. -/
def toList : Options → List String
  | .names options => options
  | _ => []

/-- Append a name to a list that does not have it. -/
def append (name : String) : Options → Options
  | .names options => if name ∈ options then .names options else .names (options ++ [name])
  | options => options

def removeAll (names : List String) : Options → Options
  | .names options => .names (options.filter fun item => item ∉ names)
  | options => options

/-- `setdefault("proxies", [])`. -/
def setDefault : Options → Options
  | .absent => .names []
  | options => options

end Options

/-- A proxy group: its options, and the items under its other keys. -/
structure Group where
  fields : Dict Json
  options : Options

def Texts.groupName (py : Texts) (group : Group) : String := py.field group.fields "name"

/-- A group that is made by this code. -/
def selectGroup (name : String) (options : List String) : Group :=
  ⟨(Dict.nil.set "name" (.str name)).set "type" (.str "select"), .names options⟩

/-- Change the first element with the property. -/
def updateFirst {α : Type} (p : α → Bool) (f : α → α) : List α → List α
  | [] => []
  | x :: rest => if p x then f x :: rest else x :: updateFirst p f rest

namespace Texts

variable (py : Texts)

def findGroup (groups : List Group) (name : String) : Option Group :=
  groups.find? fun group => py.groupName group = name

def appendNameToGroups (groups : List Group) (name : String) (skipped : List String) :
    List Group :=
  groups.map fun group =>
    if py.groupName group ∈ skipped then group
    else { group with options := group.options.append name }

def appendGlobalGroup (groups : List Group) (name : String) : List Group :=
  match py.findGroup groups "GLOBAL" with
  | none => groups ++ [selectGroup "GLOBAL" [name]]
  | some _ =>
    updateFirst (fun group => py.groupName group = "GLOBAL")
      (fun group => { group with options := group.options.setDefault.append name }) groups

end Texts

def removeGroupRefs (groups : List Group) (names : List String) : List Group :=
  groups.map fun group => { group with options := group.options.removeAll names }

namespace Texts

variable (py : Texts)

def upsertChainGroup (groups : List Group) (names : List String) : List Group :=
  match py.findGroup groups chainGroupName with
  | none => groups ++ [selectGroup chainGroupName names]
  | some _ =>
    updateFirst (fun group => py.groupName group = chainGroupName)
      (fun group => ⟨group.fields.set "type" (.str "select"), .names names⟩) groups

end Texts

/-! ## Exit nodes -/

/-- The arguments of `add_exit_node` after the name. -/
structure NodeArgs where
  nodeType : String
  server : String
  port : Int
  password : String
  sni : String := ""
  skipCertVerify : Bool := false
  extra : Dict Json := Dict.nil

/-- `_drop_empty_fields`. -/
def dropEmptyFields (extra : Dict Json) : Dict Json :=
  ["password", "sni", "servername", "skip-cert-verify"].foldl
    (fun d key => if (d.get key).any truthy then d else d.remove key) extra

namespace Texts

variable (py : Texts)

/-- `_apply_vless_fields`: the node and what is left of the extra fields. -/
def applyVlessFields (node : Proxy) (sni : String) (extra : Dict Json) : Proxy × Dict Json :=
  let extra := extra.remove "password"
  let popped :=
    if (extra.get "servername").any truthy then
      (py.field extra "servername", extra.remove "servername")
    else if (extra.get "sni").any truthy then
      (py.field extra "sni", (extra.remove "servername").remove "sni")
    else (sni, (extra.remove "servername").remove "sni")
  let servername := stripped popped.1
  (if servername ≠ "" then node.set "servername" (.str servername) else node, popped.2)

def buildExitNode (name : String) (args : NodeArgs) : Proxy :=
  let extra := dropEmptyFields args.extra
  let nodeType := py.lower (stripped args.nodeType)
  let node := (((Dict.nil.set "name" (.str name)).set "type" (.str nodeType)).set
    "server" (.str args.server)).set "port" (.int args.port)
  let filled :=
    if nodeType = "vless" then py.applyVlessFields node args.sni extra
    else
      let node := if args.password ≠ "" then node.set "password" (.str args.password) else node
      (if args.sni ≠ "" then node.set "sni" (.str args.sni) else node, extra)
  let node := if args.skipCertVerify then filled.1.set "skip-cert-verify" (.bool true)
    else filled.1
  (node.update filled.2).remove "dialer-proxy"

end Texts

/-- A proxy that dials through the exit node dials directly. -/
def dropDialer (exitName : String) (proxy : Proxy) : Proxy :=
  if proxy.get "dialer-proxy" = some (.str exitName) then proxy.remove "dialer-proxy" else proxy

/-! ## The operations -/

structure Config where
  proxies : List Proxy
  groups : List Group

namespace Texts

variable (py : Texts)

def addExitNode (config : Config) (name : String) (args : NodeArgs) : Except String Config := do
  let exitName ← normalizeExitName (some name)
  let node := py.buildExitNode exitName args
  let proxies :=
    match py.findProxy config.proxies exitName with
    | none => config.proxies ++ [node]
    | some _ => updateFirst (fun proxy => py.name proxy = exitName) (fun _ => node) config.proxies
  pure ⟨proxies, py.appendNameToGroups config.groups exitName [chainGroupName]⟩

/-- The chain proxies that `remove_chain` is asked to remove; all of them for `none`. -/
def isTarget (targetExit : Option String) (proxy : Proxy) : Bool :=
  py.isChainProxy proxy && targetExit.all (fun exitName => py.chainExit proxy = exitName)

/-- `remove_chain` once the exit's name is normalized. -/
def removeChainOf (config : Config) (targetExit : Option String) : Config × Nat :=
  let removed := ((config.proxies.filter fun proxy => py.isTarget targetExit proxy).map py.name)
  if removed = [] then (config, 0)
  else
    let proxies := config.proxies.filter fun proxy => py.name proxy ∉ removed
    let groups := removeGroupRefs config.groups removed
    let remaining := py.chainNames proxies
    let groups :=
      if (py.findGroup groups chainGroupName).isSome then
        if remaining ≠ [] then
          updateFirst (fun group => py.groupName group = chainGroupName)
            (fun group => { group with options := .names remaining }) groups
        else
          removeGroupRefs (groups.filter fun group => py.groupName group ≠ chainGroupName)
            [chainGroupName]
      else groups
    (⟨proxies, groups⟩, removed.dedup.length)

def removeChain (config : Config) (exitNode : Option String) : Except String (Config × Nat) :=
  match exitNode with
  | none => pure (py.removeChainOf config none)
  | some "" => pure (py.removeChainOf config none)
  | some exitNode => do
    let exitName ← normalizeExitName (some exitNode)
    pure (py.removeChainOf config (some exitName))

def removeExitNode (config : Config) (name : String) : Except String Config := do
  let exitName ← normalizeExitName (some name)
  let (result, _) ← py.removeChain config (some exitName)
  let proxies := result.proxies.filter fun proxy => py.name proxy ≠ exitName
  pure ⟨proxies.map (dropDialer exitName), removeGroupRefs result.groups [exitName]⟩

/-- `_select_transits`. -/
def selectTransits (proxies : List Proxy) (exitName : String)
    (transitNodes : Option (List String)) (transitPattern : Option String) :
    Except String (List String) :=
  let nodes := transitNodes.getD []
  if nodes ≠ [] then
    let names := (nodes.map fun name => uniqueText (some name)).filter (· ≠ "")
    let invalid := names.filter fun name =>
      !py.isTransitCandidate (py.findProxy proxies name) exitName
    if invalid ≠ [] then .error ("Unavailable transit nodes: " ++ ", ".intercalate invalid)
    else .ok (fromKeys names)
  else
    let lowered := py.lower (uniqueText transitPattern)
    .ok ((proxies.filter fun proxy => py.isTransitCandidate (some proxy) exitName &&
      (lowered = "" || contains lowered (py.lower (py.name proxy)))).map py.name)

def setChain (config : Config) (exitNode : String) (transitNodes : Option (List String))
    (transitPattern : Option String) : Except String (Config × Nat) := do
  if transitNodes.getD [] ≠ [] ∧ transitPattern.getD "" ≠ "" then
    throw "transit_nodes and transit_pattern are mutually exclusive"
  let exitName ← normalizeExitName (some exitNode)
  let (result, _) ← py.removeChain config (some exitName)
  match py.findProxy result.proxies exitName with
  | none => throw ("Exit node not found: " ++ exitName)
  | some found =>
    let exitProxy := found.remove "dialer-proxy"
    let proxies := updateFirst (fun proxy => py.name proxy = exitName)
      (fun proxy => proxy.remove "dialer-proxy") result.proxies
    let transits ← py.selectTransits proxies exitName transitNodes transitPattern
    if transits = [] then throw "No transit nodes matched the request"
    let proxies := proxies ++ transits.map fun transit =>
      virtualProxy exitProxy transit exitName
    let groups := py.upsertChainGroup result.groups (py.chainNames proxies)
    pure (⟨proxies, py.appendGlobalGroup groups chainGroupName⟩, transits.length)

end Texts

/-! ## Runs -/

inductive Operation where
  | addExitNode (name : String) (args : NodeArgs)
  | removeExitNode (name : String)
  | setChain (exitNode : String) (transitNodes : Option (List String))
      (transitPattern : Option String)
  | removeChain (exitNode : Option String)

namespace Texts

variable (py : Texts)

def perform (config : Config) : Operation → Except String Config
  | .addExitNode name args => py.addExitNode config name args
  | .removeExitNode name => py.removeExitNode config name
  | .setChain exitNode transitNodes transitPattern =>
      (py.setChain config exitNode transitNodes transitPattern).map Prod.fst
  | .removeChain exitNode => (py.removeChain config exitNode).map Prod.fst

/-- The configuration after a call; a call that raises leaves it as it was. -/
def after (config : Config) (operation : Operation) : Config :=
  match py.perform config operation with
  | .ok result => result
  | .error _ => config

def overlay : Machine Config Operation := ⟨fun config operation => some (py.after config operation)⟩

end Texts

end NeuralHub.Proxies
