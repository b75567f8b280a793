/-
NeuralHub.Proxies.ChainScheduler — the rounds in which the scheduler tests
the chain proxies and moves between them.

Source: `proxy_scheduler.py`, `proxy_scheduler_support.py`,
`proxy_scheduler_history.py`, `proxy_scheduler_llm.py`,
`proxy_scheduler_models.py`.

A round reads the delays, the node that mihomo reports and, on some
branches, the answer of a model; all of them are inputs here. Times are
whole seconds, as in the texts of the history. A round decides at one time
and records its switch at a later one. An answer is read here from the
dictionary that `_load_payload` found in it (the empty one if it found
none); `none` stands for a call that raised. The prompt and the texts for
the user read the same data and decide nothing.
-/
import Mathlib.Data.List.DropRight
import Mathlib.Data.List.Sort
import NeuralHub.Proxies.ChainManager

namespace NeuralHub.Proxies

open NeuralHub.Lib

/-! ## The history -/

inductive DecisionSource
  | rule | llm
  deriving DecidableEq, Repr

structure SwitchRecord where
  time : Int
  fromNode : String
  toNode : String
  reason : String
  delay : Int
  source : DecisionSource
  deriving DecidableEq, Repr

def isInCooldown (history : List SwitchRecord) (cooldownSeconds now : Int) : Bool :=
  if cooldownSeconds ≤ 0 then false
  else history.any fun item => now - cooldownSeconds ≤ item.time

def countRecentSwitches (history : List SwitchRecord) (minutes now : Int) : Nat :=
  history.countP fun item => now - minutes * 60 ≤ item.time

def nodeHadTimeout (node : String) (history : List SwitchRecord) (minutes now : Int) : Bool :=
  history.any fun item => now - minutes * 60 ≤ item.time && item.fromNode = node &&
    (contains "超时" item.reason || item.delay ≤ 0)

/-! ## Delays -/

abbrev Delays := Dict Int

def alive (results : Delays) : List (String × Int) := results.entries.filter fun item => 0 < item.2

/-- The first of the smallest: `min` with the delay as its key. -/
def fastest : List (String × Int) → Option (String × Int)
  | [] => none
  | item :: rest =>
    match fastest rest with
    | none => some item
    | some best => if item.2 ≤ best.2 then some item else some best

def findBestAlive (results : Delays) : String × Int := (fastest (alive results)).getD ("", 0)

def getTopNodes (results : Delays) (n : Nat) : List (String × Int) :=
  ((alive results).insertionSort fun x y => x.2 ≤ y.2).take n

/-! ## Decisions -/

structure SchedulerDecision where
  shouldSwitch : Bool := false
  target : String := ""
  reason : String := ""
  targetDelay : Int := 0
  currentDelay : Int := 0
  source : DecisionSource := .rule
  deriving DecidableEq, Repr

/-- The module's `_switch`. -/
def switchTo (target : String) (targetDelay currentDelay : Int) (reason : String) :
    SchedulerDecision :=
  { shouldSwitch := true, target := target, reason := reason, targetDelay := targetDelay,
    currentDelay := currentDelay }

/-- The reason to ask the model; empty if there is none. -/
def shouldTriggerLlm (currentNode : String) (currentDelay : Int) (results : Delays)
    (history : List SwitchRecord) (minImprovement now : Int) : String :=
  if 3 ≤ countRecentSwitches history 10 now then "frequent_switching"
  else if currentNode ≠ "" ∧ nodeHadTimeout currentNode history 5 now then "unstable_node"
  else
    let topNodes := getTopNodes results 3
    let spread := (topNodes.getLast?.map Prod.snd).getD 0 - (topNodes.head?.map Prod.snd).getD 0
    if 3 ≤ topNodes.length ∧ spread < 30 then "close_ranking"
    else
      let best := findBestAlive results
      if best.1 ≠ "" ∧ (200 < currentDelay ∧ currentDelay < 500) ∧
          (0 < currentDelay - best.2 ∧ currentDelay - best.2 < minImprovement) then "gray_zone"
      else ""

def fallbackDecision (currentNode : String) (currentDelay : Int) (best : String × Int) :
    SchedulerDecision :=
  if best.1 ≠ "" ∧ best.1 ≠ currentNode ∧ 0 < best.2 ∧ best.2 < currentDelay then
    switchTo best.1 best.2 currentDelay
      ("降级选择更快节点 " ++ toString best.2 ++ "ms < " ++ toString currentDelay ++ "ms")
  else { reason := "保持当前节点", targetDelay := best.2, currentDelay := currentDelay }

/-- What `parse_llm_response` returns. -/
structure LlmPayload where
  action : String
  target : String
  reason : String
  deriving DecidableEq, Repr

def stayPayload (reason : String) : LlmPayload := ⟨"stay", "", reason⟩

namespace Texts

variable (py : Texts)

def parseLlmResponse (payload : Dict Json) : LlmPayload :=
  let action := py.lower (stripped (py.field payload "action"))
  let target := stripped (py.field payload "target")
  let reason := stripped (py.field payload "reason")
  let reason := if reason = "" then "LLM 建议保持当前节点" else reason
  if action ≠ "switch" ∧ action ≠ "stay" then stayPayload "LLM 响应解析失败"
  else if action = "switch" ∧ target = "" then stayPayload "LLM 响应缺少目标节点"
  else ⟨action, if action = "switch" then target else "", reason⟩

/-- `_decide_by_llm`; `llm` says that there is a model to ask. -/
def decideByLlm (llm : Bool) (reply : Option (Dict Json)) (currentNode : String)
    (currentDelay : Int) (results : Delays) : SchedulerDecision :=
  let best := findBestAlive results
  match if llm then reply else none with
  | none => fallbackDecision currentNode currentDelay best
  | some payload =>
    let payload := py.parseLlmResponse payload
    if payload.action = "switch" ∧ 0 < (results.get payload.target).getD 0 ∧
        payload.target ≠ currentNode then
      { shouldSwitch := true, target := payload.target, reason := payload.reason,
        targetDelay := (results.get payload.target).getD 0, currentDelay := currentDelay,
        source := .llm }
    else
      { reason := payload.reason, targetDelay := best.2, currentDelay := currentDelay,
        source := .llm }

def decideAllTimeoutWithLlm (reply : Option (Dict Json)) : SchedulerDecision :=
  match reply with
  | some payload => { reason := (py.parseLlmResponse payload).reason, source := .llm }
  | none => { reason := "Chain 组全部超时" }

end Texts

/-- The settings of the scheduler. -/
structure SchedulerSettings where
  switchCooldown : Int := 30
  minImprovement : Int := 30
  llm : Bool := false

/-- `decide`. -/
def Texts.decideSwitch (py : Texts) (settings : SchedulerSettings) (currentNode : String)
    (results : Delays) (history : List SwitchRecord) (reply : Option (Dict Json)) (now : Int) :
    SchedulerDecision :=
  if results.entries = [] then { reason := "Chain 组暂无测速结果" }
  else
    let best := findBestAlive results
    let currentDelay := if currentNode ≠ "" then (results.get currentNode).getD 0 else 0
    if best.1 = "" then { reason := "Chain 组全部超时", currentDelay := currentDelay }
    else if currentNode = "" then switchTo best.1 best.2 0 "初始化选择最快节点"
    else if results.get currentNode = none then switchTo best.1 best.2 0 "当前节点不可用"
    else if currentDelay ≤ 0 then switchTo best.1 best.2 currentDelay "当前节点超时"
    else if isInCooldown history settings.switchCooldown now then
      { reason := "处于切换冷却期", targetDelay := best.2, currentDelay := currentDelay }
    else if best.1 ≠ currentNode ∧ settings.minImprovement < currentDelay - best.2 then
      switchTo best.1 best.2 currentDelay
        ("延迟更低 " ++ toString best.2 ++ "ms < " ++ toString currentDelay ++ "ms")
    else if (getTopNodes results 3).any fun item => item.1 = currentNode then
      { reason := "当前节点仍在前三", targetDelay := best.2, currentDelay := currentDelay }
    else if shouldTriggerLlm currentNode currentDelay results history settings.minImprovement now
        = "" then
      { reason := "保持当前节点", targetDelay := best.2, currentDelay := currentDelay }
    else py.decideByLlm settings.llm reply currentNode currentDelay results

/-! ## Rounds -/

structure ChainSchedulerState where
  history : List SwitchRecord := []
  currentNode : String := ""
  currentDelay : Int := 0
  consecutiveAllTimeout : Nat := 0
  llmCallCount : Nat := 0
  deriving DecidableEq, Repr

/-- What one round meets. `reported` is empty where the request fails, `switched` is the
result of the request to switch. -/
structure Round where
  results : Delays
  reported : String
  reply : Option (Dict Json)
  switched : Bool
  decidedAt : Int
  recordedAt : Int

def isAllTimeout (results : Delays) : Bool :=
  results.entries ≠ [] && results.entries.all fun item => item.2 ≤ 0

/-- The node that the round takes for the current one. -/
def currentIn (state : ChainSchedulerState) (round : Round) : String :=
  if round.reported ≠ "" then round.reported else state.currentNode

namespace Texts

variable (py : Texts) (settings : SchedulerSettings)

def decision (state : ChainSchedulerState) (round : Round) : SchedulerDecision :=
  let consecutive := if isAllTimeout round.results then state.consecutiveAllTimeout + 1 else 0
  if isAllTimeout round.results ∧ consecutive = 2 ∧ settings.llm then
    py.decideAllTimeoutWithLlm round.reply
  else
    py.decideSwitch settings (currentIn state round) round.results state.history round.reply
      round.decidedAt

end Texts

/-- `_record`. -/
def recordSwitch (history : List SwitchRecord) (item : SwitchRecord) : List SwitchRecord :=
  (history ++ [item]).rtake 50

/-- The scheduler's `_switch`, once the request has succeeded. -/
def applySwitch (state : ChainSchedulerState) (decision : SchedulerDecision) (now : Int) :
    ChainSchedulerState :=
  let previous := state.currentNode
  let state := { state with
    currentNode := decision.target, currentDelay := decision.targetDelay }
  if previous ≠ "" ∧ previous ≠ decision.target then
    { state with
      history := recordSwitch state.history ⟨now, previous, decision.target, decision.reason,
        decision.targetDelay, decision.source⟩ }
  else state

/-- The node that the round asks mihomo to switch to. -/
def Texts.requested (py : Texts) (settings : SchedulerSettings) (state : ChainSchedulerState)
    (round : Round) : Option String :=
  let decision := py.decision settings state round
  if decision.shouldSwitch ∧ decision.target ≠ "" then some decision.target else none

/-- `_test_and_decide`. A switch that fails raises, after the fields above it are set. -/
def Texts.testAndDecide (py : Texts) (settings : SchedulerSettings) (state : ChainSchedulerState)
    (round : Round) : ChainSchedulerState :=
  let decision := py.decision settings state round
  let state := { state with
    currentNode := currentIn state round
    consecutiveAllTimeout :=
      if isAllTimeout round.results then state.consecutiveAllTimeout + 1 else 0
    llmCallCount := state.llmCallCount + if decision.source = .llm then 1 else 0 }
  if decision.shouldSwitch ∧ decision.target ≠ "" then
    if round.switched then applySwitch state decision round.recordedAt else state
  else
    { state with
      currentDelay := (round.results.get state.currentNode).getD decision.currentDelay }

end NeuralHub.Proxies
