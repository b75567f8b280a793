/-
NeuralHub.Feishu.PlanCards — the buttons on a plan card:
`feishu_plan_decision.py` and the plan handlers of `feishu_card_approval.py`.

A card carries the name, the chat and the owner of the plan it was made for.
A press on one of its buttons goes to the runner that the chat has now, or
else as a control signal to the session of the newest checkpoint.

`World.deeds` is a history that the source does not keep: every call that
changes a runner and every signal that is written, with the name and the
owner of the plan it was meant for. `handle_logged` says that nothing else
changes.

A control slot is found by a hash of the session id; here it is found by
the id. Left out are the time of a signal and what a press does to the
menu mode of the user and to the chat, and a press before there is a
handler.
-/
import NeuralHub.Lib.Table
import NeuralHub.Plan.Checkpoints
import NeuralHub.Plan.Runner

namespace NeuralHub.Feishu

open NeuralHub.Lib NeuralHub.Plan

/-! ## The state -/

/-- An entry of `_plan_runners`. -/
structure PlanRunner where
  chatId : List Char
  planName : List Char
  /-- `_owner_id` -/
  ownerId : String
  runner : Runner := {}
  deriving DecidableEq, Repr

structure PlanControlSignal where
  action : ControlAction := .none
  instruction : String := ""
  deriving DecidableEq, Repr

inductive DeedKind
  | approve
  | reject
  | cancel
  | signal (sessionId : List Char) (signal : PlanControlSignal)
  deriving DecidableEq, Repr

structure Deed where
  planName : List Char
  ownerId : String
  kind : DeedKind
  deriving DecidableEq, Repr

structure World where
  planRunners : Table PlanRunner.chatId
  controls : List Char → PlanControlSignal := fun _ => {}
  checkpoints : Checkpoints
  deeds : List Deed := []

/-- A call on a runner, which may change it. -/
def World.call (w : World) (target : PlanRunner) (runner : Runner) (kind : DeedKind) : World :=
  { w with
    planRunners := w.planRunners.put { target with runner }
    deeds := w.deeds ++ [⟨target.planName, target.ownerId, kind⟩] }

/-- `PlanControlStore._write`, for the plan of a checkpoint. -/
def World.request (w : World) (state : PlanState) (signal : PlanControlSignal) : World :=
  { w with
    controls := fun sessionId =>
      if sessionId = state.sessionId then signal else w.controls sessionId
    deeds := w.deeds ++ [⟨state.planName, state.ownerId, .signal state.sessionId signal⟩] }

/-! ## `feishu_plan_decision` -/

def rejection : String := "Plan rejected from Feishu"

/-- The runner of the chat, whatever its plan; only without one does the name count. -/
def findPlanRunner (runners : Table PlanRunner.chatId) (chatId planName : List Char) :
    Option PlanRunner :=
  match runners.find chatId with
  | some target => some target
  | none =>
    if planName = [] then none
    else runners.entries.find? fun item => item.planName = planName

def ownerMatches (actual ownerId : String) : Bool :=
  ownerId == "" || actual == "" || actual == ownerId

inductive Decision
  | approve
  | reject
  | stop
  deriving DecidableEq, Repr

/-- The phases in which a plan waits for its approval. -/
def awaitsApproval (phase : PlanPhase) : Bool :=
  phase == .planReady || phase == .confirming || phase == .awaitingApproval

/-- The end of `_request_checkpoint_decision`, for a checkpoint that may be decided on. -/
def decideCheckpoint (w : World) (state : PlanState) : Decision → World × Bool
  | .approve =>
    if state.phase == .executing || state.phase == .paused then (w, true)
    else if awaitsApproval state.phase then (w.request state ⟨.approve, ""⟩, true)
    else (w, false)
  | .reject =>
    if awaitsApproval state.phase then (w.request state ⟨.reject, rejection⟩, true)
    else (w.request state ⟨.stop, ""⟩, true)
  | .stop => (w.request state ⟨.stop, ""⟩, true)

def sessionOf (chatId : List Char) : List Char := "feishu-".toList ++ chatId

def requestCheckpointDecision (w : World) (chatId planName : List Char) (ownerId : String)
    (action : Decision) : Except String (World × Bool) := do
  match ← loadLatest w.checkpoints (sessionOf chatId) with
  | none => return (w, false)
  | some state =>
    if state.phase.isTerminal then return (w, false)
    if planName ≠ [] ∧ state.planName ≠ planName then return (w, false)
    if ownerId ≠ "" ∧ state.ownerId ≠ "" ∧ state.ownerId ≠ ownerId then return (w, false)
    return decideCheckpoint w state action

/-- What `approve_plan_decision` and `reject_plan_decision` share: a call on
the runner of the owner, or else a decision on the checkpoint. -/
def planDecision (change : Runner → Runner) (kind : DeedKind) (action : Decision) (w : World)
    (chatId planName : List Char) (ownerId : String) : Except String (World × Bool) :=
  match findPlanRunner w.planRunners chatId planName with
  | some target =>
    if ownerMatches target.ownerId ownerId then
      .ok (w.call target (change target.runner) kind, true)
    else requestCheckpointDecision w chatId planName ownerId action
  | none => requestCheckpointDecision w chatId planName ownerId action

def approvePlanDecision : World → List Char → List Char → String → Except String (World × Bool) :=
  planDecision Runner.approve .approve .approve

def rejectPlanDecision : World → List Char → List Char → String → Except String (World × Bool) :=
  planDecision Runner.reject .reject .reject

/-- There is no owner here. `cancel` leaves a runner alone that has ended. -/
def cancelPlanDecision (w : World) (chatId planName : List Char) : Except String (World × Bool) :=
  match findPlanRunner w.planRunners chatId planName with
  | some target =>
    if target.runner.phase.isTerminal then .ok (w, true)
    else .ok (w.call target target.runner.cancel .cancel, true)
  | none => requestCheckpointDecision w chatId planName "" .stop

/-! ## `feishu_card_approval` -/

structure CardValue where
  planName : List Char
  chatId : List Char
  ownerId : String
  deriving DecidableEq, Repr

/-- `FeishuCardActionPayload`. -/
structure Payload where
  openId : String
  openChatId : List Char := []
  value : CardValue
  deriving DecidableEq, Repr

def Payload.chatId (p : Payload) : List Char :=
  if p.value.chatId = [] then p.openChatId else p.value.chatId

structure Toast where
  type : String
  content : String
  deriving DecidableEq, Repr

def operatorAllowed (p : Payload) (ownerId : String) : Bool :=
  ownerId == "" || p.openId == "" || p.openId == ownerId

def planText (planName : List Char) (text : String) : String :=
  "计划 " ++ String.ofList planName ++ " " ++ text

def handlePlanApprove (w : World) (p : Payload) : Except String (World × Toast) :=
  if !operatorAllowed p p.value.ownerId then .ok (w, ⟨"warning", "无权审批该计划"⟩)
  else do
    let (w, approved) ← approvePlanDecision w p.chatId p.value.planName p.value.ownerId
    let content := if approved then planText p.value.planName "已批准，开始执行"
      else planText p.value.planName "未找到或已结束"
    return (w, ⟨if approved then "info" else "warning", content⟩)

def handlePlanCancel (w : World) (p : Payload) : Except String (World × Toast) :=
  if !operatorAllowed p p.value.ownerId then .ok (w, ⟨"warning", "无权审批该计划"⟩)
  else do
    let (w, rejected) ← rejectPlanDecision w p.chatId p.value.planName p.value.ownerId
    let (w, cancelled) ← if rejected then pure (w, true)
      else cancelPlanDecision w p.chatId p.value.planName
    let content := if cancelled then planText p.value.planName "已取消"
      else planText p.value.planName "未找到或已结束"
    return (w, ⟨"warning", content⟩)

def handlePlanAdjust (w : World) (p : Payload) : Except String (World × Toast) :=
  if !operatorAllowed p p.value.ownerId then .ok (w, ⟨"warning", "无权调整该计划"⟩)
  else do
    let (w, rejected) ← rejectPlanDecision w p.chatId p.value.planName p.value.ownerId
    let content := if rejected then "请直接回复要调整的内容，我会重新生成计划"
      else "计划未找到或已结束"
    return (w, ⟨if rejected then "info" else "warning", content⟩)

inductive CardAction
  | planApprove
  | planCancel
  | planAdjust
  deriving DecidableEq, Repr

/-- The dispatcher. -/
def handle : CardAction → World → Payload → Except String (World × Toast)
  | .planApprove => handlePlanApprove
  | .planCancel => handlePlanCancel
  | .planAdjust => handlePlanAdjust

/-- The state that is left. What raises does so before it has changed anything. -/
def World.after {α : Type} (w : World) : Except String (World × α) → World
  | .ok (w', _) => w'
  | .error _ => w

def press (a : CardAction) (w : World) (p : Payload) : World := w.after (handle a w p)

end NeuralHub.Feishu
