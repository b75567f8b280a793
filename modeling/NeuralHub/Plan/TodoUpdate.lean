/-
NeuralHub.Plan.TodoUpdate — `plan_todo_tool.py`: the tool by which a
running step changes the steps that are still to come.

The arguments come from a model. `IntOf` is what Python's `int` makes of
one: a number, a refusal that `_int_arg` turns into no argument, or the
overflow of an infinite float, which it does not catch. A title or a
description is the text that `str` makes of the argument.
-/
import NeuralHub.Plan.Runner
import NeuralHub.Lib.Text

namespace NeuralHub.Plan

open NeuralHub.Lib

inductive IntOf
  | number (n : Int)
  | refused
  | overflow
  deriving DecidableEq, Repr

structure TodoUpdateArgs where
  action : String
  stepId : IntOf := .refused
  title : String := ""
  description : String := ""
  afterStepId : IntOf := .refused
  deriving DecidableEq, Repr

structure ToolOutput where
  output : String
  isError : Bool := false
  deriving DecidableEq, Repr

def maxTodoUpdates : Nat := 3

/-- `_int_arg`. -/
def intArg : IntOf → Except String (Option Int)
  | .number n => .ok (some n)
  | .refused => .ok none
  | .overflow => .error "cannot convert float infinity to integer"

def stripped (text : String) : String := String.ofList (Text.strip text.toList)

/-- The first element that a condition holds of is changed. -/
def modifyFirst {α : Type} (p : α → Bool) (f : α → α) : List α → List α
  | [] => []
  | x :: xs => if p x then f x :: xs else x :: modifyFirst p f xs

/-- `_insert_index`. -/
def insertIndex (ids : List Int) (afterId : Int) : Nat :=
  match ids.findIdx? (· == afterId) with
  | some index => index + 1
  | none => ids.length

/-- A change of the two lists, or the message of its refusal. -/
abbrev Update := ExecutionPlan → TodoState → Except String (ExecutionPlan × TodoState)

/-- The todo step with this id may not be changed. -/
def lockedStep (todo : TodoState) (stepId : Int) : Bool :=
  match todo.steps.find? (·.id == stepId) with
  | some step => step.status.locked
  | none => false

def updateStep (args : TodoUpdateArgs) : Update := fun plan todo => do
  match ← intArg args.stepId with
  | none => .error "缺少 step_id"
  | some stepId =>
    if (plan.steps.find? (·.stepId == stepId)).isNone then
      .error s!"步骤 {stepId} 不存在"
    else if lockedStep todo stepId then
      .error s!"步骤 {stepId} 已执行或正在执行，不可修改"
    else
      let title := stripped args.title
      let description := stripped args.description
      let retitle := fun step : PlanStep =>
        { step with
          title := if title ≠ "" then title else step.title
          description := if description ≠ "" then description else step.description }
      let retitleTodo := fun step : TodoStep =>
        { step with title := if title ≠ "" then title else step.title }
      .ok ({ plan with steps := modifyFirst (·.stepId == stepId) retitle plan.steps },
        { todo with steps := modifyFirst (·.id == stepId) retitleTodo todo.steps })

/-- `_int_arg(args.get("after_step_id")) or runner._current_step_id`. -/
def afterId (args : TodoUpdateArgs) (currentStepId : Int) : Except String Int := do
  match ← intArg args.afterStepId with
  | none => .ok currentStepId
  | some n => .ok (if n = 0 then currentStepId else n)

/-- `max(…, default=0) + 1`. -/
def newStepId (plan : ExecutionPlan) : Int := plan.ids.max?.getD 0 + 1

def addStep (args : TodoUpdateArgs) (currentStepId : Int) : Update := fun plan todo => do
  let title := stripped args.title
  if title = "" then .error "新增步骤必须有 title"
  else
    let afterId ← afterId args currentStepId
    let newId := newStepId plan
    let planStep : PlanStep :=
      { stepId := newId, title, description := stripped args.description, toolsHint := [] }
    let todoStep : TodoStep := { id := newId, title, status := .pending }
    .ok ({ plan with steps := plan.steps.insertIdx (insertIndex plan.ids afterId) planStep },
      { todo with steps := todo.steps.insertIdx (insertIndex todo.ids afterId) todoStep })

def removeStep (args : TodoUpdateArgs) : Update := fun plan todo => do
  match ← intArg args.stepId with
  | none => .error "缺少 step_id"
  | some stepId =>
    if lockedStep todo stepId then .error s!"步骤 {stepId} 已执行或正在执行，不可删除"
    else
      .ok ({ plan with steps := plan.steps.filter (·.stepId != stepId) },
        { todo with steps := todo.steps.filter (·.id != stepId) })

def applyUpdate (args : TodoUpdateArgs) (currentStepId : Int) : Update :=
  if args.action = "update" then updateStep args
  else if args.action = "add" then addStep args currentStepId
  else if args.action = "remove" then removeStep args
  else fun _ _ => .error s!"未知操作: {args.action}"

/-- `create_todoupdate_executor`. -/
def todoUpdate (r : Runner) (args : TodoUpdateArgs) : Runner × ToolOutput :=
  if maxTodoUpdates ≤ r.todoUpdateCount then
    (r, { output := s!"已达到最大调整次数 ({maxTodoUpdates})，不再接受更多调整。" })
  else
    match r.plan, r.todo with
    | some plan, some todo =>
      match applyUpdate args r.currentStepId plan todo with
      | .error message => (r, { output := message, isError := true })
      | .ok (plan, todo) =>
        let count := r.todoUpdateCount + 1
        ({ r with
            plan := some { plan with version := plan.version + 1 }
            todo := some todo
            todoUpdateCount := count },
          { output := s!"计划已更新（第 {count} 次调整）" })
    | _, _ => (r, { output := "计划尚未初始化", isError := true })

end NeuralHub.Plan
