/-
NeuralHub.Plan.Runner — what a plan run keeps, and what is done to it from
outside: `PlanState` with the runner's own flags, `plan_control.py`,
`plan_control_store.py` and `plan_control_apply.py`.

A command reaches the runner in two ways. A call (`cancel`, `pause`,
`resume`, `approve`, `reject`) changes it at once. A signal is put into
the one slot that the session has in the store, and takes effect when the
runner polls. Here the slot is a field of the runner; a poll reads and
clears it in one step, as the source does between two awaits.

The instructions that come with a command are left out, like the error
message and the times: only prompts and summaries read them.
-/
import NeuralHub.Plan.Types

namespace NeuralHub.Plan

/-- `ControlAction`; `none` is the empty slot. -/
inductive ControlAction
  | none
  | approve
  | reject
  | pause
  | resume
  | stop
  deriving DecidableEq, Repr

structure Runner where
  phase : PlanPhase := .idle
  plan : Option ExecutionPlan := none
  todo : Option TodoState := none
  currentStepId : Int := 0
  todoUpdateCount : Nat := 0
  cancelRequested : Bool := false
  pauseRequested : Bool := false
  /-- `_approval_event` -/
  approved : Bool := false
  signal : ControlAction := .none
  deriving DecidableEq, Repr

namespace Runner

/-- `_cancelled`. -/
def cancelled (r : Runner) : Bool := r.cancelRequested || r.phase == .cancelled

/-- `_set_phase`. -/
def setPhase (r : Runner) (target : PlanPhase) : Option Runner :=
  (transition r.phase target).map fun phase => { r with phase }

/-! ## Calls -/

/-- `cancel`. The phase can always be left for `cancelled` there, see
`transition_cancelled`. -/
def cancel (r : Runner) : Runner :=
  if r.phase.isTerminal then r
  else { r with phase := .cancelled, cancelRequested := true, pauseRequested := false, approved := true }

def requestPause (r : Runner) : Runner := { r with pauseRequested := true }

def requestResume (r : Runner) : Runner := { r with pauseRequested := false }

/-- `pause`, which also leaves a signal. -/
def pause (r : Runner) : Runner := { r.requestPause with signal := .pause }

/-- `resume`, which also leaves a signal. -/
def resume (r : Runner) : Runner := { r.requestResume with signal := .resume }

def approve (r : Runner) : Runner := { r with approved := true }

def reject (r : Runner) : Runner := { r with cancelRequested := true, approved := true }

/-! ## Signals -/

/-- `apply_control_signal`: `approve` and `reject` are left in the slot. -/
def applyControlSignal (r : Runner) : Runner :=
  match r.signal with
  | .stop => { r.cancel with signal := .none }
  | .pause => { r.requestPause with signal := .none }
  | .resume => { r.requestResume with signal := .none }
  | _ => r

/-- `_apply_approval_signal`, which also says whether the wait is over. -/
def applyApprovalSignal (r : Runner) : Runner × Bool :=
  match r.signal with
  | .approve => ({ r with signal := .none, approved := true }, true)
  | .reject => ({ r.reject with signal := .none }, true)
  | .stop => ({ r.reject with signal := .none }, true)
  | _ => (r, false)

/-! ## The todo list -/

def steps (r : Runner) : List TodoStep := (r.todo.map (·.steps)).getD []

/-- A change of the todo list, when there is one. -/
def mapSteps (r : Runner) (f : List TodoStep → List TodoStep) : Runner :=
  { r with todo := r.todo.map fun todo => { todo with steps := f todo.steps } }

def setTodoStatus (r : Runner) (status : TodoStatus) : Runner :=
  { r with todo := r.todo.map fun todo => { todo with status } }

/-- `step.status = …` on the step object with this id. -/
def setStepStatus (r : Runner) (id : Int) (status : StepStatus) : Runner :=
  r.mapSteps fun steps => steps.map fun step => if step.id = id then { step with status } else step

def skipStep (step : TodoStep) : TodoStep :=
  if step.status = .pending ∨ step.status = .running then { step with status := .skipped } else step

/-- `_skip_from`. -/
def skipFrom (r : Runner) (start : Nat) : Runner :=
  r.mapSteps fun steps => steps.take start ++ (steps.drop start).map skipStep

/-- `_finish`; `none` stands for a refused transition. -/
def finish (r : Runner) (status : TodoStatus) : Option Runner :=
  match r.todo with
  | none => some r
  | some _ =>
    let r := r.setTodoStatus status
    let next := planStatusForFinish status
    if r.phase = next then some r else r.setPhase next

/-- `refresh_pending_todo_titles`: of two plan steps with one id the last counts. -/
def refreshTitles (r : Runner) : Runner :=
  match r.plan with
  | none => r
  | some plan =>
    r.mapSteps fun steps => steps.map fun step =>
      match (plan.steps.filter (·.stepId = step.id)).getLast? with
      | some planStep =>
        if step.status = .pending ∨ step.status = .running ∨ step.status = .skipped then
          { step with title := planStep.title }
        else step
      | none => step

/-! ## What a change leaves alone -/

variable {r : Runner}

@[simp] theorem steps_setTodoStatus (status : TodoStatus) :
    (r.setTodoStatus status).steps = r.steps := by
  cases h : r.todo <;> simp [setTodoStatus, steps, h]

@[simp] theorem steps_mapSteps (f : List TodoStep → List TodoStep) (h : f [] = []) :
    (r.mapSteps f).steps = f r.steps := by
  cases htodo : r.todo <;> simp [mapSteps, steps, htodo, h]

theorem phase_of_setPhase {t : Runner} {target : PlanPhase} (h : r.setPhase target = some t) :
    t = { r with phase := target } := by
  obtain ⟨phase, hphase, rfl⟩ := Option.map_eq_some_iff.mp h
  rw [transition_eq_some hphase]

end Runner

end NeuralHub.Plan
