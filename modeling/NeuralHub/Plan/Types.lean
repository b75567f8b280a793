/-
NeuralHub.Plan.Types — plans, todo lists and phases: `plan_models.py`,
`plan_state_machine.py` and `plan_finish.py`.

A plan step is what was planned, a todo step is how far it got; they share
their id. The runner keeps both lists, and the phase of the run.

Left out are the fields that only describe a step to a model or to a user:
its results, files, findings and times.
The status of a todo step is a string in the source; the five values that
are ever written are the constructors here.
-/
import NeuralHub.Lib.Json
import Mathlib.Data.List.Basic

namespace NeuralHub.Plan

open NeuralHub.Lib

/-! ## `plan_models` -/

inductive PlanPhase
  | idle
  | recon
  | planning
  | planReady
  | confirming
  | awaitingApproval
  | executing
  | paused
  | completed
  | partialFailed
  | cancelled
  deriving DecidableEq, Repr

inductive StepType
  | scriptStep
  | agentStep
  deriving DecidableEq, Repr

structure PlanStep where
  stepId : Int
  title : String
  description : String
  toolsHint : List String := []
  dependsOn : List String := []
  type : StepType := .agentStep
  toolName : String := ""
  toolArguments : Members := .nil
  deriving DecidableEq, Repr

structure ExecutionPlan where
  steps : List PlanStep
  version : Int := 1
  deriving DecidableEq, Repr

inductive StepStatus
  | pending
  | running
  | done
  | failed
  | skipped
  deriving DecidableEq, Repr

structure TodoStep where
  id : Int
  title : String
  status : StepStatus := .pending
  deriving DecidableEq, Repr

inductive TodoStatus
  | pending
  | executing
  | paused
  | completed
  | partialFailed
  | cancelled
  deriving DecidableEq, Repr

structure TodoState where
  status : TodoStatus := .pending
  steps : List TodoStep
  deriving DecidableEq, Repr

def ExecutionPlan.ids (plan : ExecutionPlan) : List Int := plan.steps.map (·.stepId)

def TodoState.ids (todo : TodoState) : List Int := todo.steps.map (·.id)

/-- `step.status in {"done", "failed", "skipped"}`: the step is not run any more. -/
def StepStatus.settled (status : StepStatus) : Bool :=
  status == .done || status == .failed || status == .skipped

/-- `LOCKED_TODO_STATUSES`. -/
def StepStatus.locked (status : StepStatus) : Bool :=
  status == .done || status == .failed || status == .running

/-! ## `plan_state_machine` -/

/-- `PLAN_TRANSITIONS`, by the phase that is left. -/
def PlanPhase.targets : PlanPhase → List PlanPhase
  | .idle => [.recon, .cancelled]
  | .recon => [.planning, .cancelled]
  | .planning => [.recon, .planReady, .cancelled]
  | .planReady => [.executing, .confirming, .awaitingApproval, .cancelled]
  | .confirming => [.executing, .cancelled]
  | .awaitingApproval => [.executing, .cancelled]
  | .executing => [.completed, .partialFailed, .paused, .cancelled]
  | .paused => [.executing, .cancelled]
  | .completed => []
  | .partialFailed => []
  | .cancelled => []

/-- `transition`; `none` stands for `PLAN_INVALID_TRANSITION`. -/
def transition (current target : PlanPhase) : Option PlanPhase :=
  if target ∈ current.targets then some target else none

def PlanPhase.isTerminal (phase : PlanPhase) : Bool :=
  phase == .completed || phase == .partialFailed || phase == .cancelled

/-- Only a terminal phase cannot be cancelled. -/
theorem transition_cancelled {phase : PlanPhase} (h : phase.isTerminal = false) :
    transition phase .cancelled = some .cancelled := by
  cases phase <;> first | rfl | cases h

theorem transition_eq_some {current target phase : PlanPhase}
    (h : transition current target = some phase) : phase = target := by
  unfold transition at h
  split at h
  · exact (Option.some.inj h).symm
  · cases h

/-! ## `plan_finish` -/

def executionFinishStatus (todo : TodoState) : TodoStatus :=
  let failedCount := todo.steps.countP (·.status == .failed)
  if failedCount = 0 then .completed else .partialFailed

def planStatusForFinish (status : TodoStatus) : PlanPhase :=
  match status with
  | .cancelled => .cancelled
  | .partialFailed => .partialFailed
  | _ => .completed

end NeuralHub.Plan
