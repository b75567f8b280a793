/-
NeuralHub.Plan.Run — one run of `PlanExecuteRunner` as a machine:
`run` and `resume_run`, from the recon to the notice that it is over.

A `Point` is an await of the source. Between two awaits the run goes on
by itself, so a step of the machine is what the source does from one await
to the next, and everything that comes from outside happens in between:
calls, signals, and the calls of `TodoUpdate` that a running step makes.
An `Answer` is how an await ends; `interrupted` ends any of them with an
exception that the run does not catch.

Passing a step that is settled already has an await here (`passing`) also
where the source has none; that only adds places for commands to arrive.
What a step does besides calling `TodoUpdate` is its answer, `stepDone` or
`stepFailed`, and writing a checkpoint has no answer of its own.
-/
import NeuralHub.Plan.Order
import NeuralHub.Plan.TodoUpdate
import NeuralHub.Lib.Machine

namespace NeuralHub.Plan

open NeuralHub.Lib

structure Config where
  requireConfirmation : Bool := true

/-! ## Points -/

inductive RunError
  /-- `PLAN_INVALID_TRANSITION` -/
  | invalidTransition (current target : PlanPhase)
  /-- `PLAN_APPROVAL_PLAN_MISSING` -/
  | approvalPlanMissing
  /-- `PLAN_RESUME_TODO_MISSING` -/
  | resumeTodoMissing
  /-- `PLAN_RESUME_IDLE` -/
  | resumeIdle
  | stepIndex
  | interrupted
  /-- `PLAN_EXECUTE_STEPS_ERROR`, around an error of the execution -/
  | executeSteps (inner : RunError)
  deriving DecidableEq, Repr

/-- A transition that the table does not have was tried. -/
def RunError.refusedTransition : RunError → Bool
  | .invalidTransition _ _ => true
  | .executeSteps inner => inner.refusedTransition
  | _ => false

inductive Point
  | idle
  /-- `on_recon_start` -/
  | reconStart
  /-- the recon, or the lightweight plan -/
  | recon
  /-- `on_recon_done` -/
  | reconDone (plan : ExecutionPlan)
  /-- `on_plan_created` -/
  | planCreated
  /-- the wait for the approval event -/
  | approval
  /-- `on_plan_cancelled` in front of the execution -/
  | refused
  /-- `on_plan_approved` -/
  | planApproved
  /-- the sleep of a paused run -/
  | paused (index : Nat)
  /-- `record_step_resumed_from_disk` -/
  | passing (index : Nat)
  /-- `on_step_start` -/
  | starting (index : Nat)
  /-- the step itself -/
  | running (index : Nat)
  /-- `record_step_result` and the notice of the step's end -/
  | recording (index : Nat)
  /-- the notice of the run's end -/
  | finishing
  | returned
  | raised (error : RunError)
  deriving DecidableEq, Repr

structure State where
  runner : Runner
  point : Point := .idle
  deriving DecidableEq, Repr

inductive Answer
  | done
  | planned (plan : ExecutionPlan)
  /-- the approval's deadline has passed -/
  | deadline
  | stepDone
  | stepFailed
  | interrupted
  deriving DecidableEq, Repr

inductive Action
  | run
  | resumeRun
  | cancel
  | pause
  | resume
  | approve
  | reject
  | signal (action : ControlAction)
  | todoUpdate (args : TodoUpdateArgs)
  | answer (a : Answer)
  deriving DecidableEq, Repr

/-- `_set_phase` and what comes after it. -/
def Runner.enter (r : Runner) (target : PlanPhase) (wrap : RunError → RunError)
    (next : Runner → State) : State :=
  match r.setPhase target with
  | some t => next t
  | none => ⟨r, .raised (wrap (.invalidTransition r.phase target))⟩

/-! ## The execution -/

/-- `_finish_run`. -/
def finishRun (r : Runner) : State :=
  let status :=
    if r.cancelled then .cancelled else (r.todo.map executionFinishStatus).getD .completed
  match r.finish status with
  | some t => ⟨t, .finishing⟩
  | none => ⟨r, .raised (.invalidTransition r.phase (planStatusForFinish status))⟩

/-- The body of the loop behind `_wait_if_paused`, up to the step. -/
def beforeStep (index : Nat) (r : Runner) : State :=
  let r := r.refreshTitles
  if r.cancelled then finishRun (r.skipFrom index)
  else
    match r.steps[index]? with
    | none => ⟨r, .raised (.executeSteps .stepIndex)⟩
    | some step =>
      if step.status.settled then ⟨r, .passing index⟩
      else ⟨{ r.setStepStatus step.id .running with currentStepId := step.id }, .starting index⟩

/-- The end of `_wait_if_paused`. -/
def afterPause (index : Nat) (r : Runner) : State :=
  if r.cancelled then beforeStep index r
  else (r.setTodoStatus .executing).enter .executing .executeSteps (beforeStep index)

/-- The condition of the loop in `_wait_if_paused`. -/
def stayPaused (index : Nat) (r : Runner) : State :=
  if r.pauseRequested ∧ r.cancelled = false then ⟨r, .paused index⟩ else afterPause index r

def waitIfPaused (index : Nat) (r : Runner) : State :=
  let r := r.applyControlSignal
  if r.pauseRequested then
    (r.setTodoStatus .paused).enter .paused .executeSteps (stayPaused index)
  else beforeStep index r

/-- The head of the loop in `_execute_todo_steps`. -/
def loopHead (index : Nat) (r : Runner) : State :=
  if index < r.steps.length then waitIfPaused index r.applyControlSignal else finishRun r

def findPlanStep (plan : Option ExecutionPlan) (stepId : Int) : Option PlanStep :=
  plan.bind fun plan => plan.steps.find? (·.stepId == stepId)

/-- `_execute_step` behind `on_step_start`: a step that the plan does not have fails. -/
def startStep (index : Nat) (r : Runner) : State :=
  match findPlanStep r.plan r.currentStepId with
  | none => ⟨r.setStepStatus r.currentStepId .failed, .recording index⟩
  | some _ => ⟨r, .running index⟩

/-- The body of the loop behind `_run_step`. -/
def afterStep (index : Nat) (r : Runner) : State :=
  let r := { r with currentStepId := 0 }.applyControlSignal
  if r.cancelled then finishRun (r.skipFrom (index + 1)) else loopHead (index + 1) r

/-- `_execute_existing_plan`. -/
def executeExisting (r : Runner) : State :=
  if r.todo.isNone then ⟨r, .raised .resumeTodoMissing⟩
  else
    let approved := fun r : Runner => State.mk (r.setTodoStatus .executing) .planApproved
    if r.phase = .executing then approved r else r.enter .executing id approved

/-! ## The approval -/

def approvalEnd (r : Runner) : State :=
  if r.cancelled then
    match (r.skipFrom 0).finish .cancelled with
    | some t => ⟨t, .refused⟩
    | none => ⟨r, .raised (.invalidTransition r.phase .cancelled)⟩
  else executeExisting r

/-- One turn of `_wait_for_approval_or_signal`. -/
def approvalLoop (timeUp : Bool) (r : Runner) : State :=
  if r.cancelled then approvalEnd r
  else
    let (r, isOver) := r.applyApprovalSignal
    if isOver then approvalEnd r
    else if r.approved then approvalEnd r
    else if timeUp then approvalEnd { r with cancelRequested := true }
    else ⟨r, .approval⟩

def awaitApproval (r : Runner) : State :=
  if r.plan.isNone then ⟨r, .raised .approvalPlanMissing⟩
  else
    let r := { r with approved := false }
    if r.phase = .confirming ∨ r.phase = .awaitingApproval then ⟨r, .planCreated⟩
    else r.enter .confirming id fun r => ⟨r, .planCreated⟩

/-! ## The recon -/

def runFromRecon (r : Runner) : State :=
  if r.phase = .recon then ⟨r, .reconStart⟩ else r.enter .recon id fun r => ⟨r, .reconStart⟩

def afterRecon (plan : ExecutionPlan) (r : Runner) : State :=
  if r.cancelled then ⟨r, .returned⟩ else ⟨r, .reconDone plan⟩

/-- From the notice of the recon's end to the approval. -/
def afterReconDone (cfg : Config) (plan : ExecutionPlan) (r : Runner) : State :=
  r.enter .planning id fun r =>
    let r := { r with plan := some plan }
    if r.cancelled then ⟨r, .returned⟩
    else
      { r with todo := some (buildTodoStateFromPlan plan) }.enter .planReady id fun r =>
        if r.cancelled then ⟨r, .returned⟩
        else if cfg.requireConfirmation then awaitApproval r
        else executeExisting r

/-! ## The run -/

/-- `run`, behind `_reset_state`. -/
def beginRun (r : Runner) : State :=
  runFromRecon { approved := r.approved, pauseRequested := r.pauseRequested }

/-- `resume_run`. -/
def resumeRun (r : Runner) : State :=
  let r := { r with signal := .none }
  match r.phase with
  | .idle => ⟨r, .raised .resumeIdle⟩
  | .completed | .partialFailed | .cancelled => ⟨r, .returned⟩
  | .recon | .planning => runFromRecon r
  | .planReady | .confirming | .awaitingApproval => awaitApproval r
  | .executing | .paused => executeExisting r

/-- An exception that an await raises; the loop over the steps wraps it. -/
def interrupt (s : State) : Option State :=
  match s.point with
  | .idle | .returned | .raised _ => none
  | .paused _ | .passing _ | .starting _ | .running _ | .recording _ =>
    some { s with point := .raised (.executeSteps .interrupted) }
  | _ => some { s with point := .raised .interrupted }

/-- An await ends. -/
def answered (cfg : Config) (s : State) (a : Answer) : Option State :=
  match s.point, a with
  | _, .interrupted => interrupt s
  | .reconStart, .done => some { s with point := .recon }
  | .recon, .planned plan => some (afterRecon plan s.runner)
  | .reconDone plan, .done => some (afterReconDone cfg plan s.runner)
  | .planCreated, .done => some (approvalLoop false s.runner)
  | .approval, .done => some (approvalLoop false s.runner)
  | .approval, .deadline => some (approvalLoop true s.runner)
  | .refused, .done => some { s with point := .returned }
  | .planApproved, .done => some (loopHead 0 s.runner)
  | .paused index, .done => some (stayPaused index s.runner.applyControlSignal)
  | .passing index, .done => some (loopHead (index + 1) s.runner)
  | .starting index, .done => some (startStep index s.runner)
  | .running index, .stepDone =>
    some ⟨s.runner.setStepStatus s.runner.currentStepId .done, .recording index⟩
  | .running index, .stepFailed =>
    some ⟨s.runner.setStepStatus s.runner.currentStepId .failed, .recording index⟩
  | .recording index, .done => some (afterStep index s.runner)
  | .finishing, .done => some { s with point := .returned }
  | _, _ => none

/-- A command changes the runner of a run that has begun. -/
def command (s : State) (f : Runner → Runner) : Option State :=
  if s.point = .idle then none else some { s with runner := f s.runner }

/-- Only the loop of an agent step has the tool. -/
def callTodoUpdate (s : State) (args : TodoUpdateArgs) : Option State :=
  match s.point, findPlanStep s.runner.plan s.runner.currentStepId with
  | .running _, some planStep =>
    if planStep.type = .agentStep then some { s with runner := (todoUpdate s.runner args).1 }
    else none
  | _, _ => none

def step (cfg : Config) (s : State) (a : Action) : Option State :=
  match a with
  | .run => if s.point = .idle then some (beginRun s.runner) else none
  | .resumeRun => if s.point = .idle then some (resumeRun s.runner) else none
  | .cancel => command s Runner.cancel
  | .pause => command s Runner.pause
  | .resume => command s Runner.resume
  | .approve => command s Runner.approve
  | .reject => command s Runner.reject
  | .signal action => command s fun r => { r with signal := action }
  | .todoUpdate args => callTodoUpdate s args
  | .answer a => answered cfg s a

def machine (cfg : Config) : Machine State Action := ⟨step cfg⟩

end NeuralHub.Plan
