/-
NeuralHub.Scheduler.Machine — any number of scheduler processes on one
database and one Redis: `TaskScheduler` and `SchedulerRuntimeState`.

A process is idle, or it has a `_loop` and, for a while, a
`_recover_missed_tasks`; both start from what the process keeps of the
database (`TaskStore`). Every await is a step of its own, so the steps of
all processes interleave. A process can be stopped and started again, and
it can be killed, which also takes away what it kept.

An execution is a call of `_execute_task`. It stays in the list when it is
over, so the list is the history of the run. Its steps are the acquire of
the running key, the end of the executor (a result, an error, or the
timeout and whatever it takes to cancel; how long that lasts is left
open), the write of the status, and the release. The clock of the status
is read before the write; that a write and the read behind it are one
step for the process that makes them is the only grain that is coarser
than the code's.
-/
import NeuralHub.Scheduler.Types
import NeuralHub.Lib.Machine
import Mathlib.Logic.Function.Basic

namespace NeuralHub.Scheduler

open NeuralHub.Lib

/-! ## Executions -/

/-- What `_execute_task` was called for. -/
inductive TriggerType
  | schedule (occurrence : Int)
  | missedRecovery (occurrence : Int)
  | manual
  deriving DecidableEq, Repr

def TriggerType.occurrence : TriggerType → Option Int
  | .schedule occurrence => some occurrence
  | .missedRecovery occurrence => some occurrence
  | .manual => none

inductive Phase
  | created
  /-- returned without the running key -/
  | skipped
  | running
  /-- in `update_run_status`, with the time that was read -/
  | recording (time : Int)
  | releasing
  | ended
  deriving DecidableEq, Repr

namespace Phase

/-- Between the acquire and the release. -/
def held : Phase → Bool
  | running | recording _ | releasing => true
  | created | skipped | ended => false

/-- Behind a successful acquire. -/
def started : Phase → Bool
  | created | skipped => false
  | running | recording _ | releasing | ended => true

/-- `CancelledError` at the await: past the `except` clauses, into the `finally`. -/
def cancel : Phase → Phase
  | created => skipped
  | running | recording _ => releasing
  | releasing => ended
  | skipped => skipped
  | ended => ended

/-- The process is killed. -/
def kill : Phase → Phase
  | created | skipped => skipped
  | running | recording _ | releasing | ended => ended

end Phase

structure Execution where
  process : Nat
  taskId : String
  triggerType : TriggerType
  phase : Phase := .created
  acquiredAt : Int := 0
  /-- its status was written -/
  recorded : Bool := false
  deriving DecidableEq, Repr

/-! ## Processes -/

inductive LoopState
  | sleeping
  /-- `now` is read -/
  | begun (now : Int)
  | checking (now : Int) (tasks : List ScheduledTask)
  /-- the task is due and was not running -/
  | triggering (now : Int) (task : ScheduledTask) (rest : List ScheduledTask)

inductive RecoveryState
  | created
  | begun (now : Int)
  | scanning (now : Int) (tasks : List ScheduledTask)
  | executing (now : Int) (execution : Nat) (rest : List ScheduledTask)

structure Process where
  /-- `TaskStore._tasks`, once it is initialized -/
  tasks : Option Tasks := none
  loop : Option LoopState := none
  recovery : Option RecoveryState := none

/-- What the processes share, and their executions. -/
structure World where
  now : Int
  redis : Redis := Table.empty
  /-- the database -/
  tasks : Tasks
  executions : List Execution := []

structure Sys extends World where
  processes : Nat → Process := fun _ => {}

structure Config where
  schedules : String → Schedule
  checkInterval : Int := 30 * second

namespace World

def create (w : World) (process : Nat) (taskId : String) (triggerType : TriggerType) : World :=
  { w with executions := w.executions ++ [{ process, taskId, triggerType }] }

def setExecution (w : World) (k : Nat) (e : Execution) : World :=
  { w with executions := w.executions.set k e }

/-- `acquire_running`. -/
def acquireRunning (w : World) (e : Execution) : Option Redis :=
  w.redis.setNx w.now runningTtl (.running e.taskId) e.process

/-- `acquire_trigger`. -/
def acquireTrigger (cfg : Config) (w : World) (process : Nat) (taskId : String) (occurrence : Int) :
    Option Redis :=
  w.redis.setNx w.now (triggerTtl cfg.checkInterval)
    (.trigger taskId ((cfg.schedules taskId).minuteText occurrence)) process

end World

/-- The occurrence that `_recover_missed_tasks` makes up for. -/
def missedOccurrence (schedule : Schedule) (task : ScheduledTask) (now : Int) : Option Int :=
  match task.lastRunAt with
  | none => none
  | some last =>
    if task.enabled = true ∧ getNextRunAt schedule last < now then some (getNextRunAt schedule last)
    else none

/-! ## Steps -/

inductive Event
  | tick (d : Nat)
  | start (p : Nat)
  | stop (p : Nat)
  | killed (p : Nat)
  /-- an iteration of `_loop` reads the clock -/
  | loopBegin (p : Nat)
  | loopList (p : Nat)
  /-- `is_task_running`, where it comes to that -/
  | checkRunning (p : Nat)
  | acquireTrigger (p : Nat)
  /-- the error of a task in `_should_run` -/
  | loopSkip (p : Nat)
  /-- the end of an iteration, also by an error -/
  | loopEnd (p : Nat)
  | recoveryBegin (p : Nat)
  | recoveryList (p : Nat)
  | recoverNext (p : Nat)
  | recoverDone (p : Nat)
  | recoveryEnd (p : Nat)
  /-- `_run_task` -/
  | runTask (p : Nat) (taskId : String)
  | acquireRunning (k : Nat)
  | acquireFailed (k : Nat)
  | executed (k : Nat)
  | recorded (k : Nat)
  | recordFailed (k : Nat)
  | released (k : Nat)
  | releaseFailed (k : Nat)
  | cancelled (k : Nat)

namespace Sys

def setProcess (s : Sys) (p : Nat) (process : Process) : Sys :=
  { s with processes := Function.update s.processes p process }

def setLoop (s : Sys) (p : Nat) (loop : LoopState) : Sys :=
  s.setProcess p { s.processes p with loop := some loop }

def setRecovery (s : Sys) (p : Nat) (recovery : Option RecoveryState) : Sys :=
  s.setProcess p { s.processes p with recovery }

/-- `list_tasks`: what the process keeps, read from the database the first time. -/
def listTasks (s : Sys) (p : Nat) : Tasks := (s.processes p).tasks.getD s.tasks

/-- `_ensure_initialized`, with what is kept then. -/
def keepTasks (s : Sys) (p : Nat) (tasks : Tasks) : Sys :=
  s.setProcess p { s.processes p with tasks := some tasks }

/-- `TaskStore.update_run_status`. -/
def recordStatus (s : Sys) (e : Execution) (time : Int) : Sys :=
  let tasks := updateRunStatus s.tasks e.taskId time
  let kept := match tasks.find e.taskId with
    | none => s.listTasks e.process
    | some task => (s.listTasks e.process).put task
  { s with tasks }.keepTasks e.process kept

end Sys

variable (cfg : Config)

/-- The steps of `start`, `stop`, `_loop` and `_recover_missed_tasks`. -/
def processStep (s : Sys) : Event → Option Sys
  | .start p =>
    match (s.processes p).loop with
    | none => some (s.setProcess p
        { s.processes p with loop := some .sleeping, recovery := some .created })
    | some _ => none
  | .stop p =>
    match (s.processes p).loop with
    | none => none
    | some _ =>
      let idle := s.setProcess p { tasks := (s.processes p).tasks }
      match (s.processes p).recovery with
      | some (.executing _ k _) =>
        match s.executions[k]? with
        | some e => some { idle with
            toWorld := s.toWorld.setExecution k { e with phase := e.phase.cancel } }
        | none => some idle
      | _ => some idle
  | .killed p => some { s.setProcess p {} with
      executions := s.executions.map fun e =>
        if e.process = p then { e with phase := e.phase.kill } else e }
  | .loopBegin p =>
    match (s.processes p).loop with
    | some .sleeping => some (s.setLoop p (.begun s.now))
    | _ => none
  | .loopList p =>
    match (s.processes p).loop with
    | some (.begun now) =>
      some ((s.keepTasks p (s.listTasks p)).setLoop p (.checking now (s.listTasks p).entries))
    | _ => none
  | .checkRunning p =>
    match (s.processes p).loop with
    | some (.checking now (task :: rest)) =>
      if task.enabled = true ∧ (getScheduledMinuteKey (cfg.schedules task.id) now).isSome = true ∧
          s.redis.alive s.now (.running task.id) = false then
        some (s.setLoop p (.triggering now task rest))
      else some (s.setLoop p (.checking now rest))
    | _ => none
  | .acquireTrigger p =>
    match (s.processes p).loop with
    | some (.triggering now task rest) =>
      match s.toWorld.acquireTrigger cfg p task.id (minuteStart now) with
      | none => some (s.setLoop p (.checking now rest))
      | some redis => some { s.setLoop p (.checking now rest) with
          toWorld := { s.toWorld with redis }.create p task.id (.schedule (minuteStart now)) }
    | _ => none
  | .loopSkip p =>
    match (s.processes p).loop with
    | some (.checking now (_ :: rest)) => some (s.setLoop p (.checking now rest))
    | some (.triggering now _ rest) => some (s.setLoop p (.checking now rest))
    | _ => none
  | .loopEnd p =>
    match (s.processes p).loop with
    | some _ => some (s.setLoop p .sleeping)
    | none => none
  | .recoveryBegin p =>
    match (s.processes p).recovery with
    | some .created => some (s.setRecovery p (some (.begun s.now)))
    | _ => none
  | .recoveryList p =>
    match (s.processes p).recovery with
    | some (.begun now) => some ((s.keepTasks p (s.listTasks p)).setRecovery p
        (some (.scanning now (s.listTasks p).entries)))
    | _ => none
  | .recoverNext p =>
    match (s.processes p).recovery with
    | some (.scanning now (task :: rest)) =>
      match missedOccurrence (cfg.schedules task.id) task now with
      | none => some (s.setRecovery p (some (.scanning now rest)))
      | some occurrence =>
        some { s.setRecovery p (some (.executing now s.executions.length rest)) with
          toWorld := s.toWorld.create p task.id (.missedRecovery occurrence) }
    | _ => none
  | .recoverDone p =>
    match (s.processes p).recovery with
    | some (.executing now k rest) =>
      match s.executions[k]? with
      | some e =>
        if e.phase = .skipped ∨ e.phase = .ended then some (s.setRecovery p (some (.scanning now rest)))
        else none
      | none => none
    | _ => none
  | .recoveryEnd p =>
    match (s.processes p).recovery with
    | some (.executing _ _ _) => none
    | some _ => some (s.setRecovery p none)
    | none => none
  | _ => none

/-- The steps of the execution `e`, the `k`-th of all. -/
def executionStep (s : Sys) (k : Nat) (e : Execution) : Event → Option Sys
  | .acquireRunning _ =>
    if e.phase = .created then
      match s.toWorld.acquireRunning e with
      | none => some { s with toWorld := s.toWorld.setExecution k { e with phase := .skipped } }
      | some redis => some { s with
          toWorld := { s.toWorld with redis }.setExecution k
            { e with phase := .running, acquiredAt := s.now } }
    else none
  | .acquireFailed _ =>
    if e.phase = .created then
      some { s with toWorld := s.toWorld.setExecution k { e with phase := .skipped } }
    else none
  | .executed _ =>
    if e.phase = .running then
      some { s with toWorld := s.toWorld.setExecution k { e with phase := .recording s.now } }
    else none
  | .recorded _ =>
    match e.phase with
    | .recording time =>
      let written := s.recordStatus e time
      some { written with
        toWorld := written.toWorld.setExecution k { e with phase := .releasing, recorded := true } }
    | _ => none
  | .recordFailed _ =>
    match e.phase with
    | .recording _ =>
      some { s with toWorld := s.toWorld.setExecution k { e with phase := .releasing } }
    | _ => none
  | .released _ =>
    if e.phase = .releasing then
      some { s with
        toWorld := { s.toWorld with redis := s.redis.del (.running e.taskId) }.setExecution k
          { e with phase := .ended } }
    else none
  | .releaseFailed _ =>
    if e.phase = .releasing then
      some { s with toWorld := s.toWorld.setExecution k { e with phase := .ended } }
    else none
  | .cancelled _ =>
    some { s with toWorld := s.toWorld.setExecution k { e with phase := e.phase.cancel } }
  | _ => none

/-- The execution that an event is a step of. -/
def Event.execution : Event → Option Nat
  | .acquireRunning k | .acquireFailed k | .executed k | .recorded k | .recordFailed k
  | .released k | .releaseFailed k | .cancelled k => some k
  | _ => none

def step (s : Sys) (e : Event) : Option Sys :=
  match e with
  | .tick d => some { s with now := s.now + d }
  | .runTask p taskId => some { s with toWorld := s.toWorld.create p taskId .manual }
  | e =>
    match e.execution with
    | none => processStep cfg s e
    | some k => s.executions[k]?.bind fun x => executionStep s k x e

def machine : Machine Sys Event := ⟨step cfg⟩

/-! ## A task -/

def hour : Int := 60 * minute

/-- At the beginning of every hour of the first day, in UTC. -/
def hourly : Schedule where
  nextRun := fun after => (after / hour + 1) * hour
  minuteText := fun time => if time < 10 * hour then "197001010" ++ toString (time / hour) ++ "00"
    else "19700101" ++ toString (time / hour) ++ "00"

def hourlyConfig : Config where
  schedules := fun _ => hourly

/-- The time, and when the task was last run. -/
def hourlySys (now lastRunAt : Int) : Sys :=
  { now, tasks := Table.empty.put { id := "report", lastRunAt := some lastRunAt } }

end NeuralHub.Scheduler
