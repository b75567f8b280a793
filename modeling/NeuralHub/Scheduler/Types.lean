/-
NeuralHub.Scheduler.Types — scheduled tasks, their occurrences and the
keys in Redis: `models.py`, `schedule_utils.py`, the keys and times of
`runtime_state.py`, and `update_run_status` of the two stores.

A time is a number of microseconds on one clock. A task keeps its cron
expression and its time zone, so both are given by its id, as what the
code asks them: the next run behind a time (`croniter`) and the text of a
minute. Nothing is assumed of them. The offset of a time zone is a whole
number of minutes, so a minute begins for all of them at once.
-/
import NeuralHub.Lib.ExpiringKeys

namespace NeuralHub.Scheduler

open NeuralHub.Lib

def second : Int := 1000000

def minute : Int := 60 * second

structure ScheduledTask where
  id : String
  enabled : Bool := true
  lastRunAt : Option Int := none
  deriving DecidableEq, Repr

/-- A cron expression in a time zone. -/
structure Schedule where
  /-- `croniter(cron, after).get_next` -/
  nextRun : Int → Int
  /-- `strftime("%Y%m%d%H%M")`, of the beginning of a minute -/
  minuteText : Int → String

/-- `replace(second=0, microsecond=0)`. -/
def minuteStart (now : Int) : Int := now - now % minute

/-- `get_scheduled_minute_key`. -/
def getScheduledMinuteKey (schedule : Schedule) (now : Int) : Option String :=
  let expected := minuteStart now
  let nextRun := schedule.nextRun (expected - second)
  if nextRun ≠ expected then none else some (schedule.minuteText expected)

/-- `get_next_run_at`. -/
def getNextRunAt (schedule : Schedule) (after : Int) : Int := schedule.nextRun after

theorem minuteStart_le (now : Int) : minuteStart now ≤ now := by
  have hpos : 0 ≤ now % minute := Int.emod_nonneg now (by decide)
  unfold minuteStart
  omega

/-! ## Keys -/

inductive RedisKey
  /-- `task:running:{task_id}` -/
  | running (taskId : String)
  /-- `task:trigger:{task_id}:{minute_key}` -/
  | trigger (taskId minuteKey : String)
  deriving DecidableEq, Repr

/-- The value is the process that has set the key. -/
abbrev Redis := ExpiringKeys RedisKey Nat

/-- `_RUNNING_TTL`. -/
def runningTtl : Int := 600 * second

/-- `trigger_ttl`, for a check interval in microseconds. -/
def triggerTtl (checkInterval : Int) : Int := max ((checkInterval * 4).tdiv second) 120 * second

theorem triggerTtl_nonneg (checkInterval : Int) : 0 ≤ triggerTtl checkInterval := by
  have h : 120 ≤ max ((checkInterval * 4).tdiv second) 120 := Int.le_max_right _ _
  unfold triggerTtl second at *
  omega

/-! ## Stored tasks -/

/-- The rows of the database, or those that a process keeps of them. -/
abbrev Tasks := Table ScheduledTask.id

/-- `update_run_status`; a task that is not stored stays so. -/
def updateRunStatus (tasks : Tasks) (taskId : String) (time : Int) : Tasks :=
  match tasks.find taskId with
  | none => tasks
  | some task => tasks.put { task with lastRunAt := some time }

theorem find_updateRunStatus_self (tasks : Tasks) (taskId : String) (time : Int) :
    (updateRunStatus tasks taskId time).find taskId =
      (tasks.find taskId).map fun task => { task with lastRunAt := some time } := by
  unfold updateRunStatus
  cases hfind : tasks.find taskId with
  | none => exact hfind
  | some task =>
    obtain rfl : task.id = taskId := Table.key_of_find hfind
    exact Table.find_put_self tasks { task with lastRunAt := some time }

theorem find_updateRunStatus_of_ne {tasks : Tasks} {taskId taskId' : String} (h : taskId' ≠ taskId)
    (time : Int) : (updateRunStatus tasks taskId time).find taskId' = tasks.find taskId' := by
  unfold updateRunStatus
  cases hfind : tasks.find taskId with
  | none => rfl
  | some old =>
    have hid : old.id = taskId := Table.key_of_find hfind
    exact Table.find_put_of_ne tasks (hid ▸ h)

end NeuralHub.Scheduler
