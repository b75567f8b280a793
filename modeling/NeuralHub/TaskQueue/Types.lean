/-
NeuralHub.TaskQueue.Types — `task_queue_types.py`, and the pure guards and
payload updates that the two back ends of the task queue share.

A task is a `TaskPayload`. The database row `SubAgentTaskRecord` has the
same columns, with `input_data` and `result` as JSON text;
`to_record`/`to_payload` are inverse to each other on dicts, so a row is
modelled by the payload it encodes and `apply_payload` by an overwrite.

Two modelling decisions.

* Clock readings and durations are integers (ticks of one unit). The code
  only adds, compares and tests them against `0`, so nothing depends on
  the unit; float rounding is not modelled.
* `result` and `input_data` are `dict[str, Any]`. The queue never looks
  inside a result, so its type is a parameter `δ`. Of `input_data` it
  reads one entry, `parent_task_id`, so an input is that entry and the
  rest.
-/
import Mathlib.Data.Option.Basic

namespace NeuralHub.TaskQueue

inductive TaskStatus where
  | pending
  | running
  | succeeded
  | failed
  deriving DecidableEq, Repr

/-- `TERMINAL_TASK_STATUSES`. -/
def TaskStatus.terminal : TaskStatus → Bool
  | .succeeded => true
  | .failed => true
  | .pending => false
  | .running => false

/-- `input_data`: `parentTaskId` is `str(input_data.get("parent_task_id", ""))`. -/
structure TaskInput (δ : Type) where
  parentTaskId : String := ""
  rest : δ
  deriving DecidableEq, Repr

structure TaskPayload (δ : Type) where
  taskId : String
  namespaceName : String
  inputData : TaskInput δ
  parentTaskId : String := ""
  status : TaskStatus := .pending
  workerId : String := ""
  createdAt : Int
  startedAt : Int := 0
  timeoutSeconds : Int := 60
  leaseExpiresAt : Int := 0
  result : Option δ := none
  error : String := ""
  retryCount : Int := 0
  maxRetries : Int := 1
  deriving DecidableEq, Repr

structure QueueSubmitSpec (δ : Type) where
  taskId : String
  inputData : TaskInput δ
  timeoutSeconds : Int := 60
  maxRetries : Int := 1
  deriving DecidableEq, Repr

def waitTimeoutError : String := "等待超时，主 agent 放弃等待"
def waitDetachedError : String := "等待超时，子 agent 仍在执行，主 agent 已停止等待"
def parentCancelledError : String := "parent_cancelled"

variable {δ : Type}

def buildPayload (ns : String) (spec : QueueSubmitSpec δ) (now : Int) : TaskPayload δ where
  taskId := spec.taskId
  namespaceName := ns
  inputData := spec.inputData
  parentTaskId := spec.inputData.parentTaskId
  createdAt := now
  timeoutSeconds := spec.timeoutSeconds
  maxRetries := spec.maxRetries

namespace TaskPayload

/-! ## Updates

One definition per `model_copy(update=…)` or group of column assignments. -/

/-- The row after a successful claim. -/
def claimed (p : TaskPayload δ) (worker : String) (now : Int) : TaskPayload δ :=
  { p with
    status := .running, workerId := worker, startedAt := now,
    leaseExpiresAt := now + p.timeoutSeconds }

/-- The row after a successful `complete`. -/
def succeeded (p : TaskPayload δ) (r : δ) : TaskPayload δ :=
  { p with status := .succeeded, result := some r, error := "" }

/-- The row after `SubAgentTaskStore.fail`, which keeps `result_json`. -/
def failed (p : TaskPayload δ) (e : String) : TaskPayload δ :=
  { p with status := .failed, error := e }

/-- The payload after the Redis-only `fail`, which writes `result=None`. -/
def failedCleared (p : TaskPayload δ) (e : String) : TaskPayload δ :=
  { p with status := .failed, result := none, error := e }

/-- The row after `renew_lease` on a running task. -/
def renewed (p : TaskPayload δ) (lease : Int) : TaskPayload δ :=
  { p with leaseExpiresAt := lease }

/-- What `cancel_payload_task` writes over a pending snapshot. -/
def cancelled (p : TaskPayload δ) : TaskPayload δ :=
  { p with status := .failed, error := parentCancelledError }

/-- What `_requeue_stale_task` writes over a stale snapshot. -/
def requeued (p : TaskPayload δ) : TaskPayload δ :=
  { p with
    status := .pending, workerId := "", startedAt := 0, leaseExpiresAt := 0,
    result := none, error := "", retryCount := p.retryCount + 1 }

/-! ## Guards -/

/-- `PENDING` or `RUNNING`: what `fail` accepts and `_active_count` counts. -/
def active (p : TaskPayload δ) : Bool := p.status = .pending || p.status = .running

/-- `_lease_expired`. -/
def leaseExpired (p : TaskPayload δ) (now : Int) : Bool :=
  let expiresAt := if p.leaseExpiresAt ≠ 0 then p.leaseExpiresAt
    else p.startedAt + p.timeoutSeconds
  decide (0 < expiresAt) && decide (expiresAt < now)

/-- `_should_detach`. -/
def shouldDetach (p : TaskPayload δ) (now : Int) : Bool :=
  decide (p.status = .running) && !p.leaseExpired now

/-- The `WHERE` clause of `list_stale_running`. -/
def staleRunning (p : TaskPayload δ) (now : Int) : Bool :=
  decide (p.status = .running) && decide (0 < p.leaseExpiresAt) && decide (p.leaseExpiresAt < now)

/-- `_can_complete` of `sub_agent_task_store.py`. -/
def canComplete (p : TaskPayload δ) (worker : String) : Bool :=
  if p.status = .running then worker = "" || p.workerId = worker
  else if p.status ≠ .failed || p.error ≠ waitTimeoutError then false
  else worker ≠ "" && p.workerId = worker

/-- The two guards of `SubAgentTaskStore.fail`. -/
def canFail (p : TaskPayload δ) (worker : String) : Bool :=
  p.active && (worker = "" || p.workerId = worker)

/-- `_can_update_terminal` of `task_queue_support.py`. -/
def canUpdateTerminal (p : TaskPayload δ) (target : TaskStatus) (worker : String) : Bool :=
  if p.status = .running then worker = "" || p.workerId = worker
  else if target = .failed && p.status = .pending then worker = ""
  else if target = .succeeded && p.status = .failed then
    worker ≠ "" && p.error = waitTimeoutError && p.workerId = worker
  else false

/-- The text `_expire_stale_task` fails a task with. -/
def expiredError (p : TaskPayload δ) : String :=
  "超时重试 " ++ toString p.maxRetries ++ " 次后仍未完成"

/-! ## Every update keeps the key and the submitted data -/

@[simp] theorem taskId_claimed (p : TaskPayload δ) (w : String) (now : Int) :
    (p.claimed w now).taskId = p.taskId := rfl
@[simp] theorem taskId_succeeded (p : TaskPayload δ) (r : δ) :
    (p.succeeded r).taskId = p.taskId := rfl
@[simp] theorem taskId_failed (p : TaskPayload δ) (e : String) :
    (p.failed e).taskId = p.taskId := rfl
@[simp] theorem taskId_failedCleared (p : TaskPayload δ) (e : String) :
    (p.failedCleared e).taskId = p.taskId := rfl
@[simp] theorem taskId_renewed (p : TaskPayload δ) (l : Int) :
    (p.renewed l).taskId = p.taskId := rfl
@[simp] theorem taskId_cancelled (p : TaskPayload δ) : p.cancelled.taskId = p.taskId := rfl
@[simp] theorem taskId_requeued (p : TaskPayload δ) : p.requeued.taskId = p.taskId := rfl

@[simp] theorem status_claimed (p : TaskPayload δ) (w : String) (now : Int) :
    (p.claimed w now).status = .running := rfl
@[simp] theorem status_succeeded (p : TaskPayload δ) (r : δ) :
    (p.succeeded r).status = .succeeded := rfl
@[simp] theorem status_failed (p : TaskPayload δ) (e : String) :
    (p.failed e).status = .failed := rfl
@[simp] theorem status_failedCleared (p : TaskPayload δ) (e : String) :
    (p.failedCleared e).status = .failed := rfl
@[simp] theorem status_renewed (p : TaskPayload δ) (l : Int) :
    (p.renewed l).status = p.status := rfl
@[simp] theorem status_cancelled (p : TaskPayload δ) : p.cancelled.status = .failed := rfl
@[simp] theorem status_requeued (p : TaskPayload δ) : p.requeued.status = .pending := rfl

/-! ## What the guards say -/

theorem active_iff {p : TaskPayload δ} :
    p.active = true ↔ p.status = .pending ∨ p.status = .running := by
  simp [active]

theorem active_iff_not_terminal {p : TaskPayload δ} :
    p.active = true ↔ p.status.terminal = false := by
  cases h : p.status <;> simp [active, h, TaskStatus.terminal]

/-- A row that can be completed is running, or was failed by a waiter's timeout. -/
theorem status_of_canComplete {p : TaskPayload δ} {w : String} (h : p.canComplete w = true) :
    p.status = .running ∨ (p.status = .failed ∧ p.error = waitTimeoutError) := by
  unfold canComplete at h
  split at h
  · exact Or.inl ‹_›
  · split at h
    · cases h
    · rename_i hne
      simp only [Bool.or_eq_true, decide_eq_true_eq, not_or, ne_eq, not_not] at hne
      exact Or.inr hne

theorem active_of_canFail {p : TaskPayload δ} {w : String} (h : p.canFail w = true) :
    p.active = true := by
  simp only [canFail, Bool.and_eq_true] at h
  exact h.1

/-- The SQL filter of a recovery scan is the payload predicate, on running rows. -/
theorem staleRunning_iff {p : TaskPayload δ} {now : Int} :
    p.staleRunning now = true ↔
      p.status = .running ∧ 0 < p.leaseExpiresAt ∧ p.leaseExpiresAt < now := by
  simp [staleRunning, and_assoc]

end TaskPayload

end NeuralHub.TaskQueue
