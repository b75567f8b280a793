/-
NeuralHub.TaskQueue.Sequential — `TaskQueue` as a sequence of whole calls,
over either back end.

The interleaving machines cut a call at its awaits. Here a call runs to
its end before the next one starts, which is the view of a caller that has
the queue to itself. `Backend` collects what `task_queue.py` does in two
ways, one for each branch of `if self._persistence is not None`; the
functions of the other files, which only use those operations
(`claim_task`, `cancel_payload_task`, `recover_stale_task_payloads`,
`wait_for_task_payloads`), are written once over it.

`RedisState` is `persistence=None`; `StoreState` is a queue over
`SubAgentTaskStore`, whose Redis keys are a cache of rows (its `cached`
field: only rows that exist are cached, and rows are never deleted). Keys
do not expire here.

A call reads the clock several times: `clock k` is its `k`-th reading. A
scan (`smembers`, or a `SELECT` without `ORDER BY`) returns the ids in an
order the code does not fix; the call carries that order. A `wait` carries
the number of polls it may take; one that has not returned by then is not
a finished call.

The store is PostgreSQL: ids, namespaces and parents have at most 64
characters, worker ids at most 100, `max_retries` is an integer of four
bytes, and no text has U+0000. A call that runs into one of these bounds
raises and is rolled back (`StoreState.refuse`); Redis has none of them.
Inputs and results are values of `δ` that both back ends give back as they
were: JSON values without NaN and infinities, and texts without lone
surrogates.
-/
import NeuralHub.Lib.Reactive
import NeuralHub.TaskQueue.RedisQueue

namespace NeuralHub.TaskQueue.Sequential

open NeuralHub.Lib

variable {σ δ : Type}

inductive Call (δ : Type) where
  | submit (spec : QueueSubmitSpec δ)
  | submitMany (specs : List (QueueSubmitSpec δ)) (maxActive : Nat) (order : List String)
  | claim (worker : String)
  | complete (t : String) (r : δ) (worker : String)
  | fail (t e worker : String)
  | cancel (t : String)
  | renewLease (t : String) (extension : Int)
  | recover (order : List String)
  | getStatus (t : String)
  | getChildren (parent : String) (order : List String)
  | wait (ids : List String) (globalTimeout : Int) (polls : Nat)

/-- The operations with one implementation for each back end. -/
class Backend (σ : Type) (δ : outParam Type) where
  getStatus : σ → String → σ × Option (TaskPayload δ)
  savePayload : σ → TaskPayload δ → σ
  /-- `_enqueue_many` for one payload -/
  enqueue : σ → TaskPayload δ → σ
  queue : σ → List String
  setQueue : σ → List String → σ
  /-- the body of `claim_task`'s loop, after the pop of this id -/
  claimPopped : σ → String → String → Int → σ × Option (TaskPayload δ)
  complete : σ → String → δ → String → σ × Value δ
  fail : σ → String → String → String → σ × Value δ
  renewLease : σ → String → Int → Int → σ
  /-- the ids a scan enumerates, in no particular order -/
  taskIds : σ → List String
  /-- the stale tasks found by a scan in this order -/
  staleTasks : σ → List String → Int → σ × List (TaskPayload δ)
  /-- `get_queue_children`, scanning in this order -/
  getChildren : σ → List String → String → List (TaskPayload δ)
  submitManyWithCapacity : σ → List (TaskPayload δ) → Nat → List String → σ × Value δ
  /-- what a call in this namespace leaves and raises, where the tables refuse it -/
  refuse : String → σ → Call δ → Option (σ × Value δ)

open Backend

/-! ## The functions shared by both back ends -/

section Shared

variable [Backend σ δ]

/-- `claim_task` with `ids` left in the list. -/
def claimTask (worker : String) (now : Int) : List String → σ → σ × Value δ
  | [], s => (setQueue s [], .task none)
  | t :: rest, s =>
      match claimPopped (setQueue s rest) t worker now with
      | (s', some p) => (s', .task (some p))
      | (s', none) => claimTask worker now rest s'

def cancelPayloadTask (s : σ) (t : String) : σ × Value δ :=
  match getStatus s t with
  | (s, none) => (s, .bool false)
  | (s, some p) =>
      if p.status.terminal then (s, .bool false)
      else if p.status = .pending then
        (savePayload (setQueue s ((queue s).filter (· ≠ t))) p.cancelled, .bool true)
      else (s, .bool true)

/-- `_recover_one_stale`, counting the recovered tasks. -/
def recoverOneStale (acc : σ × Nat) (p : TaskPayload δ) : σ × Nat :=
  if p.retryCount < p.maxRetries then
    let s := savePayload acc.1 p.requeued
    (setQueue s (queue s ++ [p.taskId]), acc.2 + 1)
  else ((getStatus (fail acc.1 p.taskId p.expiredError "").1 p.taskId).1, acc.2)

def recoverStaleTaskPayloads (s : σ) (order : List String) (now : Int) : σ × Value δ :=
  let scan := staleTasks s order now
  let out := scan.2.foldl recoverOneStale (scan.1, 0)
  (out.1, .count out.2)

/-- One poll of `wait_for_task_payloads`. -/
def readStatuses : List String → σ → σ × List (String × Option (TaskPayload δ))
  | [], s => (s, [])
  | t :: ids, s =>
      let status := getStatus s t
      let rest := readStatuses ids status.1
      (rest.1, (t, status.2) :: rest.2)

/-- `_fail_stuck_tasks`. -/
def failStuckTasks (now : Int) :
    List (String × Option (TaskPayload δ)) → σ → σ × List (TaskPayload δ)
  | [], s => (s, [])
  | (_, none) :: todo, s => failStuckTasks now todo s
  | (t, some p) :: todo, s =>
      if p.status.terminal then
        let rest := failStuckTasks now todo s
        (rest.1, p :: rest.2)
      else if p.shouldDetach now then
        let rest := failStuckTasks now todo s
        (rest.1, { p with error := waitDetachedError } :: rest.2)
      else
        let refreshed := getStatus (fail s t waitTimeoutError "").1 t
        let rest := failStuckTasks now todo refreshed.1
        (rest.1, refreshedStatus refreshed.2 p :: rest.2)

/-- The polling loop of `wait_for_task_payloads`, from reading `k` of the clock on. -/
def waitPolls (ids : List String) (deadline : Option Int) (clock : Nat → Int) :
    Nat → Nat → σ → Option (σ × Value δ)
  | 0, _, _ => none
  | polls + 1, k, s =>
      let read := readStatuses ids s
      if read.2.all (fun st => st.2.any (fun p => p.status.terminal)) then
        some (read.1, .tasks (read.2.filterMap (·.2)))
      else if deadline.any (fun d => decide (d < clock k)) then
        let out := failStuckTasks (clock (k + 1)) read.2 read.1
        some (out.1, .tasks out.2)
      else waitPolls ids deadline clock polls (k + 1) read.1

def waitForTaskPayloads (s : σ) (ids : List String) (globalTimeout : Int) (polls : Nat)
    (clock : Nat → Int) : Option (σ × Value δ) :=
  if ids = [] then some (s, .tasks [])
  else
    waitPolls ids (if 0 < globalTimeout then some (clock 0 + globalTimeout) else none) clock
      polls 1 s

end Shared

/-! ## Calls -/

/-- A call and the readings it makes of the clock. -/
structure Request (δ : Type) where
  call : Call δ
  clock : Nat → Int

/-- `build_payload` for a batch: one reading for each spec. -/
def buildPayloads (ns : String) (specs : List (QueueSubmitSpec δ)) (clock : Nat → Int) :
    List (TaskPayload δ) :=
  specs.mapIdx (fun k spec => buildPayload ns spec (clock k))

/-- A call that the tables do not refuse: the state it leaves and what it
returned or raised; `none` when the carried order is not one of the scanned
ids, or the wait goes on. -/
def accepted [Backend σ δ] (ns : String) (s : σ) (req : Request δ) : Option (σ × Value δ) :=
  let now := req.clock 0
  match req.call with
  | .submit spec =>
      let p := buildPayload ns spec now
      some (enqueue (savePayload s p) p, .task (some p))
  | .submitMany specs maxActive order =>
      if order.Perm (taskIds s) then
        some (submitManyWithCapacity s (buildPayloads ns specs req.clock) maxActive order)
      else none
  | .claim worker => some (claimTask worker now (queue s) s)
  | .complete t r worker => some (complete s t r worker)
  | .fail t e worker => some (fail s t e worker)
  | .cancel t => some (cancelPayloadTask s t)
  | .renewLease t extension => some (renewLease s t extension now, .unit)
  | .recover order =>
      if order.Perm (taskIds s) then some (recoverStaleTaskPayloads s order now) else none
  | .getStatus t =>
      let status := getStatus s t
      some (status.1, .task status.2)
  | .getChildren parent order =>
      if order.Perm (taskIds s) then some (s, .tasks (getChildren s order parent)) else none
  | .wait ids globalTimeout polls => waitForTaskPayloads s ids globalTimeout polls req.clock

/-- One call. -/
def exec [Backend σ δ] (ns : String) (s : σ) (req : Request δ) : Option (σ × Value δ) :=
  (refuse ns s req.call).or (accepted ns s req)

/-- The queue over a back end, one call at a time. -/
def answering (ns : String) [Backend σ δ] : Reactive σ (Request δ) (Value δ) := ⟨exec ns⟩

def machine (ns : String) [Backend σ δ] : Machine σ (Request δ) := (answering ns).toMachine

/-! ## Redis only -/

structure RedisState (δ : Type) where
  /-- the keys `task:{ns}:{id}` -/
  keys : Rows δ
  queue : List String
  /-- the set `task:{ns}:index` -/
  index : List String
  nodup : index.Nodup

namespace RedisState

def init : RedisState δ := ⟨Table.empty, [], [], List.nodup_nil⟩

/-- `_cache_payload`, which is all `_save_payload` does here. -/
def set (s : RedisState δ) (p : TaskPayload δ) : RedisState δ := { s with keys := s.keys.put p }

def add (s : RedisState δ) (p : TaskPayload δ) : RedisState δ :=
  { s with
    index := s.index.insert p.taskId, nodup := s.nodup.insert,
    queue := s.queue ++ [p.taskId] }

/-- `update_terminal_payload_state`. -/
def update (s : RedisState δ) (t : String) (status : TaskStatus) (result : Option δ)
    (error worker code : String) : RedisState δ × Value δ :=
  match s.keys.find t with
  | none => (s, .raised code)
  | some p =>
      match updateTerminal p status result error worker with
      | none => (s, .bool false)
      | some q => (s.set q, .bool true)

def claimPopped (s : RedisState δ) (t worker : String) (now : Int) :
    RedisState δ × Option (TaskPayload δ) :=
  match s.keys.find t with
  | some p =>
      if p.status = .pending then (s.set (p.claimed worker now), some (p.claimed worker now))
      else (s, none)
  | none => (s, none)

/-- `_scan_redis_stale`. -/
def scanStale (s : RedisState δ) (order : List String) (now : Int) :
    RedisState δ × List (TaskPayload δ) :=
  ({ s with
      index := s.index.filter (fun t => (s.keys.find t).isSome), nodup := s.nodup.filter _ },
    (order.filterMap s.keys.find).filter
      (fun p => decide (p.status = .running) && p.leaseExpired now))

/-- The branch of `submit_many_with_capacity` under the capacity lock:
`parent_id`, `get_children`, `enforce_capacity`, `_save_and_enqueue`. -/
def submitMany (s : RedisState δ) (ps : List (TaskPayload δ)) (maxActive : Nat)
    (order : List String) : RedisState δ × Value δ :=
  match batchParent ps with
  | none => (s, .raised "TASK_QUEUE_CAPACITY_PARENT_MISMATCH")
  | some parent =>
      let existing := s.keys.getChildren order parent
      if maxActive < (existing.filter (·.active)).length + ps.length then
        (s, .raised "TASK_QUEUE_CAPACITY_EXCEEDED")
      else (ps.foldl (fun s p => (s.set p).add p) s, .tasks ps)

instance : Backend (RedisState δ) δ where
  getStatus s t := (s, s.keys.find t)
  savePayload := set
  enqueue := add
  queue := queue
  setQueue s q := { s with queue := q }
  claimPopped := claimPopped
  complete s t r worker := s.update t .succeeded (some r) "" worker "TASK_QUEUE_COMPLETE_ERROR"
  fail s t e worker := s.update t .failed none e worker "TASK_QUEUE_FAIL_ERROR"
  renewLease s _ _ _ := s
  taskIds := index
  staleTasks := scanStale
  getChildren s order parent := s.keys.getChildren order parent
  submitManyWithCapacity := submitMany
  refuse _ _ _ := none

end RedisState

/-! ## Over the store -/

structure StoreState (δ : Type) where
  rows : Rows δ
  /-- the keys `task:{ns}:{id}` -/
  cache : Rows δ
  queue : List String
  cached : ∀ t, (cache.find t).isSome → (rows.find t).isSome

namespace StoreState

def init : StoreState δ := ⟨Table.empty, Table.empty, [], by simp⟩

/-- `save_payload` and `_cache_payload`. -/
def save (s : StoreState δ) (p : TaskPayload δ) : StoreState δ where
  rows := s.rows.savePayload p
  cache := s.cache.put p
  queue := s.queue
  cached t h := by
    rw [Table.find_put] at h
    rw [Rows.savePayload, Table.find_put]
    split
    · rfl
    · rename_i ht
      rw [if_neg ht] at h
      exact s.cached t h

/-- A guarded transaction. -/
def commit (s : StoreState δ) (now : Int) (rows : Rows δ) (h : Rows.Guarded now s.rows rows) :
    StoreState δ :=
  { s with rows := rows, cached := fun t ht => h.isSome_find (s.cached t ht) }

/-- `_refresh_cache`. -/
def refreshCache (s : StoreState δ) (t : String) : StoreState δ where
  rows := s.rows
  cache :=
    match s.rows.find t with
    | some p => s.cache.put p
    | none => s.cache
  queue := s.queue
  cached u hu := by
    split at hu
    · rename_i p hp
      rw [Table.find_put] at hu
      split at hu
      · rename_i he
        rw [he, Table.key_of_find hp, hp]
        rfl
      · exact s.cached u hu
    · exact s.cached u hu

/-- `get_status`: the row, which is cached; the cached payload when there is no row. -/
def getStatus (s : StoreState δ) (t : String) : StoreState δ × Option (TaskPayload δ) :=
  (s.refreshCache t, (s.rows.find t).or (s.cache.find t))

def claimPopped (s : StoreState δ) (t worker : String) (now : Int) :
    StoreState δ × Option (TaskPayload δ) :=
  let out := s.rows.claim t worker now
  let s' := s.commit now out.1 (s.rows.claim_guarded t worker now)
  (if out.2.isSome then s'.refreshCache t else s', out.2)

def complete (s : StoreState δ) (t : String) (r : δ) (worker : String) : StoreState δ × Value δ :=
  let out := s.rows.complete t r worker
  ((s.commit 0 out.1 (s.rows.complete_guarded t r worker 0)).refreshCache t, .bool out.2)

def fail (s : StoreState δ) (t e worker : String) : StoreState δ × Value δ :=
  let out := s.rows.fail t e worker
  ((s.commit 0 out.1 (s.rows.fail_guarded t e worker 0)).refreshCache t, .bool out.2)

def renewLease (s : StoreState δ) (t : String) (extension now : Int) : StoreState δ :=
  (s.commit now _ (s.rows.renewLease_guarded t extension now)).refreshCache t

/-- `save_payloads_with_capacity` and `_enqueue_many`. An error raised inside
`get_db_session` leaves it as `DB_SESSION_ERROR`. -/
def submitMany (s : StoreState δ) (ps : List (TaskPayload δ)) (maxActive : Nat) :
    StoreState δ × Value δ :=
  if ps = [] then (s, .tasks [])
  else
    match batchParent ps with
    | none => (s, .raised "DB_SESSION_ERROR")
    | some parent =>
        if maxActive < (s.rows.activeIds parent).length + ps.length then
          (s, .raised "DB_SESSION_ERROR")
        else if s.rows.insertConflicts ps then (s, .raised "DB_SESSION_ERROR")
        else
          ({ s with
              rows := s.rows.putAll ps,
              queue := s.queue ++ ps.map (·.taskId),
              cached := fun t ht => Table.isSome_find_putAll ps (s.cached t ht) }, .tasks ps)

/-- The columns take the row of a new task. -/
def storable (ns : String) (spec : QueueSubmitSpec δ) : Bool :=
  varchar 64 ns && varchar 64 spec.taskId && varchar 64 spec.inputData.parentTaskId &&
    int32 spec.maxRetries

/-- What is left in the list behind the first pending task. -/
def behindPending (s : StoreState δ) : List String → Option (List String)
  | [] => none
  | t :: rest =>
    if (s.rows.find t).any (·.status = .pending) then some rest else behindPending s rest

/-- The rows of these tasks are read and cached. -/
def refreshAll (s : StoreState δ) (ids : List String) : StoreState δ := ids.foldl refreshCache s

/-- A parameter or a row that PostgreSQL does not take. The id that `claim_task` has popped is
lost, and `wait_for_tasks` has read the tasks in front of the one that it cannot ask for. -/
def refuse (ns : String) (s : StoreState δ) : Call δ → Option (StoreState δ × Value δ)
  | .submit spec =>
      if storable ns spec then none else some (s, .raised "TASK_QUEUE_SUBMIT_ERROR")
  | .submitMany specs _ _ =>
      if specs.all (storable ns) then none else some (s, .raised "DB_SESSION_ERROR")
  | .claim worker =>
      if varchar 100 worker then none
      else (behindPending s s.queue).map fun rest =>
        ({ s with queue := rest }, .raised "TASK_QUEUE_CLAIM_ERROR")
  | .complete t _ _ =>
      if textual t.toList then none else some (s, .raised "TASK_QUEUE_COMPLETE_ERROR")
  | .fail t e worker =>
      if textual t.toList && (textual e.toList || !(s.rows.fail t e worker).2) then none
      else some (s, .raised "TASK_QUEUE_FAIL_ERROR")
  | .cancel t => if textual t.toList then none else some (s, .raised "TASK_QUEUE_STATUS_ERROR")
  | .renewLease t _ =>
      if textual t.toList then none else some (s, .raised "TASK_QUEUE_RENEW_LEASE_ERROR")
  | .recover _ => none
  | .getStatus t => if textual t.toList then none else some (s, .raised "TASK_QUEUE_STATUS_ERROR")
  | .getChildren parent _ =>
      if textual parent.toList then none else some (s, .raised "TASK_QUEUE_CHILDREN_ERROR")
  | .wait ids _ _ =>
      if ids.all fun t => textual t.toList then none
      else some (s.refreshAll (ids.takeWhile fun t => textual t.toList),
        .raised "TASK_QUEUE_WAIT_ERROR")

instance : Backend (StoreState δ) δ where
  getStatus := getStatus
  savePayload := save
  enqueue s p := { s with queue := s.queue ++ [p.taskId] }
  queue := queue
  setQueue s q := { s with queue := q }
  claimPopped := claimPopped
  complete := complete
  fail := fail
  renewLease := renewLease
  taskIds s := s.rows.entries.map (·.taskId)
  staleTasks s order now := (s, s.rows.listStaleRunning order now)
  getChildren s order parent := s.rows.getChildren order parent
  submitManyWithCapacity s ps maxActive _ := s.submitMany ps maxActive
  refuse := refuse

end StoreState

end NeuralHub.TaskQueue.Sequential
