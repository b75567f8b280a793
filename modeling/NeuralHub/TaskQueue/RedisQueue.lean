/-
NeuralHub.TaskQueue.RedisQueue — `TaskQueue` with `persistence=None`, as a
machine that interleaves the calls of any number of processes.

Here the payloads live in Redis keys `task:{ns}:{id}` and there are no
transactions: one step is one Redis command, with every Python line up to
the next await. `update_terminal_payload_state`, `claim_task` and
`cancel_payload_task` are a `GET`, a test and a `SET`, so another process
can get in between the test and the `SET`. `updateTerminal` is the test,
shared with the sequential model.

Left out: `submit_many_with_capacity`, which holds an in-process lock (the
sequential model has it), the cancel flag, the expiry of keys, and log
output. `renew_lease` does nothing without a persistence.
-/
import NeuralHub.TaskQueue.Persisted

namespace NeuralHub.TaskQueue

open NeuralHub.Lib

variable {δ : Type}

/-- `update_terminal_payload_state` after its `get_status`: the payload to
save, or `none` when the update is skipped. -/
def updateTerminal (p : TaskPayload δ) (status : TaskStatus) (result : Option δ)
    (error worker : String) : Option (TaskPayload δ) :=
  if !p.canUpdateTerminal status worker then none
  else if worker ≠ "" ∧ p.workerId ≠ worker then none
  else some { p with status := status, result := result, error := error }

namespace RedisQueue

/-- Where a process stands: before which Redis command of which call. -/
inductive Point (δ : Type) where
  /-- no call in progress -/
  | idle (last : Value δ)
  /-- `_enqueue_many`: payload saved; `sadd` and `lpush` to come -/
  | submitIndex (p : TaskPayload δ)
  | submitPush (p : TaskPayload δ)
  /-- `claim_task`: `brpop`, `get`, and the `set` of the claimed payload -/
  | claimPop (worker : String)
  | claimGet (worker t : String)
  | claimSet (claimed : TaskPayload δ)
  /-- `update_terminal_payload_state`: tested, the `set` to come -/
  | updateSet (updated : TaskPayload δ)
  /-- `cancel_payload_task`: `p` read as pending; `lrem` and `set` to come -/
  | cancelRemove (p : TaskPayload δ)
  | cancelSet (p : TaskPayload δ)
  /-- `_scan_redis_stale`, entered at `now` -/
  | recoverScan (now : Int) (ids : List String) (stale : List (TaskPayload δ))
  /-- `recover_stale_task_payloads`: stale snapshots still to handle -/
  | recoverEach (todo : List (TaskPayload δ)) (recovered : Nat)
  | recoverPush (p : TaskPayload δ) (todo : List (TaskPayload δ)) (recovered : Nat)
  /-- `_expire_stale_task`: `fail` has tested, the `set` to come -/
  | recoverFailSet (updated : TaskPayload δ) (todo : List (TaskPayload δ)) (recovered : Nat)
  /-- `wait_for_task_payloads`: reading the statuses of one poll -/
  | waitRead (ids : List String) (deadline : Option Int) (todo : List String)
      (statuses : List (String × Option (TaskPayload δ)))
  /-- `_fail_stuck_tasks`: entered at `now`, these statuses still to handle -/
  | waitFail (now : Int) (todo : List (String × Option (TaskPayload δ)))
      (final : List (TaskPayload δ))
  /-- `_fail_stuck_tasks`: `fail` has tested `snapshot`, the `set` to come -/
  | waitFailSet (now : Int) (t : String) (snapshot status : TaskPayload δ)
      (todo : List (String × Option (TaskPayload δ))) (final : List (TaskPayload δ))
  /-- `_fail_stuck_tasks`: the task's status not yet read again -/
  | waitRefresh (now : Int) (t : String) (status : TaskPayload δ)
      (todo : List (String × Option (TaskPayload δ))) (final : List (TaskPayload δ))

inductive Op (δ : Type) where
  | submit (spec : QueueSubmitSpec δ)
  | claim (worker : String)
  | complete (t : String) (r : δ) (worker : String)
  | fail (t e worker : String)
  | renewLease (t : String) (extension : Int)
  | cancel (t : String)
  /-- `ids` is the index set in the order of the scan -/
  | recover (ids : List String)
  /-- `globalTimeout ≤ 0` waits for ever -/
  | wait (ids : List String) (globalTimeout : Int)
  /-- the call in progress takes its next step -/
  | next

inductive Action (δ : Type) where
  | tick (d : Int)
  | op (i : Nat) (o : Op δ)

structure Shared (δ : Type) where
  /-- the keys `task:{ns}:{id}` -/
  keys : Rows δ
  queue : List String
  /-- the set `task:{ns}:index` -/
  index : List String
  now : Int

structure Sys (δ : Type) extends Shared δ where
  points : Nat → Point δ

namespace Shared

def set (s : Shared δ) (p : TaskPayload δ) : Shared δ := { s with keys := s.keys.put p }

def push (s : Shared δ) (t : String) : Shared δ := { s with queue := s.queue ++ [t] }

end Shared

/-- `complete` and `fail` after their `GET`. -/
def update (s : Shared δ) (t : String) (status : TaskStatus) (result : Option δ)
    (error worker code : String) : Shared δ × Point δ :=
  match s.keys.find t with
  | none => (s, .idle (.raised code))
  | some p =>
      match updateTerminal p status result error worker with
      | none => (s, .idle (.bool false))
      | some q => (s, .updateSet q)

/-- Start a call in an idle process. -/
def start (ns : String) (s : Shared δ) : Op δ → Option (Shared δ × Point δ)
  | .submit spec =>
      let p := buildPayload ns spec s.now
      some (s.set p, .submitIndex p)
  | .claim worker => some (s, .claimPop worker)
  | .complete t r worker =>
      some (update s t .succeeded (some r) "" worker "TASK_QUEUE_COMPLETE_ERROR")
  | .fail t e worker => some (update s t .failed none e worker "TASK_QUEUE_FAIL_ERROR")
  | .renewLease _ _ => some (s, .idle .unit)
  | .cancel t =>
      match s.keys.find t with
      | none => some (s, .idle (.bool false))
      | some p =>
          if p.status.terminal then some (s, .idle (.bool false))
          else if p.status = .pending then some (s, .cancelRemove p)
          else some (s, .idle (.bool true))
  | .recover ids => if ids.Perm s.index then some (s, .recoverScan s.now ids []) else none
  | .wait ids globalTimeout =>
      if ids = [] then some (s, .idle (.tasks []))
      else some (s, .waitRead ids (if 0 < globalTimeout then some (s.now + globalTimeout) else none)
        ids [])
  | .next => none

/-- The next step of the call in progress. -/
def resume (s : Shared δ) : Point δ → Option (Shared δ × Point δ)
  | .idle _ => none
  | .submitIndex p => some ({ s with index := s.index.insert p.taskId }, .submitPush p)
  | .submitPush p => some (s.push p.taskId, .idle (.task (some p)))
  | .claimPop worker =>
      match s.queue with
      | [] => some (s, .idle (.task none))
      | t :: rest => some ({ s with queue := rest }, .claimGet worker t)
  | .claimGet worker t =>
      match s.keys.find t with
      | some p =>
          if p.status = .pending then some (s, .claimSet (p.claimed worker s.now))
          else some (s, .claimPop worker)
      | none => some (s, .claimPop worker)
  | .claimSet q => some (s.set q, .idle (.task (some q)))
  | .updateSet q => some (s.set q, .idle (.bool true))
  | .cancelRemove p =>
      some ({ s with queue := s.queue.filter (· ≠ p.taskId) }, .cancelSet p)
  | .cancelSet p => some (s.set p.cancelled, .idle (.bool true))
  | .recoverScan _ [] stale => some (s, .recoverEach stale 0)
  | .recoverScan now (t :: ids) stale =>
      match s.keys.find t with
      | none => some ({ s with index := s.index.erase t }, .recoverScan now ids stale)
      | some p =>
          if p.status = .running ∧ p.leaseExpired now = true then
            some (s, .recoverScan now ids (stale ++ [p]))
          else some (s, .recoverScan now ids stale)
  | .recoverEach [] n => some (s, .idle (.count n))
  | .recoverEach (p :: todo) n =>
      if p.retryCount < p.maxRetries then some (s.set p.requeued, .recoverPush p todo n)
      else
        match (s.keys.find p.taskId).bind
            (fun q => updateTerminal q .failed none p.expiredError "") with
        | none => some (s, .recoverEach todo n)
        | some q => some (s, .recoverFailSet q todo n)
  | .recoverPush p todo n => some (s.push p.taskId, .recoverEach todo (n + 1))
  | .recoverFailSet q todo n => some (s.set q, .recoverEach todo n)
  | .waitRead ids deadline (t :: todo) statuses =>
      some (s, .waitRead ids deadline todo (statuses ++ [(t, s.keys.find t)]))
  | .waitRead ids deadline [] statuses =>
      if statuses.all (fun st => st.2.any (fun p => p.status.terminal)) then
        some (s, .idle (.tasks (statuses.filterMap (·.2))))
      else if deadline.any (fun d => decide (d < s.now)) then
        some (s, .waitFail s.now statuses [])
      else some (s, .waitRead ids deadline ids [])
  | .waitFail _ [] final => some (s, .idle (.tasks final))
  | .waitFail now ((_, none) :: todo) final => some (s, .waitFail now todo final)
  | .waitFail now ((t, some p) :: todo) final =>
      if p.status.terminal then some (s, .waitFail now todo (final ++ [p]))
      else if p.shouldDetach now then
        some (s, .waitFail now todo (final ++ [{ p with error := waitDetachedError }]))
      else
        match s.keys.find t with
        | none => some (s, .waitRefresh now t p todo final)
        | some snapshot =>
            if (updateTerminal snapshot .failed none waitTimeoutError "").isSome then
              some (s, .waitFailSet now t snapshot p todo final)
            else some (s, .waitRefresh now t p todo final)
  | .waitFailSet now t snapshot p todo final =>
      some (s.set (snapshot.failedCleared waitTimeoutError), .waitRefresh now t p todo final)
  | .waitRefresh now t p todo final =>
      some (s, .waitFail now todo (final ++ [refreshedStatus (s.keys.find t) p]))

/-- One step of a process at point `pt`. -/
def stepPoint (ns : String) (s : Shared δ) (pt : Point δ) : Op δ → Option (Shared δ × Point δ)
  | .next => resume s pt
  | o =>
      match pt with
      | .idle _ => start ns s o
      | _ => none

def step (ns : String) (s : Sys δ) : Action δ → Option (Sys δ)
  | .tick d => if 0 ≤ d then some { s with now := s.now + d } else none
  | .op i o =>
      (stepPoint ns s.toShared (s.points i) o).map
        (fun out => { toShared := out.1, points := Function.update s.points i out.2 })

def machine (ns : String) : Machine (Sys δ) (Action δ) := ⟨step ns⟩

/-- No keys, an empty list, every process idle. -/
def init (now : Int) : Sys δ where
  keys := Table.empty
  queue := []
  index := []
  now := now
  points := fun _ => .idle .unit

end RedisQueue

end NeuralHub.TaskQueue
