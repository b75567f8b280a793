/-
NeuralHub.TaskQueue.Persisted — `TaskQueue` over `SubAgentTaskStore`, as a
machine that interleaves the calls of any number of processes.

A process is at a `Point`: idle, or between two awaits of one queue call.
`Op` is what happens next in it: a call is started, or the call in
progress takes its next step (`next`), or the persistence call inside
`claim` raises (`raise`). One step is one database transaction or one
Redis command; every Python line up to the next await goes with it. The
machine picks any process at any time, so a list of `Action`s is an
arbitrary interleaving.

What is shared: the rows, the Redis list `task:{ns}:queue`, the row locks
of open transactions and the clock. The list is kept with its right end
first, so `BRPOP` takes the head and `LPUSH` appends.

* `submit`, `complete`, `fail`, `renew_lease` and the row part of `claim`
  are one transaction each.
* `save_payloads_with_capacity` is one transaction with two steps: the
  `FOR UPDATE` of `_active_count` locks the parent's active rows, and they
  stay locked until the insert commits. Meanwhile `claim`, which selects
  with `SKIP LOCKED`, does not see them, and any other write to them waits.
* `cancel_payload_task` and `recover_stale_task_payloads` read a payload in
  one transaction and write it back in a later one.

Left out: the cancel flag, the index set and the cached payloads in Redis,
which no modelled decision reads (`get_status` asks the database first and
rows are never deleted), the expiry of Redis keys, and log output.
-/
import Mathlib.Logic.Function.Basic
import NeuralHub.Lib.Machine
import NeuralHub.TaskQueue.Store

namespace NeuralHub.TaskQueue

open NeuralHub.Lib

variable {δ : Type}

/-- What a finished call returned, or the code of the error it raised. -/
inductive Value (δ : Type) where
  | unit
  | bool (b : Bool)
  | task (p : Option (TaskPayload δ))
  | tasks (ps : List (TaskPayload δ))
  | count (n : Nat)
  | raised (code : String)
  deriving DecidableEq, Repr

/-- `_fail_stuck_tasks`: the answer for a task that a waiter has just failed. -/
def refreshedStatus (refreshed : Option (TaskPayload δ)) (status : TaskPayload δ) :
    TaskPayload δ :=
  refreshed.getD { status with status := .failed, error := waitTimeoutError }

namespace Persisted

/-- Where a process stands. -/
inductive Point (δ : Type) where
  /-- no call in progress -/
  | idle (last : Value δ)
  /-- `_save_and_enqueue`: row saved, id not yet pushed -/
  | submitPush (p : TaskPayload δ)
  /-- `save_payloads_with_capacity`: counted and locked, not yet inserted -/
  | manyInsert (ps : List (TaskPayload δ))
  /-- `_enqueue_many`: committed, these ids not yet pushed -/
  | manyPush (ps : List (TaskPayload δ)) (todo : List String)
  /-- `claim_task`: at the `brpop` of its loop -/
  | claimPop (worker : String)
  /-- `claim_task`: id popped, row not yet claimed -/
  | claimRow (worker t : String)
  /-- `cancel_payload_task`: `p` read as pending, id not yet removed from the list -/
  | cancelRemove (p : TaskPayload δ)
  /-- `cancel_payload_task`: id removed, `p` not yet written back -/
  | cancelSave (p : TaskPayload δ)
  /-- `recover_stale_task_payloads`: stale snapshots still to handle -/
  | recoverEach (todo : List (TaskPayload δ)) (recovered : Nat)
  /-- `_requeue_stale_task`: row written back, id not yet pushed -/
  | recoverPush (p : TaskPayload δ) (todo : List (TaskPayload δ)) (recovered : Nat)
  /-- `wait_for_task_payloads`: reading the statuses of one poll -/
  | waitRead (ids : List String) (deadline : Option Int) (todo : List String)
      (statuses : List (String × Option (TaskPayload δ)))
  /-- `_fail_stuck_tasks`: entered at `now`, these statuses still to handle -/
  | waitFail (now : Int) (todo : List (String × Option (TaskPayload δ)))
      (final : List (TaskPayload δ))
  /-- `_fail_stuck_tasks`: task failed, its status not yet read again -/
  | waitRefresh (now : Int) (t : String) (status : TaskPayload δ)
      (todo : List (String × Option (TaskPayload δ))) (final : List (TaskPayload δ))

inductive Op (δ : Type) where
  | submit (spec : QueueSubmitSpec δ)
  | submitMany (specs : List (QueueSubmitSpec δ)) (maxActive : Nat)
  | claim (worker : String)
  | complete (t : String) (r : δ) (worker : String)
  | fail (t e worker : String)
  | renewLease (t : String) (extension : Int)
  | cancel (t : String)
  /-- `order` lists the row ids in the order of the scan -/
  | recover (order : List String)
  /-- `globalTimeout ≤ 0` waits for ever -/
  | wait (ids : List String) (globalTimeout : Int)
  /-- the call in progress takes its next step -/
  | next
  /-- the persistence call inside `claim` raises, before or after its commit -/
  | raise (committed : Bool)

inductive Action (δ : Type) where
  | tick (d : Int)
  | op (i : Nat) (o : Op δ)

structure Shared (δ : Type) where
  rows : Rows δ
  queue : List String
  /-- row locks of open transactions: holder and row id -/
  locks : List (Nat × String)
  /-- `pg_advisory_xact_lock` of open capacity transactions: holder and parent -/
  advisory : List (Nat × String)
  now : Int

structure Sys (δ : Type) extends Shared δ where
  points : Nat → Point δ

namespace Shared

/-- No transaction of another process holds a lock on row `t`. -/
def rowFree (s : Shared δ) (i : Nat) (t : String) : Bool :=
  s.locks.all (fun l => l.1 = i || l.2 ≠ t)

/-- `_lock_parent_capacity` does not wait. -/
def parentFree (s : Shared δ) (i : Nat) (parent : String) : Bool :=
  parent = "" || s.advisory.all (fun l => l.1 = i || l.2 ≠ parent)

/-- The end of a transaction of process `i`. -/
def release (s : Shared δ) (i : Nat) : Shared δ :=
  { s with
    locks := s.locks.filter (fun l => l.1 ≠ i),
    advisory := s.advisory.filter (fun l => l.1 ≠ i) }

def push (s : Shared δ) (t : String) : Shared δ := { s with queue := s.queue ++ [t] }

/-- Commit a guarded row change of process `i`: a change of a row that
another transaction has locked waits, an update that changes nothing does not. -/
def commitRow (s : Shared δ) (i : Nat) (t : String) (r : Rows δ × Bool) : Option (Shared δ) :=
  if r.2 && !s.rowFree i t then none else some { s with rows := r.1 }

/-- Commit a `save_payload`. -/
def commitSave (s : Shared δ) (i : Nat) (p : TaskPayload δ) : Option (Shared δ) :=
  if s.rowFree i p.taskId then some { s with rows := s.rows.savePayload p } else none

/-- `_parent_id`, `_lock_parent_capacity` and `_active_count` for a non-empty
batch. An error raised inside `get_db_session` leaves it as `DB_SESSION_ERROR`. -/
def openCapacity (s : Shared δ) (i : Nat) (ps : List (TaskPayload δ)) (maxActive : Nat) :
    Option (Shared δ × Point δ) :=
  match batchParent ps with
  | none => some (s, .idle (.raised "DB_SESSION_ERROR"))
  | some parent =>
      let ids := s.rows.activeIds parent
      if !s.parentFree i parent || !ids.all (s.rowFree i) then none
      else if maxActive < ids.length + ps.length then
        some (s, .idle (.raised "DB_SESSION_ERROR"))
      else
        some ({ s with
          locks := s.locks ++ ids.map (fun t => (i, t)),
          advisory := s.advisory ++ [(i, parent)] }, .manyInsert ps)

end Shared

/-- Start a call in an idle process. -/
def start (ns : String) (i : Nat) (s : Shared δ) : Op δ → Option (Shared δ × Point δ)
  | .submit spec =>
      let p := buildPayload ns spec s.now
      (s.commitSave i p).map (fun s' => (s', .submitPush p))
  | .submitMany specs maxActive =>
      let ps := specs.map (fun spec => buildPayload ns spec s.now)
      if ps = [] then some (s, .idle (.tasks [])) else s.openCapacity i ps maxActive
  | .claim worker => some (s, .claimPop worker)
  | .complete t r worker =>
      let out := s.rows.complete t r worker
      (s.commitRow i t out).map (fun s' => (s', .idle (.bool out.2)))
  | .fail t e worker =>
      let out := s.rows.fail t e worker
      (s.commitRow i t out).map (fun s' => (s', .idle (.bool out.2)))
  | .renewLease t extension =>
      let writes := (s.rows.find t).any (fun p => p.status = .running)
      (s.commitRow i t (s.rows.renewLease t extension s.now, writes)).map
        (fun s' => (s', .idle .unit))
  | .cancel t =>
      match s.rows.find t with
      | none => some (s, .idle (.bool false))
      | some p =>
          if p.status.terminal then some (s, .idle (.bool false))
          else if p.status = .pending then some (s, .cancelRemove p)
          else some (s, .idle (.bool true))
  | .recover order =>
      if order.Perm (s.rows.entries.map (·.taskId)) then
        some (s, .recoverEach (s.rows.listStaleRunning order s.now) 0)
      else none
  | .wait ids globalTimeout =>
      if ids = [] then some (s, .idle (.tasks []))
      else some (s, .waitRead ids (if 0 < globalTimeout then some (s.now + globalTimeout) else none)
        ids [])
  | .next => none
  | .raise _ => none

/-- The next step of the call in progress. -/
def resume (i : Nat) (s : Shared δ) : Point δ → Option (Shared δ × Point δ)
  | .idle _ => none
  | .submitPush p => some (s.push p.taskId, .idle (.task (some p)))
  | .manyInsert ps =>
      if s.rows.insertConflicts ps then
        some (s.release i, .idle (.raised "DB_SESSION_ERROR"))
      else
        some (({ s with rows := s.rows.putAll ps }).release i, .manyPush ps (ps.map (·.taskId)))
  | .manyPush ps [] => some (s, .idle (.tasks ps))
  | .manyPush ps (t :: todo) => some (s.push t, .manyPush ps todo)
  | .claimPop worker =>
      match s.queue with
      | [] => some (s, .idle (.task none))
      | t :: rest => some ({ s with queue := rest }, .claimRow worker t)
  | .claimRow worker t =>
      if s.rowFree i t then
        match s.rows.claim t worker s.now with
        | (rows, some p) => some ({ s with rows := rows }, .idle (.task (some p)))
        | (_, none) => some (s, .claimPop worker)
      else some (s, .claimPop worker)
  | .cancelRemove p =>
      some ({ s with queue := s.queue.filter (· ≠ p.taskId) }, .cancelSave p)
  | .cancelSave p => (s.commitSave i p.cancelled).map (fun s' => (s', .idle (.bool true)))
  | .recoverEach [] n => some (s, .idle (.count n))
  | .recoverEach (p :: todo) n =>
      if p.retryCount < p.maxRetries then
        (s.commitSave i p.requeued).map (fun s' => (s', .recoverPush p todo n))
      else
        (s.commitRow i p.taskId (s.rows.fail p.taskId p.expiredError "")).map
          (fun s' => (s', .recoverEach todo n))
  | .recoverPush p todo n => some (s.push p.taskId, .recoverEach todo (n + 1))
  | .waitRead ids deadline (t :: todo) statuses =>
      some (s, .waitRead ids deadline todo (statuses ++ [(t, s.rows.find t)]))
  | .waitRead ids deadline [] statuses =>
      if statuses.all (fun st => st.2.any (fun p => p.status.terminal)) then
        some (s, .idle (.tasks (statuses.filterMap (·.2))))
      else if deadline.any (fun d => decide (d < s.now)) then
        some (s, .waitFail s.now statuses [])
      else some (s, .waitRead ids deadline ids [])
  | .waitFail _ [] final => some (s, .idle (.tasks final))
  | .waitFail now ((_, none) :: todo) final => some (s, .waitFail now todo final)
  | .waitFail now ((t, some p) :: todo) final =>
      if p.status.terminal then some (s, .waitFail now todo (final ++ [p]))
      else if p.shouldDetach now then
        some (s, .waitFail now todo (final ++ [{ p with error := waitDetachedError }]))
      else
        (s.commitRow i t (s.rows.fail t waitTimeoutError "")).map
          (fun s' => (s', .waitRefresh now t p todo final))
  | .waitRefresh now t p todo final =>
      some (s, .waitFail now todo (final ++ [refreshedStatus (s.rows.find t) p]))

/-- The persistence call inside `claim` raises; the popped id is not pushed back. -/
def raiseClaim (i : Nat) (s : Shared δ) (committed : Bool) :
    Point δ → Option (Shared δ × Point δ)
  | .claimRow worker t =>
      if committed && s.rowFree i t then
        some ({ s with rows := (s.rows.claim t worker s.now).1 },
          .idle (.raised "TASK_QUEUE_CLAIM_ERROR"))
      else some (s, .idle (.raised "TASK_QUEUE_CLAIM_ERROR"))
  | _ => none

/-- One step of process `i` at point `pt`. -/
def stepPoint (ns : String) (i : Nat) (s : Shared δ) (pt : Point δ) :
    Op δ → Option (Shared δ × Point δ)
  | .next => resume i s pt
  | .raise committed => raiseClaim i s committed pt
  | o =>
      match pt with
      | .idle _ => start ns i s o
      | _ => none

def step (ns : String) (s : Sys δ) : Action δ → Option (Sys δ)
  | .tick d => if 0 ≤ d then some { s with now := s.now + d } else none
  | .op i o =>
      (stepPoint ns i s.toShared (s.points i) o).map
        (fun out => { toShared := out.1, points := Function.update s.points i out.2 })

def machine (ns : String) : Machine (Sys δ) (Action δ) := ⟨step ns⟩

/-- No rows, an empty list, every process idle. -/
def init (now : Int) : Sys δ where
  rows := Table.empty
  queue := []
  locks := []
  advisory := []
  now := now
  points := fun _ => .idle .unit

end Persisted

end NeuralHub.TaskQueue
