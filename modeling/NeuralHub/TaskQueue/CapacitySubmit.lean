/-
NeuralHub.TaskQueue.CapacitySubmit — `submit_many_with_capacity` call by
call, with errors: `task_queue.py`, `task_queue_submit.py` and
`sub_agent_capacity_store.py`.

One process submits a batch, and any call it makes to Redis or to the store
may raise, before or after it has taken effect. Between its calls workers
pop ids from the list, claim tasks and end them; without a persistence a
worker reads a key, and what it has computed from it is set later. With a
persistence an error of `_enqueue_many` leads to `fail_saved_payloads`;
without one there is no compensation.

Left out: expiry, the cache of rows in Redis, and the calls of other
clients, which do not know the ids of the batch yet.
-/
import NeuralHub.TaskQueue.Sequential

namespace NeuralHub.TaskQueue.CapacitySubmit

open NeuralHub.Lib

variable {δ : Type}

/-- What is submitted: the payloads that were built, and to which kind of queue. -/
structure Submission (δ : Type) where
  persisted : Bool
  batch : List (TaskPayload δ)
  maxActive : Nat

/-- A call of the submitting process to Redis. -/
inductive RedisCall (δ : Type) where
  /-- `_cache_payload` -/
  | set (p : TaskPayload δ)
  | sadd (t : String)
  | lpush (t : String)
  | expire

/-- `_enqueue_many`. -/
def enqueueMany (ps : List (TaskPayload δ)) : List (RedisCall δ) :=
  ps.flatMap (fun p => [.sadd p.taskId, .lpush p.taskId]) ++ [.expire, .expire]

/-- `_save_and_enqueue`, without a persistence. -/
def saveAndEnqueue (p : TaskPayload δ) : List (RedisCall δ) := .set p :: enqueueMany [p]

/-- Where the submission stands. -/
inductive Point (δ : Type) where
  /-- before `save_many_with_capacity`, or before `get_children` -/
  | start
  /-- the calls to Redis that are left -/
  | redis (calls : List (RedisCall δ))
  /-- `fail_saved_payloads`: the ids that are left, and the text of the error -/
  | compensate (error : String) (todo : List String)
  | raised (code : String)
  | returned

structure Sys (δ : Type) where
  /-- the rows of the store, or the keys `task:{ns}:{id}` -/
  rows : Rows δ
  queue : List String
  index : List String
  /-- the ids that workers have popped and not looked at -/
  popped : List String
  /-- what workers are about to set; only without a persistence -/
  writes : List (TaskPayload δ)
  now : Int
  point : Point δ

/-- How a call ends. -/
inductive Ending where
  | ok
  | raises (text : String) (committed : Bool)
  deriving DecidableEq, Repr

inductive Action (δ : Type) where
  | tick (d : Int)
  /-- the next call of the submission -/
  | call (ending : Ending)
  | pop
  | claim (worker t : String)
  | complete (t : String) (r : δ) (worker : String)
  | fail (t e worker : String)
  | renewLease (t : String) (extension : Int)
  /-- the `SET` of a worker -/
  | write (p : TaskPayload δ)

/-! ## The submission -/

def RedisCall.perform (s : Sys δ) : RedisCall δ → Sys δ
  | .set p => { s with rows := s.rows.put p }
  | .sadd t => { s with index := s.index.insert t }
  | .lpush t => { s with queue := s.queue ++ [t] }
  | .expire => s

/-- The error for which `save_payloads_with_capacity` or `enforce_capacity` refuses the
batch. -/
def refusal (sub : Submission δ) (s : Sys δ) : Option String :=
  if sub.persisted then
    if sub.batch = [] then none
    else
      match batchParent sub.batch with
      | none => some "DB_SESSION_ERROR"
      | some parent =>
        if sub.maxActive < (s.rows.activeIds parent).length + sub.batch.length then
          some "DB_SESSION_ERROR"
        else if s.rows.insertConflicts sub.batch then some "DB_SESSION_ERROR"
        else none
  else
    match batchParent sub.batch with
    | none => some "TASK_QUEUE_CAPACITY_PARENT_MISMATCH"
    | some parent =>
      let existing := s.rows.getChildren s.index parent
      if sub.maxActive < (existing.filter (·.active)).length + sub.batch.length then
        some "TASK_QUEUE_CAPACITY_EXCEEDED"
      else none

/-- What `save_many_with_capacity` commits when it does not refuse the batch. -/
def save (sub : Submission δ) (s : Sys δ) : Sys δ :=
  if sub.persisted ∧ refusal sub s = none then { s with rows := s.rows.putAll sub.batch } else s

/-- The calls to Redis that follow. -/
def redisCalls (sub : Submission δ) : List (RedisCall δ) :=
  if sub.persisted then enqueueMany sub.batch else sub.batch.flatMap saveAndEnqueue

/-- Go on with these calls. -/
def Sys.goOn (s : Sys δ) (calls : List (RedisCall δ)) : Sys δ :=
  { s with point := if calls.isEmpty then .returned else .redis calls }

/-- Fail the saved payloads with these ids. -/
def Sys.compensate (s : Sys δ) (error : String) (todo : List String) : Sys δ :=
  { s with
    point := if todo.isEmpty then .raised "TASK_QUEUE_CAPACITY_SUBMIT_ERROR"
      else .compensate error todo }

/-- The next call of the submission. -/
def call (sub : Submission δ) (s : Sys δ) : Ending → Option (Sys δ)
  | .ok =>
    match s.point with
    | .start =>
      match refusal sub s with
      | some code => some { s with point := .raised code }
      | none => some ((save sub s).goOn (redisCalls sub))
    | .redis (c :: calls) => some ((c.perform s).goOn calls)
    | .compensate error (t :: todo) =>
      some ({ s with rows := (s.rows.fail t error "").1 }.compensate error todo)
    | _ => none
  | .raises text committed =>
    match s.point with
    | .start =>
      let code := if sub.persisted then "DB_SESSION_ERROR" else "TASK_QUEUE_CHILDREN_ERROR"
      some { if committed then save sub s else s with point := .raised code }
    | .redis (c :: _) =>
      let s := if committed then c.perform s else s
      if sub.persisted then some (s.compensate text (sub.batch.map (·.taskId)))
      else some { s with point := .raised "TASK_QUEUE_CAPACITY_SUBMIT_ERROR" }
    | .compensate error (t :: _) =>
      some
        { s with
          rows := if committed then (s.rows.fail t error "").1 else s.rows
          point := .raised "TASK_QUEUE_CAPACITY_COMPENSATE_ERROR" }
    | _ => none

/-! ## The workers -/

/-- What a worker that claims has computed from the key. -/
def claimWrite (s : Sys δ) (worker t : String) : List (TaskPayload δ) :=
  match s.rows.find t with
  | some p => if p.status = .pending then [p.claimed worker s.now] else []
  | none => []

/-- What `update_terminal_payload_state` has computed from the key. -/
def updateWrite (s : Sys δ) (t : String) (status : TaskStatus) (result : Option δ)
    (error worker : String) : List (TaskPayload δ) :=
  ((s.rows.find t).bind fun p => updateTerminal p status result error worker).toList

def step [DecidableEq δ] (sub : Submission δ) (s : Sys δ) : Action δ → Option (Sys δ)
  | .tick d => if 0 ≤ d then some { s with now := s.now + d } else none
  | .call ending => call sub s ending
  | .pop =>
    match s.queue with
    | [] => none
    | t :: rest => some { s with queue := rest, popped := t :: s.popped }
  | .claim worker t =>
    if t ∈ s.popped then
      let s := { s with popped := s.popped.erase t }
      if sub.persisted then some { s with rows := (s.rows.claim t worker s.now).1 }
      else some { s with writes := claimWrite s worker t ++ s.writes }
    else none
  | .complete t r worker =>
    if sub.persisted then some { s with rows := (s.rows.complete t r worker).1 }
    else some { s with writes := updateWrite s t .succeeded (some r) "" worker ++ s.writes }
  | .fail t e worker =>
    if sub.persisted then some { s with rows := (s.rows.fail t e worker).1 }
    else some { s with writes := updateWrite s t .failed none e worker ++ s.writes }
  | .renewLease t extension =>
    if sub.persisted then some { s with rows := s.rows.renewLease t extension s.now } else some s
  | .write p =>
    if p ∈ s.writes then some { s with rows := s.rows.put p, writes := s.writes.erase p }
    else none

def machine [DecidableEq δ] (sub : Submission δ) : Machine (Sys δ) (Action δ) := ⟨step sub⟩

/-- The task that a worker claims by this step. -/
def claimed (sub : Submission δ) (s : Sys δ) : Action δ → Option String
  | .claim worker t =>
    if sub.persisted then (s.rows.claim t worker s.now).2.map (·.taskId) else none
  | .write p => if p.status = .running then some p.taskId else none
  | _ => none

end NeuralHub.TaskQueue.CapacitySubmit
