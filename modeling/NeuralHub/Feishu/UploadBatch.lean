/-
NeuralHub.Feishu.UploadBatch — uploads that are collected in Redis and
submitted together (`feishu_knowledge_upload_batch.py` and its support
module), for one batch key.

Each command of Redis is one step, and any number of calls are under way,
in whatever process: calls of `add_file_to_upload_batch`, delayed flushes,
flushes that ask for the lock, and flushes that have got it. Equal calls
are interchangeable, so an action names the call that takes its step. The
keys of the batch do not expire; the lock does. All processes read one
clock, in microseconds.

`EXPIRE` and the payload around the submitted files are left out, and so
is the mode without Redis. A file is submitted where `submit_ingest_batch`
returns.
-/
import Mathlib.Algebra.GroupWithZero.Nat
import NeuralHub.Lib.Machine

namespace NeuralHub.Feishu.UploadBatch

open NeuralHub.Lib

structure UploadBatchConfig where
  quietWindow : Nat := 5000000
  maxWait : Nat := 30000000
  maxFiles : Nat := 50
  maxTotalBytes : Nat := 500 * 1024 * 1024

structure FeishuFileItem where
  openId : String
  chatId : String
  messageId : String
  fileKey : String
  fileName : String
  kbId : String
  kbName : String
  fileSize : Int := 0
  deriving DecidableEq, Repr

/-- `ex=60` of the lock. -/
def lockTtl : Nat := 60000000

/-! ## Calls -/

/-- The last command of `add_file_to_upload_batch`. -/
inductive AddPoint where
  /-- the time is read -/
  | begun
  | firstSet
  | lastSet
  | pushed
  | counted (count : Nat)
  | sized (count totalSize : Nat)
  deriving DecidableEq, Repr

structure AddCall where
  file : FeishuFileItem
  now : Nat
  point : AddPoint
  deriving DecidableEq, Repr

/-- A `_delayed_flush` until it calls `flush_upload_batch`. -/
inductive Timer where
  | sleeping (wake : Nat)
  /-- `_should_flush` has read the first of its keys -/
  | awake (first : Option Nat)
  /-- and the second -/
  | seen (first last : Option Nat)
  deriving DecidableEq, Repr

/-- A `flush_upload_batch` that has got the lock. -/
inductive Flush where
  | locked
  | read (batch : List FeishuFileItem)
  | submitted (count : Nat)
  | trimmed
  /-- the keys are removed, the lock is still there -/
  | cleared
  /-- the submission has failed, the lock is still there -/
  | failed
  deriving DecidableEq, Repr

structure State where
  now : Nat := 0
  /-- `first_seen` -/
  first : Option Nat := none
  /-- `last_seen` -/
  last : Option Nat := none
  files : List FeishuFileItem := []
  count : Nat := 0
  totalSize : Nat := 0
  /-- when the lock expires -/
  lock : Option Nat := none
  adds : List AddCall := []
  timers : List Timer := []
  /-- flushes that ask for the lock; whether they are delayed ones -/
  attempts : List Bool := []
  flushes : List Flush := []
  /-- every file that was pushed -/
  pushed : List FeishuFileItem := []
  /-- the batches that were submitted -/
  batches : List (List FeishuFileItem) := []

/-! ## Steps -/

inductive Action where
  | tick (elapsed : Nat)
  | beginAdd (file : FeishuFileItem)
  /-- the next command of the call -/
  | add (call : AddCall)
  /-- the next command of the delayed flush -/
  | timer (t : Timer)
  /-- `SET NX` of the lock -/
  | tryLock (delayed : Bool)
  /-- the next command of the flush; a submission succeeds -/
  | flush (f : Flush)
  | submitFails (batch : List FeishuFileItem)
  deriving DecidableEq, Repr

/-- `int(await redis.incrby(size_key, max(file.file_size, 0)))` -/
def sizeOf (file : FeishuFileItem) : Nat := file.fileSize.toNat

def stepAdd (cfg : UploadBatchConfig) (s : State) (call : AddCall) : State :=
  let others := s.adds.erase call
  let goOn (point : AddPoint) : List AddCall := { call with point } :: others
  match call.point with
  | .begun => { s with first := some (s.first.getD call.now), adds := goOn .firstSet }
  | .firstSet => { s with last := some call.now, adds := goOn .lastSet }
  | .lastSet =>
    { s with
      files := s.files ++ [call.file]
      pushed := s.pushed ++ [call.file]
      adds := goOn .pushed }
  | .pushed => { s with count := s.count + 1, adds := goOn (.counted (s.count + 1)) }
  | .counted count =>
    let totalSize := s.totalSize + sizeOf call.file
    { s with totalSize, adds := goOn (.sized count totalSize) }
  | .sized count totalSize =>
    { s with
      adds := others
      timers := .sleeping (s.now + cfg.quietWindow) :: s.timers
      attempts :=
        if cfg.maxFiles ≤ count ∨ cfg.maxTotalBytes ≤ totalSize then false :: s.attempts
        else s.attempts }

/-- `_should_flush` with what was read. -/
def shouldFlush (cfg : UploadBatchConfig) (now : Nat) (first last : Option Nat) : Bool :=
  match first, last with
  | some first, some last =>
    decide (last + cfg.quietWindow ≤ now) || decide (first + cfg.maxWait ≤ now)
  | _, _ => false

def stepTimer (cfg : UploadBatchConfig) (s : State) (t : Timer) : Option State :=
  let others := s.timers.erase t
  match t with
  | .sleeping wake =>
    if wake ≤ s.now then some { s with timers := .awake s.first :: others } else none
  | .awake first => some { s with timers := .seen first s.last :: others }
  | .seen first last =>
    some { s with
      timers := others
      attempts := if shouldFlush cfg s.now first last then true :: s.attempts else s.attempts }

/-- The lock is there and not expired. -/
def State.isLocked (s : State) : Bool := s.lock.any fun expires => decide (s.now < expires)

def stepLock (s : State) (delayed : Bool) : State :=
  let attempts := s.attempts.erase delayed
  if s.isLocked then { s with attempts }
  else { s with attempts, lock := some (s.now + lockTtl), flushes := .locked :: s.flushes }

def stepFlush (s : State) (f : Flush) : State :=
  let others := s.flushes.erase f
  match f with
  | .locked => { s with flushes := .read s.files :: others }
  | .read batch =>
    { s with
      batches := if batch = [] then s.batches else s.batches ++ [batch]
      flushes := .submitted batch.length :: others }
  | .submitted count => { s with files := s.files.drop count, flushes := .trimmed :: others }
  | .trimmed =>
    { s with first := none, last := none, count := 0, totalSize := 0
             flushes := .cleared :: others }
  | .cleared | .failed => { s with lock := none, flushes := others }

def step (cfg : UploadBatchConfig) (s : State) : Action → Option State
  | .tick elapsed => some { s with now := s.now + elapsed }
  | .beginAdd file => some { s with adds := ⟨file, s.now, .begun⟩ :: s.adds }
  | .add call => if call ∈ s.adds then some (stepAdd cfg s call) else none
  | .timer t => if t ∈ s.timers then stepTimer cfg s t else none
  | .tryLock delayed => if delayed ∈ s.attempts then some (stepLock s delayed) else none
  | .flush f => if f ∈ s.flushes then some (stepFlush s f) else none
  | .submitFails batch =>
    if .read batch ∈ s.flushes ∧ batch ≠ [] then
      some { s with
        timers := .sleeping (s.now + cfg.quietWindow) :: s.timers
        flushes := .failed :: s.flushes.erase (.read batch) }
    else none

def machine (cfg : UploadBatchConfig) : Machine State Action := ⟨step cfg⟩

/-- No call is under way any more. -/
def State.atRest (s : State) : Bool :=
  s.adds.isEmpty && s.timers.isEmpty && s.attempts.isEmpty && s.flushes.isEmpty

end NeuralHub.Feishu.UploadBatch
