/-
NeuralHub.XBudget.Gates — the two gates in front of a search of X:
`x_budget.py`.

Every process that searches asks the same Redis, one command at a time, and
commands of others come in between. Times are milliseconds of one clock.
The first gate is a key that is set for the interval if it is not there,
the second a counter for each day, which gets its time to live behind the
first increment. An answer that does not come, whether or not the command
was carried out, opens the gates; so does a Redis that is not configured.

`Config.px` is what `max(int(min_interval_seconds * 1000), 1)` gives: the
conversion of the float is not modelled, so the interval that is kept is
the one in whole milliseconds that Redis is sent.
-/
import NeuralHub.Lib.ExpiringKeys
import NeuralHub.Lib.Machine

namespace NeuralHub.XBudget

open NeuralHub.Lib

def dayLength : Int := 86400000

/-- `_DAY_TTL_SECONDS`. -/
def dayTtl : Int := 90000000

/-- What the time to live is longer than a day. -/
def grace : Int := 3600000

structure Config where
  /-- the milliseconds of the interval, at least 1; none if the interval is not positive -/
  px : Option Nat
  px_pos : ∀ n ∈ px, 1 ≤ n
  dailyBudget : Int

structure Counter where
  day : Int
  count : Nat
  expiresAt : Option Int

/-- What a call waits for. -/
inductive Point
  | setting (budget : Bool)
  /-- the gate is set, the answer is on its way -/
  | granted (budget : Bool)
  | incrementing (day : Int)
  /-- the first increment of a day -/
  | expiring (day : Int)
  /-- through the gates; the day it was counted on, if it was -/
  | passed (day : Option Int)
  | refused (reason : String) (retryAfter : Nat)
  /-- let through because of a Redis that does not answer -/
  | degraded
  deriving DecidableEq

inductive Reply
  | answered
  /-- carried out, without an answer -/
  | lost
  | failed
  deriving DecidableEq

structure State where
  now : Int
  gate : ExpiringKeys Unit Unit := Table.empty
  counters : Table Counter.day := Table.empty
  calls : List Point := []
  /-- when the gate was set, the last time first -/
  acquired : List Int := []

inductive Action
  | tick (elapsed : Nat)
  /-- `_run_gates` -/
  | call (interval budget redis : Bool)
  | reply (call : Nat) (reply : Reply)

/-- `datetime.now(UTC).date()`. -/
def today (now : Int) : Int := now / dayLength

def Counter.alive (counter : Counter) (now : Int) : Bool :=
  counter.expiresAt.all fun time => now < time

namespace State

variable (cfg : Config)

def setPoint (s : State) (call : Nat) (point : Point) : State :=
  { s with calls := s.calls.set call point }

/-- `_check_daily_budget`, up to the increment. -/
def budgetPoint (s : State) (budget : Bool) : Point :=
  if budget then .incrementing (today s.now) else .passed none

def runGates (s : State) (interval budget redis : Bool) : State :=
  let point :=
    if redis then
      if interval && cfg.px.isSome then .setting budget else s.budgetPoint budget
    else .degraded
  { s with calls := s.calls ++ [point] }

/-- `SET NX PX`. -/
def setGate (s : State) : Option State :=
  cfg.px.bind fun px => (s.gate.setNx s.now px () ()).map fun gate =>
    { s with gate, acquired := s.now :: s.acquired }

def tooFrequent : Point :=
  .refused "X 搜索调用过于频繁，请稍后重试" (max ((cfg.px.getD 0) / 1000) 1)

def gatePoint (s : State) (budget : Bool) : Point :=
  if (s.setGate cfg).isSome then .granted budget else tooFrequent cfg

/-- The count of a day, of a key that is there. -/
def count (s : State) (day : Int) : Nat :=
  match s.counters.find day with
  | some counter => if counter.alive s.now then counter.count else 0
  | none => 0

/-- `INCR`; a key that is there keeps its time to live. -/
def incr (s : State) (day : Int) : State :=
  let expiresAt := (s.counters.find day).bind fun counter =>
    if counter.alive s.now then counter.expiresAt else none
  { s with counters := s.counters.put ⟨day, s.count day + 1, expiresAt⟩ }

/-- `EXPIRE`. -/
def expire (s : State) (day : Int) : State :=
  match s.counters.find day with
  | some counter =>
    if counter.alive s.now then
      { s with counters := s.counters.put { counter with expiresAt := some (s.now + dayTtl) } }
    else s
  | none => s

def exhausted : Point := .refused "今日 X 搜索额度已用尽，请明天再试" 3600

/-- Behind an increment with this count. -/
def decided (day : Int) (count : Nat) : Point :=
  if cfg.dailyBudget < count then exhausted else .passed (some day)

def countedPoint (s : State) (day : Int) : Point :=
  if s.count day + 1 = 1 then .expiring day else decided cfg day (s.count day + 1)

/-- A command is carried out, if it is, and the call goes on. -/
def reply (s : State) (call : Nat) : Point → Reply → Option State
  | .setting _, .failed => some (s.setPoint call .degraded)
  | .setting budget, .answered =>
    some (((s.setGate cfg).getD s).setPoint call (s.gatePoint cfg budget))
  | .setting _, .lost => some (((s.setGate cfg).getD s).setPoint call .degraded)
  | .granted budget, .answered => some (s.setPoint call (s.budgetPoint budget))
  | .incrementing _, .failed => some (s.setPoint call .degraded)
  | .incrementing day, .answered =>
    some ((s.incr day).setPoint call (s.countedPoint cfg day))
  | .incrementing day, .lost => some ((s.incr day).setPoint call .degraded)
  | .expiring _, .failed => some (s.setPoint call .degraded)
  | .expiring day, .answered => some ((s.expire day).setPoint call (decided cfg day 1))
  | .expiring day, .lost => some ((s.expire day).setPoint call .degraded)
  | _, _ => none

end State

def machine (cfg : Config) : Machine State Action where
  step s
    | .tick elapsed => some { s with now := s.now + elapsed }
    | .call interval budget redis => some (s.runGates cfg interval budget redis)
    | .reply call reply => s.calls[call]?.bind fun point => s.reply cfg call point reply

/-- No increment of a day that is long over. -/
def Point.onTime (now : Int) : Point → Bool
  | .incrementing day => decide (now < (day + 1) * dayLength + grace)
  | _ => true

def State.onTime (s : State) : Action → Bool
  | .reply call reply =>
    -- what fails is not carried out
    decide (reply = .failed) || (s.calls[call]?).all (Point.onTime s.now)
  | _ => true

def OnTime (s : State) (a : Action) : Prop := s.onTime a = true

instance decidableOnTime (s : State) (a : Action) : Decidable (OnTime s a) :=
  inferInstanceAs (Decidable (_ = true))

end NeuralHub.XBudget
