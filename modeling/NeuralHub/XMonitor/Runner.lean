/-
NeuralHub.XMonitor.Runner — the monitors of X and their alerts:
`x_monitor_runner.py` and `x_monitor_store.py`.

Any number of processes run their cycles over one database. A cycle waits
for one answer after the other, and a `Point` says for which; an action is
an answer, the end of a process, or what the API does to the monitors in
between. A transaction is one step, its answer may be lost. Ids are random,
so a monitor never gets one that there has been before, and a hit is named
by its key: a row goes only with its monitor, so no second row gets the same
key. Times are minutes, and which time a cycle reads comes with its answers.

A search gives any posts. Sending an alert may fail with the message on its
way, so what is sent is noted apart from the answer.
-/
import NeuralHub.Lib.Machine
import NeuralHub.Lib.Table

namespace NeuralHub.XMonitor

open NeuralHub.Lib

structure Monitor where
  id : String
  query : String
  intervalMinutes : Int
  thresholdLikes : Int := 0
  thresholdViews : Int := 0
  enabled : Bool := true
  lastRunAt : Option Int := none
  lastStatus : String := ""

structure Post where
  url : String
  authorHandle : String := ""
  text : String := ""
  likes : Int
  views : Int

structure Hit where
  monitorId : String
  tweetUrl : String
  authorHandle : String
  textSnippet : String
  likes : Int
  views : Int
  hitReason : String
  notified : Bool := false

/-- `uq_x_monitor_hit`. -/
def Hit.key (hit : Hit) : String × String := (hit.monitorId, hit.tweetUrl)

/-- A threshold of 0 does not count. -/
def crossingReason (monitor : Monitor) (post : Post) : String :=
  if 0 < monitor.thresholdLikes ∧ monitor.thresholdLikes ≤ post.likes then
    "likes>=" ++ toString monitor.thresholdLikes
  else if 0 < monitor.thresholdViews ∧ monitor.thresholdViews ≤ post.views then
    "views>=" ++ toString monitor.thresholdViews
  else ""

def newHit (monitor : Monitor) (post : Post) : Hit where
  monitorId := monitor.id
  tweetUrl := post.url
  authorHandle := post.authorHandle
  textSnippet := String.ofList (post.text.toList.take 500)
  likes := post.likes
  views := post.views
  hitReason := crossingReason monitor post

/-- `list_due`, of one monitor. -/
def Monitor.isDue (monitor : Monitor) (now : Int) : Bool :=
  monitor.enabled && monitor.lastRunAt.all fun time => time + monitor.intervalMinutes ≤ now

/-- What is left of a monitor: the posts that are not looked at yet. -/
structure Search where
  monitor : Monitor
  posts : List Post
  rateLimited : Bool

/-- What a cycle waits for; the monitors behind the current one follow. -/
inductive Point
  | sleeping
  | listing
  | searching (monitor : Monitor) (rest : List Monitor)
  | inserting (post : Post) (search : Search) (rest : List Monitor)
  | notifying (post : Post) (search : Search) (rest : List Monitor)
  | recording (key : String × String) (sent : Bool) (search : Search) (rest : List Monitor)
  | marking (monitor : Monitor) (status : String) (rest : List Monitor)

inductive Answer
  | done
  /-- an exception; `committed` says that the transaction was carried out -/
  | raised (committed : Bool)
  | found (posts : List Post) (rateLimited : Bool)
  /-- an `XBudgetError` -/
  | budget
  /-- what `notify` returns, and whether the message was sent; only then it may return true -/
  | notified (sent : Bool) (delivered : Bool)

structure State where
  monitors : Table Monitor.id := Table.empty
  hits : Table Hit.key := Table.empty
  cycles : List Point := []
  /-- the ids there have been -/
  ids : List String := []
  /-- the messages that were sent, the last one first -/
  alerts : List (Monitor × Post) := []

inductive Action
  | start
  | tick (cycle : Nat)
  /-- the process ends, or its task is cancelled -/
  | stop (cycle : Nat)
  | answer (cycle : Nat) (now : Int) (answer : Answer)
  | create (monitor : Monitor)
  | update (monitor : Monitor)
  | delete (id : String)

namespace State

def setPoint (s : State) (cycle : Nat) (point : Point) : State :=
  { s with cycles := s.cycles.set cycle point }

end State

/-- The next monitor. -/
def nextMonitor : List Monitor → Point
  | [] => .sleeping
  | monitor :: rest => .searching monitor rest

/-- The next post over a threshold, or the end of the monitor. -/
def nextPost (search : Search) (rest : List Monitor) : List Post → Point
  | [] => .marking search.monitor (if search.rateLimited then "rate_limited" else "ok") rest
  | post :: posts =>
    if crossingReason search.monitor post = "" then nextPost search rest posts
    else .inserting post { search with posts } rest

def nextInSearch (search : Search) (rest : List Monitor) : Point :=
  nextPost search rest search.posts

namespace State

/-- `insert_hit`; a hit that is there stays as it is. -/
def insertHit (s : State) (hit : Hit) : State :=
  if (s.hits.find hit.key).isSome then s else { s with hits := s.hits.put hit }

/-- Behind `insert_hit`, which says whether the hit is new. -/
def insertedPoint (s : State) (post : Post) (search : Search) (rest : List Monitor) : Point :=
  if (s.hits.find (newHit search.monitor post).key).isSome then nextInSearch search rest
  else .notifying post search rest

def setHitNotified (s : State) (key : String × String) (notified : Bool) : State :=
  match s.hits.find key with
  | some hit => { s with hits := s.hits.put { hit with notified } }
  | none => s

def markRun (s : State) (id status : String) (now : Int) : State :=
  match s.monitors.find id with
  | some monitor =>
    let lastStatus := String.ofList (status.toList.take 20)
    { s with monitors := s.monitors.put { monitor with lastRunAt := some now, lastStatus } }
  | none => s

/-- The fields of a row that can be changed. -/
def updateMonitor (s : State) (row fields : Monitor) : State :=
  let monitor :=
    { fields with id := row.id, lastRunAt := row.lastRunAt, lastStatus := row.lastStatus }
  { s with monitors := s.monitors.put monitor }

/-- The rows of the hits go with the monitor (`ON DELETE CASCADE`). -/
def deleteMonitor (s : State) (id : String) : State :=
  { s with monitors := s.monitors.erase id, hits := s.hits.keep fun hit => hit.monitorId ≠ id }

/-- A hit of a monitor that is gone violates its foreign key. -/
def answerInsert (s : State) (cycle : Nat) (post : Post) (search : Search) (committed : Bool)
    (next : Point) : Option State :=
  if committed then
    if (s.monitors.find search.monitor.id).isSome then
      some ((s.insertHit (newHit search.monitor post)).setPoint cycle next)
    else none
  else some (s.setPoint cycle next)

/-- A cycle goes on behind an answer; `none` if it does not wait for one like this. -/
def answer (s : State) (cycle : Nat) (now : Int) : Point → Answer → Option State
  | .listing, .done =>
    some (s.setPoint cycle (nextMonitor (s.monitors.entries.filter (·.isDue now))))
  | .listing, .raised _ => some (s.setPoint cycle .sleeping)
  | .searching monitor rest, .found posts rateLimited =>
    some (s.setPoint cycle (nextInSearch ⟨monitor, posts, rateLimited⟩ rest))
  | .searching monitor rest, .budget => some (s.setPoint cycle (.marking monitor "budget" rest))
  | .searching monitor rest, .raised _ => some (s.setPoint cycle (.marking monitor "error" rest))
  | .inserting post search rest, .done =>
    s.answerInsert cycle post search true (s.insertedPoint post search rest)
  | .inserting post search rest, .raised committed =>
    s.answerInsert cycle post search committed (.marking search.monitor "error" rest)
  | .notifying post search rest, .notified sent delivered =>
    if sent && !delivered then none
    else
      let t := if delivered then { s with alerts := (search.monitor, post) :: s.alerts } else s
      some (t.setPoint cycle (.recording (search.monitor.id, post.url) sent search rest))
  | .notifying post search rest, .raised delivered =>
    let t := if delivered then { s with alerts := (search.monitor, post) :: s.alerts } else s
    some (t.setPoint cycle (.marking search.monitor "error" rest))
  | .recording key sent search rest, .done =>
    some ((s.setHitNotified key sent).setPoint cycle (nextInSearch search rest))
  | .recording key sent search rest, .raised committed =>
    some ((if committed then s.setHitNotified key sent else s).setPoint cycle
      (.marking search.monitor "error" rest))
  | .marking monitor status rest, .done =>
    some ((s.markRun monitor.id status now).setPoint cycle (nextMonitor rest))
  | .marking monitor status rest, .raised committed =>
    some ((if committed then s.markRun monitor.id status now else s).setPoint cycle
      (nextMonitor rest))
  | _, _ => none

end State

def machine : Machine State Action where
  step s
    | .start => some { s with cycles := s.cycles ++ [.sleeping] }
    | .tick cycle =>
      s.cycles[cycle]?.bind fun point =>
        match point with
        | .sleeping => some (s.setPoint cycle .listing)
        | _ => none
    | .stop cycle => some (s.setPoint cycle .sleeping)
    | .answer cycle now answer => s.cycles[cycle]?.bind fun point => s.answer cycle now point answer
    | .create monitor =>
      if monitor.id ∈ s.ids then none
      else some { s with monitors := s.monitors.put monitor, ids := monitor.id :: s.ids }
    | .update monitor =>
      (s.monitors.find monitor.id).map fun row => s.updateMonitor row monitor
    | .delete id => some (s.deleteMonitor id)

def start : State := {}

end NeuralHub.XMonitor
