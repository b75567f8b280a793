/-
NeuralHub.WebSocket.Endpoint — the messages of `/ws/{session_id}` and the
runs they start: `websocket.py`.

Every connection has a handler, and a handler can be interrupted where it
awaits; a `Point` says where. An action is what happens next in the event
loop: a handler goes on behind an await, whose `Outcome` is up to what is
awaited, or a run task ends, or its done callbacks run, which is later, or
the session is deleted over HTTP, which awaits the saving of the messages
of its loop. What one action does is not interrupted.

Of the agents the state has who they are; `calls` is what was called on
them. A settings value is an `Option`, none where `parse_loop_settings`
raises. The bridge of a loop is synchronized in front of every run, which
need not take any time (`Point.ready`).
-/
import NeuralHub.Lib.Machine
import NeuralHub.WebSocket.LoopCache

namespace NeuralHub.WebSocket

open NeuralHub.Lib

/-- A `PlanExecuteRunner`, by its identity. -/
abbrev RunnerId := Nat

inductive Agent
  | loop (loop : LoopId)
  | runner (runner : RunnerId)
  deriving DecidableEq

inductive RunStatus
  | running
  /-- the callbacks of the task are still to run -/
  | done
  | settled
  deriving DecidableEq

/-- A task of `run_loop`, `run_plan_loop` or `run_plan_resume_loop`. -/
structure RunTask where
  session : String
  agent : Agent
  /-- its callback ends with `_evict_if_idle` -/
  evicts : Bool
  status : RunStatus := .running
  deriving DecidableEq

inductive Message
  | run (text : String) (settings : Option LoopSettings)
  | planApprove
  | planReject (reason : String)
  | planResume (settings : Option LoopSettings)
  | planDiscard
  /-- `tool_approve` and `tool_reject`; `pending` says which agents wait for this decision -/
  | toolDecision (toolCallId : String) (approved : Bool) (pending : Agent → Bool)
  | planCancel
  | abort
  | unsupported

inductive Call
  | queueUserMessage (loop : LoopId) (text : String)
  | abortLoop (loop : LoopId)
  | approvePlan (runner : RunnerId)
  | rejectPlan (runner : RunnerId) (reason : String)
  | decideTool (agent : Agent) (toolCallId : String) (approved : Bool)
  | cancelRunner (runner : RunnerId)
  | cancelTask (task : Nat)
  deriving DecidableEq

/-- What a handler awaits. -/
inductive Point
  /-- `_send_resume_available`, in front of the `try` -/
  | resuming
  | receiving
  /-- what is sent to the clients at the end of a message -/
  | replying
  /-- the error that is sent in the `except` branch -/
  | failing
  | resolving (loop : Option LoopId) (settings : LoopSettings) (text : String)
  | preparing (loop : Option LoopId) (settings : LoopSettings)
  | syncing (loop : LoopId) (settings : LoopSettings)
  | creatingLoop (settings : LoopSettings)
  | evicting (victim : LoopId) (victims : List LoopId) (loop : LoopId)
  | ready (loop : LoopId)
  | creatingRunner
  | resolvingResume (settings : LoopSettings)
  | creatingResume
  /-- the messages that are saved in `disconnect` -/
  | leaving (loop : LoopId)
  | closed

inductive Outcome
  | done
  | raised
  /-- a `WebSocketDisconnect`, from a send -/
  | disconnected
  /-- the default provider, and whether a checkpoint of the session is incomplete -/
  | resolved (provider : Option String) (incomplete : Bool)
  | prepared (emptyReply : Bool)
  /-- a new loop or runner -/
  | created (id : Nat)
  | noCheckpoint

structure Connection where
  session : String
  point : Point := .resuming

structure State where
  connections : Dict (List Nat) := Dict.nil
  planRunners : Dict RunnerId := Dict.nil
  tasks : Dict Nat := Dict.nil
  cache : LoopCache := {}
  /-- the handlers, those that ended included -/
  sockets : List Connection := []
  /-- the tasks, in the order they were created -/
  runs : List RunTask := []
  /-- the loops whose messages are being saved in `clear_session` -/
  clearing : List (String × LoopId) := []
  calls : List Call := []

namespace State

def isBusy (s : State) (session : String) : Bool :=
  (s.tasks.get session).any fun task => s.runs[task]?.any (·.status = .running)

def goTo (s : State) (ws : Nat) (point : Point) : State :=
  { s with sockets := s.sockets.modify ws fun connection => { connection with point } }

def call (s : State) (calls : List Call) : State := { s with calls := s.calls ++ calls }

/-- `get_loop` makes the session the one used last. -/
def touch (s : State) (session : String) : State := { s with cache := (s.cache.get session).2 }

/-- Discard a socket, and the set if it is empty then. -/
def discard (s : State) (session : String) (ws : Nat) : State :=
  match s.connections.get session with
  | none => s
  | some sockets =>
    let rest := sockets.filter (· ≠ ws)
    if rest = [] then { s with connections := s.connections.remove session }
    else { s with connections := s.connections.set session rest }

def connect (s : State) (session : String) : State :=
  let sockets := (s.connections.get session).getD []
  { s with
    connections := s.connections.set session (sockets ++ [s.sockets.length])
    sockets := s.sockets ++ [{ session }] }

/-- `create_task`, and the task in `_tasks`. -/
def start (s : State) (session : String) (agent : Agent) (evicts : Bool) : State :=
  { s with
    runs := s.runs ++ [{ session, agent, evicts }]
    tasks := s.tasks.set session s.runs.length }

def startPlan (s : State) (session : String) (runner : RunnerId) (evicts : Bool) : State :=
  start { s with planRunners := s.planRunners.set session runner } session (.runner runner) evicts

/-- The loop of a session leaves the cache and is aborted. -/
def drop (s : State) (session : String) (loop : LoopId) : State :=
  { s with cache := s.cache.pop session }.call [.abortLoop loop]

def evictIfIdle (s : State) (session : String) : State :=
  if (s.connections.get session).isSome ∨ s.isBusy session = true then s
  else
    match s.cache.loops.get session with
    | some loop => s.drop session loop
    | none => { s with cache := s.cache.pop session }

/-! ## `disconnect` -/

/-- The part in front of the await. -/
def leave (s : State) (ws : Nat) (session : String) : State :=
  let s := s.discard session ws
  match s.cache.loops.get session with
  | some loop => s.goTo ws (.leaving loop)
  | none => s.goTo ws .closed

/-- The part behind it; that the messages were not saved is only logged. -/
def left (s : State) (ws : Nat) (session : String) (loop : LoopId) : State :=
  let s := s.goTo ws .closed
  if s.connections.get session = none ∧ s.isBusy session = false then s.drop session loop else s

/-! ## `clear_session` -/

/-- The part behind the await, but for the loop. -/
def clear (s : State) (session : String) : State :=
  let runner := (s.planRunners.get session).toList.map Call.cancelRunner
  let task := if s.isBusy session then (s.tasks.get session).toList.map Call.cancelTask else []
  { s with
    planRunners := s.planRunners.remove session
    cache := { s.cache with settings := s.cache.settings.remove session }
    tasks := s.tasks.remove session
    connections := s.connections.remove session }.call (runner ++ task)

/-- The loop goes in front of the await; its settings stay. -/
def clearSession (s : State) (session : String) : State :=
  match s.cache.loops.get session with
  | some loop =>
    { s with
      cache := { s.cache with loops := s.cache.loops.remove session }
      clearing := (session, loop) :: s.clearing }
  | none => s.clear session

/-- Behind the await; nothing more happens if the messages were not saved. -/
def cleared (s : State) (session : String) (loop : LoopId) (saved : Bool) : Option State :=
  if (session, loop) ∈ s.clearing then
    let s := { s with clearing := s.clearing.erase (session, loop) }
    some (if saved then (s.call [.abortLoop loop]).clear session else s)
  else none

/-! ## A message -/

/-- `run`, up to the first await. -/
def receiveRun (s : State) (ws : Nat) (session text : String)
    (settings : Option LoopSettings) : State :=
  if s.isBusy session then
    match s.cache.loops.get session, s.planRunners.get session with
    | some loop, none =>
      if text ≠ "" then (s.call [.queueUserMessage loop text]).goTo ws .replying
      else s.goTo ws .replying
    | _, _ => s.goTo ws .replying
  else
    match settings with
    | none => (s.touch session).goTo ws .failing
    | some settings =>
      (s.touch session).goTo ws (.resolving (s.cache.get session).1 settings text)

/-- `_resolve_tool_approval`, and an error if nobody waits for the decision. -/
def decideTool (s : State) (ws : Nat) (session toolCallId : String) (approved : Bool)
    (pending : Agent → Bool) : State :=
  if toolCallId = "" then s.goTo ws .replying
  else
    let calls := fun agents : List Agent =>
      agents.map fun agent => Call.decideTool agent toolCallId approved
    let loop := (s.cache.get session).1.toList.map Agent.loop
    let runner := (s.planRunners.get session).toList.map Agent.runner
    let s := s.touch session
    if loop.any pending then s.call (calls loop)
    else if runner.any pending then s.call (calls (loop ++ runner))
    else (s.call (calls (loop ++ runner))).goTo ws .replying

def receiveAbort (s : State) (ws : Nat) (session : String) : State :=
  let loop := (s.cache.get session).1.toList.map Call.abortLoop
  let runner := (s.planRunners.get session).toList.map Call.cancelRunner
  let task := if s.isBusy session then (s.tasks.get session).toList.map Call.cancelTask else []
  let s := s.touch session
  ({ s with planRunners := s.planRunners.remove session }.call (loop ++ runner ++ task)).goTo ws
    .replying

def receive (s : State) (ws : Nat) (session : String) : Message → State
  | .run text settings => s.receiveRun ws session text settings
  | .planApprove =>
    match s.planRunners.get session with
    | none => s.goTo ws .replying
    | some runner => s.call [.approvePlan runner]
  | .planReject reason =>
    match s.planRunners.get session with
    | none => s.goTo ws .replying
    | some runner => s.call [.rejectPlan runner reason]
  | .planResume settings =>
    if (s.planRunners.get session).isSome then s.goTo ws .replying
    else
      match settings with
      | none => s.goTo ws .failing
      | some settings => s.goTo ws (.resolvingResume settings)
  | .planDiscard => s.goTo ws .replying
  | .toolDecision toolCallId approved pending => s.decideTool ws session toolCallId approved pending
  | .planCancel =>
    (s.call ((s.planRunners.get session).toList.map Call.cancelRunner)).goTo ws .replying
  | .abort => s.receiveAbort ws session
  | .unsupported => s.goTo ws .replying

/-! ## Behind an await -/

/-- `resolve_loop_settings`. -/
def resolveLoopSettings (settings : LoopSettings) (provider : Option String) : LoopSettings :=
  if settings.specId ≠ "" ∨ settings.providerId.isSome then settings
  else { settings with providerId := provider }

/-- Behind `resolve_loop_settings`. -/
def resolved (s : State) (ws : Nat) (session : String) (loop : Option LoopId)
    (settings : LoopSettings) (text : String) (incomplete : Bool) : State :=
  let empty : Prop := text = "" ∧ settings.specId = ""
  if settings.mode = "plan_execute" then
    if (s.planRunners.get session).isSome ∨ incomplete = true ∨ empty then s.goTo ws .replying
    else s.goTo ws .creatingRunner
  else if empty ∨ (s.planRunners.get session).isSome then s.goTo ws .replying
  else s.goTo ws (.preparing loop settings)

/-- Behind `prepare_knowledge_run`: the loop is used again if it has the same settings. -/
def prepared (s : State) (ws : Nat) (session : String) (loop : Option LoopId)
    (settings : LoopSettings) : State :=
  match loop with
  | none => s.goTo ws (.creatingLoop settings)
  | some loop =>
    if s.cache.settings.get session = some settings then s.goTo ws (.ready loop)
    else s.goTo ws (.syncing loop settings)

/-- `store_loop`, up to the await for the first evicted loop. -/
def storeLoop (s : State) (ws : Nat) (session : String) (loop : LoopId)
    (settings : LoopSettings) : State :=
  let stored := s.cache.store s.isBusy session loop settings
  let s := { s with cache := stored.1 }
  match stored.2.map Prod.snd with
  | [] => s.goTo ws (.ready loop)
  | victim :: victims => s.goTo ws (.evicting victim victims loop)

/-- No run has this loop or runner. -/
def isNew (s : State) (agent : Agent) : Bool := s.runs.all (·.agent ≠ agent)

/-- A handler goes on; `none` if this is not an outcome of what it awaits. -/
def awaited (s : State) (ws : Nat) (session : String) : Point → Outcome → Option State
  | .resuming, .done => some (s.goTo ws .receiving)
  -- the handler ends without `disconnect`
  | .resuming, .raised => some (s.goTo ws .closed)
  | .receiving, .raised => some (s.goTo ws .failing)
  | .receiving, .disconnected => some (s.leave ws session)
  | .replying, .done => some (s.goTo ws .receiving)
  | .replying, .raised => some (s.goTo ws .failing)
  | .replying, .disconnected => some (s.leave ws session)
  | .failing, .done => some (s.leave ws session)
  | .failing, .raised => some (s.leave ws session)
  | .resolving loop settings text, .resolved provider incomplete =>
    some (s.resolved ws session loop (resolveLoopSettings settings provider) text incomplete)
  | .resolving _ _ _, .raised => some (s.goTo ws .failing)
  | .preparing _ _, .prepared true => some (s.goTo ws .replying)
  | .preparing loop settings, .prepared false => some (s.prepared ws session loop settings)
  | .preparing _ _, .raised => some (s.goTo ws .failing)
  | .syncing loop settings, .done =>
    some ((s.call [.abortLoop loop]).goTo ws (.creatingLoop settings))
  | .syncing _ _, .raised => some (s.goTo ws .failing)
  | .creatingLoop settings, .created id =>
    if s.isNew (.loop id) then some (s.storeLoop ws session id settings) else none
  | .creatingLoop _, .raised => some (s.goTo ws .failing)
  -- that the messages of the victim were not saved is only logged
  | .evicting victim victims loop, .done =>
    let s := s.call [.abortLoop victim]
    match victims with
    | [] => some (s.goTo ws (.ready loop))
    | next :: rest => some (s.goTo ws (.evicting next rest loop))
  | .ready loop, .done => some ((s.start session (.loop loop) true).goTo ws .receiving)
  | .ready _, .raised => some (s.goTo ws .failing)
  | .creatingRunner, .created id =>
    if s.isNew (.runner id) then some ((s.startPlan session id false).goTo ws .receiving) else none
  | .creatingRunner, .raised => some (s.goTo ws .replying)
  | .resolvingResume _, .resolved _ _ => some (s.goTo ws .creatingResume)
  | .resolvingResume _, .raised => some (s.goTo ws .failing)
  | .creatingResume, .created id =>
    if s.isNew (.runner id) then some ((s.startPlan session id true).goTo ws .receiving) else none
  | .creatingResume, .noCheckpoint => some (s.goTo ws .replying)
  | .creatingResume, .raised => some (s.goTo ws .replying)
  | .leaving loop, .done => some (s.left ws session loop)
  | _, _ => none

/-! ## The tasks -/

/-- The callbacks of a task that is done: they go by its session. -/
def callback (s : State) (run : RunTask) : State :=
  let s := { s with tasks := s.tasks.remove run.session }
  let s :=
    match run.agent with
    | .loop _ => s
    | .runner _ => { s with planRunners := s.planRunners.remove run.session }
  if run.evicts then s.evictIfIdle run.session else s

def setStatus (s : State) (task : Nat) (status : RunStatus) : State :=
  { s with runs := s.runs.modify task fun run => { run with status } }

end State

inductive Action
  | connect (session : String)
  | receive (ws : Nat) (message : Message)
  | awaited (ws : Nat) (outcome : Outcome)
  /-- a broadcast cannot send to the socket -/
  | sendFailed (ws : Nat)
  | finish (task : Nat)
  | callback (task : Nat)
  /-- a session is deleted, up to the await -/
  | clearSession (session : String)
  | cleared (session : String) (loop : LoopId) (saved : Bool)

def machine : Machine State Action where
  step s
    | .connect session => some (s.connect session)
    | .receive ws message =>
      s.sockets[ws]?.bind fun connection =>
        match connection.point with
        | .receiving => some (s.receive ws connection.session message)
        | _ => none
    | .awaited ws outcome =>
      s.sockets[ws]?.bind fun connection =>
        s.awaited ws connection.session connection.point outcome
    | .sendFailed ws => s.sockets[ws]?.map fun connection => s.discard connection.session ws
    | .finish task =>
      s.runs[task]?.bind fun run =>
        if run.status = .running then some (s.setStatus task .done) else none
    | .callback task =>
      s.runs[task]?.bind fun run =>
        if run.status = .done then some ((s.setStatus task .settled).callback run) else none
    | .clearSession session => some (s.clearSession session)
    | .cleared session loop saved => s.cleared session loop saved

def start : State := {}

end NeuralHub.WebSocket
