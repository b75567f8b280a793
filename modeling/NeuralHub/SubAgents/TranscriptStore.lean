/-
NeuralHub.SubAgents.TranscriptStore — the transcripts of the last runs.

`SubAgentTranscriptStore` keeps what the sub-agents of the latest runs
said, for a reader that opens one of them. A run is written by three
calls, `record_spawned`, `record_entry` and `record_done`; each of them
makes its run the last one of the ordered dictionary, and the first ones
leave it when there are more than `max_runs`.

A method of the source changes the run that it got from `_touch_run` in
place. Here the changed run is written at the end of the table. With
`max_runs = 0` the run has left the dictionary when it is changed, and
so it has here.
-/
import NeuralHub.Lib.Recency

namespace NeuralHub.SubAgents

open NeuralHub.Lib (Table)

/-! ## Transcripts -/

inductive AgentStatus
  | pending | running | done | failed | skipped
deriving DecidableEq, Repr

structure TranscriptEntry (Time : Type) where
  kind : String
  content : String
  isError : Bool
  ts : Time
deriving DecidableEq, Repr

structure AgentTranscript (Time : Type) where
  role : String
  stage : Option Int
  status : AgentStatus := .pending
  error : String := ""
  dropped : Nat := 0
  startedAt : Time
  updatedAt : Time
  entries : List (TranscriptEntry Time) := []
deriving DecidableEq, Repr

variable {Time : Type}

/-- `agents` is the dictionary of the source, keyed by the role of the agent. -/
structure RunTranscript (Time : Type) where
  runId : String
  source : String
  message : String := ""
  startedAt : Time
  updatedAt : Time
  agents : Table (@AgentTranscript.role Time) := .empty
  order : List String := []

structure RunSummary (Time : Type) where
  runId : String
  source : String
  message : String
  startedAt : Time
  updatedAt : Time
  roles : List String
deriving DecidableEq, Repr

/-- The arguments of the constructor of the store. -/
structure TranscriptLimits where
  maxRuns : Nat := 40
  maxEntries : Nat := 120
  maxChars : Int := 6000

/-- `value[:stop]`. -/
def upTo (stop : Int) (value : List Char) : List Char :=
  if 0 ≤ stop then value.take stop.toNat else value.take (value.length - (-stop).toNat)

def clipContent (value : String) (limit : Int) : String :=
  if (value.length : Int) ≤ limit then value
  else String.ofList (upTo (limit - 1) value.toList) ++ "…"

/-! ## The calls -/

/-- A call and the time at which it is made. The `content` of an entry is the
text that `str` makes of the argument. -/
inductive TranscriptCall (Time : Type)
  | spawned (now : Time) (runId source : String) (roles : List String) (stage : Option Int)
      (message : String)
  | entry (now : Time) (runId source role kind content : String) (stage : Option Int)
      (isError : Bool)
  | done (now : Time) (runId source role : String) (stage : Option Int) (error : String)
      (skipped : Bool)
deriving DecidableEq, Repr

namespace TranscriptCall

def now : TranscriptCall Time → Time
  | spawned now .. | entry now .. | done now .. => now

def runId : TranscriptCall Time → String
  | spawned _ runId .. | entry _ runId .. | done _ runId .. => runId

def source : TranscriptCall Time → String
  | spawned _ _ source .. | entry _ _ source .. | done _ _ source .. => source

end TranscriptCall

/-! ## Writing -/

/-- The agent that `_touch_agent` returns. -/
def RunTranscript.agent (run : RunTranscript Time) (role : String) (stage : Option Int) :
    AgentTranscript Time :=
  let agent := (run.agents.find role).getD
    { role := role, stage := stage, startedAt := run.updatedAt, updatedAt := run.updatedAt }
  let agent :=
    if stage.isSome ∧ agent.stage.isNone then { agent with stage := stage } else agent
  { agent with updatedAt := run.updatedAt }

/-- `_touch_agent`, and the change that the caller makes to the agent it returns. -/
def RunTranscript.touchAgent (run : RunTranscript Time) (role : String) (stage : Option Int)
    (change : AgentTranscript Time → AgentTranscript Time) : RunTranscript Time :=
  { run with
    agents := run.agents.put (change (run.agent role stage))
    order := if (run.agents.find role).isSome then run.order else run.order ++ [role] }

/-- An agent that has not started yet is running. -/
def AgentTranscript.start (agent : AgentTranscript Time) : AgentTranscript Time :=
  if agent.status = .pending then { agent with status := .running } else agent

def AgentTranscript.appendEntry (agent : AgentTranscript Time) (entry : TranscriptEntry Time)
    (maxEntries : Nat) : AgentTranscript Time :=
  let entries := agent.entries ++ [entry]
  if maxEntries < entries.length then
    { agent with entries := entries.tail, dropped := agent.dropped + 1 }
  else { agent with entries := entries }

def statusOf (error : String) (skipped : Bool) : AgentStatus :=
  if skipped then .skipped else if error ≠ "" then .failed else .done

/-- What a call does to the run that `_touch_run` returned. -/
def TranscriptCall.write (limits : TranscriptLimits) (run : RunTranscript Time) :
    TranscriptCall Time → RunTranscript Time
  | .spawned _ _ source roles stage message =>
      let run := if message ≠ "" ∧ stage.isNone then { run with message := message } else run
      -- the event of the whole orchestration only announces the roles
      roles.foldl (fun run role => run.touchAgent role stage fun agent =>
        if stage.isSome ∨ source ≠ "orchestrate" then agent.start else agent) run
  | .entry _ _ _ role kind content stage isError =>
      let entry := ⟨kind, clipContent content limits.maxChars, isError, run.updatedAt⟩
      run.touchAgent role stage fun agent => agent.start.appendEntry entry limits.maxEntries
  | .done _ _ _ role stage error skipped =>
      run.touchAgent role stage fun agent => { agent with
        status := statusOf error skipped
        error := if error ≠ "" then clipContent error limits.maxChars else "" }

/-! ## The store -/

abbrev TranscriptStore (Time : Type) := Table (@RunTranscript.runId Time)

namespace TranscriptStore

variable (limits : TranscriptLimits) (store : TranscriptStore Time)

/-- The run that `_touch_run` makes the last one. -/
def touched (call : TranscriptCall Time) : RunTranscript Time :=
  let run := (store.find call.runId).getD
    { runId := call.runId, source := call.source, startedAt := call.now, updatedAt := call.now }
  { run with updatedAt := call.now }

/-- One of the three methods. -/
def record (call : TranscriptCall Time) : TranscriptStore Time :=
  (store.putLast (call.write limits (touched store call))).keepLast limits.maxRuns

/-- The store after some calls, from the empty one. -/
def recordAll (calls : List (TranscriptCall Time)) : TranscriptStore Time :=
  calls.foldl (record limits) .empty

def getRun (runId : String) : Option (RunTranscript Time) := store.find runId

def getAgent (runId role : String) : Option (AgentTranscript Time) :=
  (getRun store runId).bind fun run => run.agents.find role

def listRuns : List (RunSummary Time) :=
  store.entries.reverse.map fun run =>
    ⟨run.runId, run.source, run.message, run.startedAt, run.updatedAt, run.order⟩

end TranscriptStore

end NeuralHub.SubAgents
