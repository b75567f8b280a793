/-
NeuralHub.SubAgents.SpawnDag — `run_prepared_tasks`: the tasks of one
`spawn_agent` call, stage by stage, through the task queue.

A stage is one step. What it is told from outside is `StageAnswers`: the
earlier children of the parent task, how the submission ends, and how the
waiting ends, with the status of each task that it waited for or none, where the task
has disappeared. From these the step sorts the stage into blocked, reused and
submitted tasks and records their statuses. An exception ends the run; its
kind is kept (`Raised`), its text is that of the `SpawnAgentDagError`.

`sha16` (the digest of a reuse key) and `strDict` (the text of a dict in an
f-string) are parameters. `submitted` is kept for the statements.
-/
import NeuralHub.Lib.Fallible
import NeuralHub.Lib.Json
import NeuralHub.Lib.Machine
import NeuralHub.Lib.Table
import NeuralHub.Lib.Text
import NeuralHub.SubAgents.Stages
import NeuralHub.TaskQueue.Types

namespace NeuralHub.SubAgents.Spawn

open NeuralHub.Lib
open NeuralHub.TaskQueue (TaskStatus)

/-! ## Tasks and statuses -/

structure DependencySummary where
  taskId : String
  status : String
  error : String
  content : String
  agentResult : Option Json
  deriving DecidableEq, Repr

/-- `input_data`, as `prepare_tasks` builds it; the two numbers as `str` shows them. -/
structure SpawnInput where
  specId : String := ""
  role : String := ""
  template : String := ""
  systemPrompt : String := ""
  tools : List String := []
  input : String := ""
  permission : String := ""
  noCache : Bool := false
  maxIterations : String := ""
  maxIterationsCap : String := ""
  model : String := ""
  provider : String := ""
  workspace : String := ""
  parentTaskId : String := ""
  dependencyResults : List (String × DependencySummary) := []
  deriving DecidableEq, Repr

structure SpawnResult where
  content : String := ""
  agentResult : Option Json := none
  deriving DecidableEq, Repr

/-- The fields of a `TaskPayload` that the tool reads or writes. -/
structure ChildPayload where
  taskId : String
  inputData : SpawnInput
  parentTaskId : String := ""
  status : TaskStatus
  createdAt : Int
  result : Option SpawnResult := none
  error : String := ""
  deriving DecidableEq, Repr

abbrev Prepared := PreparedTask SpawnInput

structure Environment where
  sha16 : List Char → String
  strDict : List (String × DependencySummary) → String
  reuseTtlSeconds : Int

variable (env : Environment)

/-! ## Reuse of earlier children -/

def realtimeToolNames : List (List Char) :=
  ["lingxi_realtime_marketdata", "lingxi_ranklist", "proxy_status", "proxy_test"].map String.toList

def cacheDisabled (data : SpawnInput) : Bool :=
  data.noCache || data.tools.any fun tool =>
    Text.lower (Text.strip tool.toList) ∈ realtimeToolNames

def jsonObject (members : List (String × Json)) : Json :=
  .obj (members.foldr (fun member rest => .cons member.1 member.2 rest) .nil)

def jsonStrings (texts : List String) : Json :=
  .arr (texts.foldr (fun text rest => .cons (.str text) rest) .nil)

def reuseKey (data : SpawnInput) : String :=
  env.sha16 (jsonObject
    [("spec_id", .str data.specId), ("role", .str data.role), ("template", .str data.template),
      ("input", .str data.input),
      ("tools", jsonStrings ((data.tools.filter (· ≠ "")).insertionSort (· ≤ ·))),
      ("max_iterations", .str data.maxIterations),
      ("max_iterations_cap", .str data.maxIterationsCap), ("model", .str data.model),
      ("provider", .str data.provider), ("system_prompt", .str data.systemPrompt),
      ("workspace", .str data.workspace), ("permission", .str data.permission)]).dumps

def isReusable (now : Int) (status : ChildPayload) : Bool :=
  status.status = .succeeded && !cacheDisabled status.inputData &&
    !decide (env.reuseTtlSeconds < now - status.createdAt) && reuseKey env status.inputData ≠ ""

/-- `_group_reusable`; the lists by key are kept as one list, in their order. -/
def groupReusable (now : Int) (statuses : List ChildPayload) : List ChildPayload :=
  if env.reuseTtlSeconds ≤ 0 then [] else statuses.filter (isReusable env now)

/-- The child that is taken for a task, if there is one. -/
def takeReusable (reusable : List ChildPayload) (item : Prepared) : Option ChildPayload :=
  if cacheDisabled item.inputData then none
  else reusable.find? fun status => reuseKey env status.inputData = reuseKey env item.inputData

structure ReuseSplit where
  finalPrepared : List Prepared := []
  reusedStatuses : List ChildPayload := []
  toSubmit : List Prepared := []
  deriving DecidableEq, Repr

def splitReusedTasks : List ChildPayload → List Prepared → ReuseSplit
  | _, [] => {}
  | reusable, item :: rest =>
    match takeReusable env reusable item with
    | none =>
      let split := splitReusedTasks reusable rest
      { split with
        finalPrepared := item :: split.finalPrepared
        toSubmit := item :: split.toSubmit }
    | some status =>
      let split := splitReusedTasks (reusable.erase status) rest
      { split with
        finalPrepared := { item with taskId := status.taskId } :: split.finalPrepared
        reusedStatuses := status :: split.reusedStatuses }

/-! ## Dependencies -/

/-- Why a run ends. -/
inductive Raised where
  | reuse (message : String)
  | submit (message : String)
  | wait (message : String)
  | key (dep : String)
  deriving DecidableEq, Repr

/-- A submission or wait error. -/
def Raised.fromQueue : Raised → Bool
  | .submit _ => true
  | .wait _ => true
  | .reuse _ => false
  | .key _ => false

/-- Statuses by DAG id. -/
abbrev Statuses := Table (Prod.fst : String × ChildPayload → String)

/-- `statuses_by_id[dep]`, or the `KeyError`. -/
def readStatus (statusesById : Statuses) (dep : String) : Except Raised (String × ChildPayload) :=
  match statusesById.find dep with
  | some entry => .ok entry
  | none => .error (.key dep)

def blockedPayload (item : Prepared) (failed : List String) (now : Int) : ChildPayload where
  taskId := item.taskId
  inputData := item.inputData
  parentTaskId := item.inputData.parentTaskId
  status := .failed
  createdAt := now
  error := "依赖任务失败，已阻塞: " ++ String.intercalate ", " failed

/-- The status of a blocked task; `none` for one that is run. -/
def blockedStatus (now : Int) (statusesById : Statuses) (item : Prepared) :
    Except Raised (Option ChildPayload) :=
  (item.dependsOn.mapM (readStatus statusesById)).map fun entries =>
    let failed := (entries.filter fun entry => entry.2.status ≠ .succeeded).map Prod.fst
    if failed ≠ [] ∧ item.onDepFailure = .block then some (blockedPayload item failed now)
    else none

def statusValue : TaskStatus → String
  | .pending => "pending"
  | .running => "running"
  | .succeeded => "succeeded"
  | .failed => "failed"

def dependencySummary (status : ChildPayload) : DependencySummary where
  taskId := status.taskId
  status := statusValue status.status
  error := status.error
  content := (status.result.map SpawnResult.content).getD ""
  agentResult := status.result.bind SpawnResult.agentResult

def withDependencyInput (statusesById : Statuses) (item : Prepared) : Except Raised Prepared :=
  if item.dependsOn = [] then .ok item
  else (item.dependsOn.eraseDups.mapM (readStatus statusesById)).map fun entries =>
    let dependencyResults := entries.map fun entry => (entry.1, dependencySummary entry.2)
    { item with inputData := { item.inputData with
        dependencyResults := dependencyResults
        input := item.inputData.input ++ "\n\n依赖任务结果：\n" ++ env.strDict dependencyResults } }

/-! ## A stage -/

/-- How a task stands when the waiting ends. -/
structure Ending where
  status : TaskStatus
  result : Option SpawnResult := none
  error : String := ""
  deriving DecidableEq, Repr

structure StageAnswers where
  children : Except String (List ChildPayload)
  now : Int
  submit : Except String Unit
  wait : Except String (String → Option Ending)

structure DagContext where
  rest : List (List Prepared)
  finalPrepared : List Prepared := []
  statusesById : Statuses := Table.empty
  allStatuses : List ChildPayload := []
  reusedStatuses : List ChildPayload := []
  submitted : List Prepared := []
  raised : Option Raised := none

structure StageSplit where
  blocked : List (Prepared × ChildPayload)
  reuse : ReuseSplit
  deriving DecidableEq, Repr

/-- What a stage does before it submits. -/
def splitStage (statusesById : Statuses) (stage : List Prepared) (answers : StageAnswers) :
    Except Raised StageSplit := do
  let sorted ← stage.mapM fun item =>
    (blockedStatus answers.now statusesById item).map fun status => (item, status)
  let blocked := sorted.filterMap fun entry => entry.2.map fun status => (entry.1, status)
  let runnable := (sorted.filter fun entry => entry.2.isNone).map Prod.fst
  let runnable ← runnable.mapM (withDependencyInput env statusesById)
  match answers.children with
  | .error message => .error (.reuse message)
  | .ok children =>
    return ⟨blocked, splitReusedTasks env (groupReusable env answers.now children) runnable⟩

/-- The payload of a task that was waited for. -/
def waitedPayload (now : Int) (item : Prepared) (ending : Ending) : ChildPayload where
  taskId := item.taskId
  inputData := item.inputData
  parentTaskId := item.inputData.parentTaskId
  status := ending.status
  createdAt := now
  result := ending.result
  error := ending.error

/-- `wait_for_prepared_tasks`: a task that has disappeared has no status. -/
def waitForPreparedTasks (answers : StageAnswers) (toSubmit : List Prepared) :
    Except String (List ChildPayload) :=
  if toSubmit = [] then .ok []
  else answers.wait.map fun endings => toSubmit.filterMap fun item =>
    (endings item.taskId).map (waitedPayload answers.now item)

/-- `status_by_task_id.get`: of two statuses with one id the later one. -/
def statusByTaskId (statuses : List ChildPayload) (taskId : String) : Option ChildPayload :=
  statuses.reverse.find? fun status => status.taskId = taskId

def recordStatus (statuses : List ChildPayload) (s : DagContext) (item : Prepared) : DagContext :=
  match statusByTaskId statuses item.taskId with
  | some status =>
    { s with
      statusesById := s.statusesById.put (item.dagId, status)
      allStatuses := s.allStatuses ++ [status] }
  | none => s

/-- What is recorded of a stage that comes to its end. -/
def recordStage (s : DagContext) (rest : List (List Prepared)) (split : StageSplit)
    (waited : List ChildPayload) : DagContext :=
  let prepared := split.blocked.map Prod.fst ++ split.reuse.finalPrepared
  let statuses := split.blocked.map Prod.snd ++ split.reuse.reusedStatuses ++ waited
  prepared.foldl (recordStatus statuses)
    { s with
      rest := rest
      finalPrepared := s.finalPrepared ++ prepared
      reusedStatuses := s.reusedStatuses ++ split.reuse.reusedStatuses }

/-- The children are rows of their own, and none has an id that was made for a task that is still
to come. -/
def StageAnswers.Fresh (answers : StageAnswers) (coming : List Prepared) : Prop :=
  ∀ children, answers.children = .ok children →
    (children.map ChildPayload.taskId).Nodup ∧
      ∀ child ∈ children, child.taskId ∉ coming.map PreparedTask.taskId

instance (answers : StageAnswers) (coming : List Prepared) : Decidable (answers.Fresh coming) := by
  unfold StageAnswers.Fresh
  infer_instance

def runStage (s : DagContext) (stage : List Prepared) (rest : List (List Prepared))
    (answers : StageAnswers) : DagContext :=
  match splitStage env s.statusesById stage answers with
  | .error raised => { s with raised := some raised }
  | .ok split =>
    let s := { s with submitted := s.submitted ++ split.reuse.toSubmit }
    match answers.submit with
    | .error message => { s with raised := some (.submit message) }
    | .ok () =>
      match waitForPreparedTasks answers split.reuse.toSubmit with
      | .error message => { s with raised := some (.wait message) }
      | .ok waited => recordStage s rest split waited

def step (s : DagContext) (answers : StageAnswers) : Option DagContext :=
  match s.raised, s.rest with
  | none, stage :: rest =>
    if answers.Fresh (stage ++ rest.flatten) then some (runStage env s stage rest answers) else none
  | _, _ => none

def machine : Machine DagContext StageAnswers := ⟨step env⟩

structure DagRunResult where
  prepared : List Prepared
  statuses : List ChildPayload
  reusedStatuses : List ChildPayload
  deriving DecidableEq, Repr

/-- What `run_prepared_tasks` returns when the stages are through. -/
def DagContext.result (s : DagContext) : DagRunResult where
  prepared := s.finalPrepared.insertionSort fun a b => a.index ≤ b.index
  statuses := s.allStatuses
  reusedStatuses := s.reusedStatuses

end NeuralHub.SubAgents.Spawn
