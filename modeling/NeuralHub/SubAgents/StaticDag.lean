/-
NeuralHub.SubAgents.StaticDag — `static_dag.py`: tasks with dependencies,
run stage by stage.

`StaticDagScheduler.run` is a machine. What it does between two awaits is
cut into small steps (`advance`): the next stage, the next task of the
stage, the start and the end of a `gather`. Within a `gather` the runner may
be invoked for the tasks in any order, and each invocation may end at any
time, with a result, an exception or the timeout of `asyncio.wait_for`.

`log` is kept for the statements about the order of what happens; no step
reads it. A lookup of a key that is not there raises (`raised`), as it does
in the source; that it never happens is a theorem.
-/
import NeuralHub.Lib.Machine
import NeuralHub.Lib.Table
import NeuralHub.SubAgents.Stages

namespace NeuralHub.SubAgents

open NeuralHub.Lib

/-! ## Tasks and results -/

structure TaskSpec where
  id : String
  role : String := ""
  input : String
  tools : List String := []
  permission : String := "readonly"
  dependsOn : List String := []
  onDepFailure : OnDepFailure := .block
  timeoutSeconds : Int := 300
  deriving DecidableEq, Repr

inductive ResultStatus where
  | passed
  | warning
  | failed
  | unparsed
  deriving DecidableEq, Repr

structure Finding where
  severity : String
  title : String
  evidence : List String := []
  recommendation : String := ""
  deriving DecidableEq, Repr

/-- `AgentResultV1`; of its `extra` the entry `blocked_by`, of a task that was not run. -/
structure AgentResult where
  status : ResultStatus
  summary : String
  findings : List Finding := []
  blockedBy : Option (List String) := none
  rawOutput : Option String := none
  deriving DecidableEq, Repr

/-- `status in {"failed", "unparsed"}`. -/
def AgentResult.isFailure (result : AgentResult) : Bool :=
  result.status = .failed || result.status = .unparsed

/-- Results by task. -/
abbrev Results := Table (Prod.fst : String × AgentResult → String)

/-- The `AgentTask` that stands for a task when stages are resolved. -/
def TaskSpec.agentTask (task : TaskSpec) : AgentTask where
  role := task.id
  task := task.input
  dependsOn := task.dependsOn

def resolveTaskStages (tasks : List TaskSpec) : Except String (List ResolvedStage) :=
  resolveStages (tasks.map TaskSpec.agentTask)

def failedResult (summary : String) : AgentResult where
  status := .failed
  summary := summary
  findings := [⟨"P1", "静态 DAG 子任务失败", [], ""⟩]

/-- The result of a task that is not run. -/
def blockedBy (task : TaskSpec) (failed : List String) : AgentResult where
  status := .failed
  summary := s!"任务 {task.id} 因依赖失败被阻塞: " ++ String.intercalate ", " failed
  findings :=
    [⟨"P1", "下游任务被阻塞", failed, "先修复失败依赖，或将 on_dep_failure 设为 proceed"⟩]
  blockedBy := some failed

/-- `previous_results[dep]`, or the `KeyError`. -/
def readResult (previousResults : Results) (dep : String) :
    Except String (String × AgentResult) :=
  match previousResults.find dep with
  | some entry => .ok entry
  | none => .error s!"'{dep}'"

/-- What is read for the dependencies of a task. -/
def dependencyPairs (task : TaskSpec) (previousResults : Results) :
    Except String (List (String × AgentResult)) :=
  task.dependsOn.mapM (readResult previousResults)

def blockedResult (task : TaskSpec) (previousResults : Results) :
    Except String (Option AgentResult) :=
  (dependencyPairs task previousResults).map fun pairs =>
    let failed := (pairs.filter fun entry => entry.2.isFailure).map Prod.fst
    if failed = [] ∨ task.onDepFailure = .proceed then none else some (blockedBy task failed)

/-- The `dependency_results` of the `TaskRunContext`. -/
def taskContext (task : TaskSpec) (previousResults : Results) : Except String Results :=
  (dependencyPairs task previousResults).map Table.empty.putAll

/-! ## The run -/

/-- How an invocation of the runner ends. -/
inductive Outcome where
  | result (result : AgentResult)
  | exception (text : String)
  | timeout
  deriving DecidableEq, Repr

def outcomeResult (id : String) : Outcome → AgentResult
  | .result result => result
  | .exception text => failedResult s!"任务 {id} 执行失败: {text}"
  | .timeout => failedResult s!"任务 {id} 执行超时"

inductive SlotState where
  | waiting
  | running
  | finished (result : AgentResult)
  deriving DecidableEq, Repr

/-- One of the coroutines of a `gather`. -/
structure Slot where
  task : TaskSpec
  state : SlotState
  deriving DecidableEq, Repr

def Slot.result? (slot : Slot) : Option (String × AgentResult) :=
  match slot.state with
  | .finished result => some (slot.task.id, result)
  | _ => none

inductive Phase where
  /-- at the head of the loop over the stages -/
  | between (rest : List ResolvedStage)
  /-- sorting the tasks of a stage into runnable and blocked ones -/
  | scanning (ids : List String) (runnable : List TaskSpec) (rest : List ResolvedStage)
  | gathering (slots : List Slot) (rest : List ResolvedStage)
  | returned
  | raised (message : String)
  deriving DecidableEq, Repr

inductive Event where
  | invoked (id : String) (context : Results)
  /-- the task has its result, of the runner or for being blocked -/
  | settled (id : String) (result : AgentResult)

structure DagRun where
  phase : Phase
  results : Results := Table.empty
  log : List Event := []

inductive Action where
  | advance
  | invoke (slot : Nat)
  | finish (slot : Nat) (outcome : Outcome)
  deriving DecidableEq, Repr

/-- `task_map[task_id]`. -/
def taskMap (tasks : List TaskSpec) (id : String) : Option TaskSpec :=
  tasks.find? fun task => task.id = id

/-- The next task of the stage: it is blocked or will be run. -/
def scan (tasks : List TaskSpec) (s : DagRun) (id : String) (ids : List String)
    (runnable : List TaskSpec) (rest : List ResolvedStage) : DagRun :=
  match taskMap tasks id with
  | none => { s with phase := .raised ("'" ++ id ++ "'") }
  | some task =>
    match blockedResult task s.results with
    | .error message => { s with phase := .raised message }
    | .ok none => { s with phase := .scanning ids (runnable ++ [task]) rest }
    | .ok (some result) =>
      { phase := .scanning ids runnable rest
        results := s.results.put (task.id, result)
        log := s.log ++ [.settled task.id result] }

def advance (tasks : List TaskSpec) (s : DagRun) : Option DagRun :=
  match s.phase with
  | .between [] => some { s with phase := .returned }
  | .between (stage :: rest) => some { s with phase := .scanning stage.taskRoles [] rest }
  | .scanning [] runnable rest =>
    some { s with phase := .gathering (runnable.map fun task => ⟨task, .waiting⟩) rest }
  | .scanning (id :: ids) runnable rest => some (scan tasks s id ids runnable rest)
  | .gathering slots rest =>
    if slots.all fun slot => slot.result?.isSome then
      some { s with
        phase := .between rest
        results := s.results.putAll (slots.filterMap Slot.result?) }
    else none
  | .returned => none
  | .raised _ => none

def step (tasks : List TaskSpec) (s : DagRun) : Action → Option DagRun
  | .advance => advance tasks s
  | .invoke i =>
    match s.phase with
    | .gathering slots rest =>
      match slots[i]? with
      | some ⟨task, .waiting⟩ =>
        match taskContext task s.results with
        | .error message => some { s with phase := .raised message }
        | .ok context => some { s with
            phase := .gathering (slots.set i ⟨task, .running⟩) rest
            log := s.log ++ [.invoked task.id context] }
      | _ => none
    | _ => none
  | .finish i outcome =>
    match s.phase with
    | .gathering slots rest =>
      match slots[i]? with
      | some ⟨task, .running⟩ =>
        let result := outcomeResult task.id outcome
        some { s with
          phase := .gathering (slots.set i ⟨task, .finished result⟩) rest
          log := s.log ++ [.settled task.id result] }
      | _ => none
    | _ => none

def machine (tasks : List TaskSpec) : Machine DagRun Action := ⟨step tasks⟩

/-- `StaticDagScheduler.run` when it is called. -/
def start (tasks : List TaskSpec) : DagRun :=
  match resolveTaskStages tasks with
  | .ok stages => { phase := .between stages }
  | .error message => { phase := .raised message }

end NeuralHub.SubAgents
