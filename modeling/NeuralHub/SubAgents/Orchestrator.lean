/-
NeuralHub.SubAgents.Orchestrator — `Orchestrator.execute` with the parts of
`isolated_runner.py` and `orchestrator_report.py` that it rests on.

A plan is executed stage by stage. The runs of a stage are built before the
first of them is started, so how they interleave does not matter to what
they are given: a stage is a function of what its runs come to. `outcome`
says that for every run; it is any function. The other parameter is
`load_role`, which reads a file and may raise. The semaphore
(`max_parallel_agents`, 5 wherever the application builds the configuration)
and the progress events, which swallow every exception, change neither the
runs nor the results.

`runs` is kept for the statements about what is executed; nothing reads it.
-/
import NeuralHub.Lib.Table
import NeuralHub.Lib.Text
import NeuralHub.SubAgents.Stages

namespace NeuralHub.SubAgents

open NeuralHub.Lib

/-! ## Runs and results -/

structure SubAgentResult where
  role : String
  stageId : Int
  output : String
  isError : Bool := false
  deriving DecidableEq, Repr

/-- What a role is defined to be, in a file under its name. -/
structure AgentRole where
  name : String
  description : String := ""
  systemPrompt : String
  allowedTools : List String := []
  maxIterations : Int := 10
  model : String := ""
  deriving DecidableEq, Repr

/-- Outputs by role. -/
abbrev Outputs := Table (Prod.fst : String × String → String)

structure IsolatedAgentRun where
  task : AgentTask
  description : String := ""
  systemPrompt : String := ""
  model : String := ""
  maxIterations : Int := 10
  dependencyOutputs : Outputs := Table.empty

/-- How the loop of an isolated agent ends. -/
inductive LoopOutcome where
  | content (text : String)
  | timeout
  | agentError (code message : String)
  | exception (text : String)
  deriving DecidableEq, Repr

def formatAgentError (roleName code message : String) : String :=
  s!"子 Agent [{roleName}] 执行失败：[{code}] {message}"

def runIsolatedAgent (timeoutPerAgent : Int) (run : IsolatedAgentRun) :
    LoopOutcome → SubAgentResult
  | .content text =>
    { role := run.task.role, stageId := -1
      output := String.ofList (Text.strip text.toList) }
  | .timeout =>
    { role := run.task.role, stageId := -1
      output := s!"子 Agent [{run.task.role}] 执行超时（{timeoutPerAgent}s）", isError := true }
  | .agentError code message =>
    { role := run.task.role, stageId := -1
      output := formatAgentError run.task.role code message, isError := true }
  | .exception text =>
    { role := run.task.role, stageId := -1
      output := formatAgentError run.task.role "SUB_AGENT_EXECUTION_ERROR" text, isError := true }

/-- What `gather` keeps of a run that raises. -/
inductive Raised where
  | agentError (code message : String)
  | other (text : String)
  deriving DecidableEq, Repr

def coerceResult (stageId : Nat) (roleName : String) : Except Raised SubAgentResult → SubAgentResult
  | .ok result => { result with stageId := stageId }
  | .error (.agentError code message) =>
    { role := roleName, stageId := stageId, output := s!"[{code}] {message}", isError := true }
  | .error (.other text) =>
    { role := roleName, stageId := stageId, output := text, isError := true }

def skipResult (stageId : Nat) (roleName : String) (failedDeps : List String) : SubAgentResult where
  role := roleName
  stageId := stageId
  output := "上游依赖 " ++ String.intercalate "、" failedDeps ++ " 失败，已跳过执行。"
  isError := true

/-! ## A stage -/

structure Orchestration where
  previousOutputs : Outputs := Table.empty
  failedRoles : List String := []
  skippedRoles : List String := []
  results : List SubAgentResult := []
  runs : List IsolatedAgentRun := []

/-- What the orchestrator is built with. -/
structure Environment where
  loadRole : String → Except String (Option AgentRole)
  outcome : IsolatedAgentRun → Except Raised LoopOutcome
  timeoutPerAgent : Int := 300

variable (env : Environment)

def buildRun (task : AgentTask) (previousOutputs : Outputs) : Except String IsolatedAgentRun :=
  (env.loadRole task.role).map fun definition =>
    { task := { task with
        allowedTools := if task.allowedTools ≠ [] then task.allowedTools
          else (definition.map AgentRole.allowedTools).getD [] }
      description := match definition with
        | some role => if role.description ≠ "" then role.description
          else s!"请围绕 {task.role} 角色完成分配的子任务。"
        | none => s!"请围绕 {task.role} 角色完成分配的子任务。"
      systemPrompt := (definition.map AgentRole.systemPrompt).getD ""
      model := (definition.map AgentRole.model).getD ""
      maxIterations := (definition.map AgentRole.maxIterations).getD 10
      dependencyOutputs :=
        Table.empty.putAll (task.dependsOn.filterMap previousOutputs.find) }

/-- `task_map[role_name]`, or the `KeyError`. -/
def readTask (tasks : List AgentTask) (roleName : String) : Except String AgentTask :=
  match tasks.find? fun task => task.role = roleName with
  | some task => .ok task
  | none => .error s!"'{roleName}'"

def failedDeps (task : AgentTask) (failedRoles : List String) : List String :=
  task.dependsOn.filter (· ∈ failedRoles)

/-- The run of a task, unless a dependency of it has failed. -/
def prepareRun (s : Orchestration) (task : AgentTask) : Except String (Option IsolatedAgentRun) :=
  if failedDeps task s.failedRoles ≠ [] then .ok none
  else (buildRun env task s.previousOutputs).map some

/-- The entry of `results_by_role` for a task. -/
def roleResult (s : Orchestration) (stageId : Nat) (task : AgentTask) :
    Option IsolatedAgentRun → SubAgentResult
  | none => skipResult stageId task.role (failedDeps task s.failedRoles)
  | some run => coerceResult stageId task.role
      ((env.outcome run).map (runIsolatedAgent env.timeoutPerAgent run))

/-- What `execute` keeps of a result for the stages behind it. -/
def recordResult (s : Orchestration) (result : SubAgentResult) : Orchestration :=
  if result.isError then { s with failedRoles := s.failedRoles ++ [result.role] }
  else { s with previousOutputs := s.previousOutputs.put (result.role, result.output) }

def runStage (tasks : List AgentTask) (s : Orchestration) (stage : ResolvedStage) :
    Except String Orchestration := do
  let stageTasks ← stage.taskRoles.mapM (readTask tasks)
  let prepared ← stageTasks.mapM fun task => (prepareRun env s task).map fun run => (task, run)
  let stageResults := prepared.map fun entry => roleResult env s stage.stageId entry.1 entry.2
  let skipped := (prepared.filter fun entry => entry.2.isNone).map fun entry => entry.1.role
  return stageResults.foldl recordResult { s with
    skippedRoles := s.skippedRoles ++ skipped
    results := s.results ++ stageResults
    runs := s.runs ++ prepared.filterMap Prod.snd }

/-! ## A plan -/

/-- What has been done when the stages are through. -/
def orchestrate (tasks : List AgentTask) : Except String Orchestration :=
  (resolveStages tasks).bind fun stages => stages.foldlM (runStage env tasks) {}

def statusText (skippedRoles : List String) (result : SubAgentResult) : String :=
  if result.role ∈ skippedRoles then "跳过(上游失败)"
  else if result.isError then "失败" else "完成"

def reportSections (stages : List ResolvedStage) (s : Orchestration) : List String :=
  stages.flatMap fun stage =>
    (s!"\n--- 阶段 {stage.stageId}: " ++ String.intercalate ", " stage.taskRoles ++ " ---") ::
      (s.results.filter fun result => result.stageId = stage.stageId).flatMap fun result =>
        [s!"\n[{result.role}] [{statusText s.skippedRoles result}]", result.output]

def formatReport (stages : List ResolvedStage) (s : Orchestration) : String :=
  let skippedCount := (s.results.filter fun result => result.role ∈ s.skippedRoles).length
  let failedCount : Int := (s.results.filter fun result => result.isError).length - skippedCount
  let summary := s!"多 Agent 协作完成，共 {stages.length} 个阶段，{s.results.length} 个任务。"
  let summary := if failedCount ≠ 0 then summary ++ s!" 其中 {failedCount} 个子任务失败。" else summary
  let summary := if skippedCount ≠ 0 then summary ++ s!" {skippedCount} 个子任务因上游失败被跳过。"
    else summary
  String.intercalate "\n" (summary :: reportSections stages s)

structure ToolOutput where
  output : String
  isError : Bool
  deriving DecidableEq, Repr

/-- `Orchestrator.execute`; the error is the text of the `OrchestrationError`. -/
def execute (tasks : List AgentTask) : Except String ToolOutput := do
  let stages ← resolveStages tasks
  let s ← orchestrate env tasks
  return { output := formatReport stages s, isError := s.results.any SubAgentResult.isError }

end NeuralHub.SubAgents
