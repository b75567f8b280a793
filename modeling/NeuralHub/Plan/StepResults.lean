/-
NeuralHub.Plan.StepResults — the results of steps: `step_result.py`,
`plan_step_results.py` and `build_step_context`.

A run keeps the results of its steps in a list and writes each to a file
of its own, under the session and the name of the plan. The list is read
from those files when the execution begins, so `files` is what one
directory has, in any order; a file that cannot be read is not in it.
`StepResultStore.write` refuses an id below 1, and an id whose file has a
name that the file system does not take (`NAME_MAX`, 255 bytes): both end
the execution. The names of the session and of the plan are taken to be
those of a directory that can be made.

What a step has found is left out, like its status and its times: the code
only puts them into prompts. The request id, a new one for each execution
of a step, keeps two results apart.
-/
import Mathlib.Algebra.Ring.Int.Defs
import NeuralHub.Plan.Run

namespace NeuralHub.Plan

open NeuralHub.Lib

structure StepResult where
  stepId : Int
  requestId : Nat
  task : String
  deriving DecidableEq, Repr

/-- `upsert_step_result`. -/
def upsertStepResult (results : List StepResult) (result : StepResult) : List StepResult :=
  results.filter (fun other => other.stepId ≠ result.stepId) ++ [result]

/-- The file that a result is written to before it gets its name, `step_<id>.json.tmp`. -/
def resultTmpName (stepId : Int) : String := "step_" ++ toString stepId ++ ".json.tmp"

/-- `NAME_MAX`. The name has no character beyond ASCII. -/
def nameMax : Nat := 255

/-- The store has a file for the result of this step. -/
def storableId (stepId : Int) : Bool :=
  decide (1 ≤ stepId) && decide ((resultTmpName stepId).length ≤ nameMax)

/-- `StepResultStore.write`; `none` stands for its `ValueError`, and for the `OSError` of a name
that is too long. -/
def writeStepResult (files : List StepResult) (result : StepResult) : Option (List StepResult) :=
  if storableId result.stepId then some (upsertStepResult files result) else none

/-- `StepResultStore.list`. -/
def listStepResults (files : List StepResult) : List StepResult :=
  files.insertionSort fun a b => a.stepId ≤ b.stepId

/-- The `previous_results` of `build_step_context`. -/
def previousResults (results : List StepResult) (stepId : Int) : List StepResult :=
  results.filter fun result => result.stepId < stepId

/-- An id of at most 241 digits. -/
theorem storableId_iff {stepId : Int} :
    storableId stepId = true ↔ 1 ≤ stepId ∧ stepId < 10 ^ 241 := by
  unfold storableId
  rw [Bool.and_eq_true, decide_eq_true_iff, decide_eq_true_iff]
  refine and_congr_right fun hpos => ?_
  obtain ⟨n, rfl⟩ := Int.eq_ofNat_of_zero_le (by omega : 0 ≤ stepId)
  have hname : (resultTmpName (n : Int)).length = n.repr.length + 14 := by
    simp only [resultTmpName, String.length_append]
    change 5 + n.repr.length + 9 = _
    omega
  have hdigits := Nat.length_repr_le_iff (n := n) (k := 241) (by decide)
  have hcast : (n : Int) < 10 ^ 241 ↔ n < 10 ^ 241 := by exact_mod_cast Iff.rfl
  rw [hname, hcast, ← hdigits, nameMax]
  omega

theorem mem_upsertStepResult {results : List StepResult} {result other : StepResult} :
    other ∈ upsertStepResult results result ↔
      other ∈ results ∧ other.stepId ≠ result.stepId ∨ other = result := by
  simp [upsertStepResult]

theorem mem_listStepResults {files : List StepResult} {result : StepResult} :
    result ∈ listStepResults files ↔ result ∈ files :=
  (List.perm_insertionSort _ files).mem_iff

theorem mem_previousResults {results : List StepResult} {stepId : Int} {result : StepResult} :
    result ∈ previousResults results stepId ↔ result ∈ results ∧ result.stepId < stepId := by
  simp [previousResults]

/-! ## A run with its results -/

structure ResultLog where
  files : List StepResult
  /-- `_step_results` -/
  results : List StepResult := []
  /-- what the list was when the execution began -/
  loaded : List StepResult := []
  /-- what was recorded since -/
  executed : List StepResult := []
  /-- the plan step of the step under way -/
  context : Option PlanStep := none
  requests : Nat := 0
  /-- what each step was told when it started, with what had been recorded then -/
  told : List (List StepResult × List StepResult) := []
  /-- the steps that were run, with the title of the todo step -/
  ran : List (String × PlanStep) := []
  deriving DecidableEq, Repr

/-- The step that starts, with its context. -/
def startsStep (s : State) (a : Action) : Option PlanStep :=
  match s.point, a with
  | .starting _, .answer .done => findPlanStep s.runner.plan s.runner.currentStepId
  | _, _ => none

def Runner.titleAt (r : Runner) (index : Nat) : String := ((r.steps[index]?).map (·.title)).getD ""

namespace ResultLog

/-- `_execute_todo_steps` reads the list. -/
def load (log : ResultLog) : ResultLog :=
  { log with results := listStepResults log.files, loaded := listStepResults log.files, executed := [] }

/-- `build_step_context`, for the step with this id and title. -/
def start (log : ResultLog) (stepId : Int) (title : String) (planStep : PlanStep) : ResultLog :=
  { log with
    context := some planStep
    told := log.told ++ [(previousResults log.results stepId, log.executed)]
    ran := log.ran ++ [(title, planStep)] }

/-- `record_step_result`, where the step has a context. -/
def record (log : ResultLog) (stepId : Int) : ResultLog :=
  match log.context with
  | none => log
  | some planStep =>
    let result : StepResult := { stepId, requestId := log.requests, task := planStep.title }
    { log with
      files := (writeStepResult log.files result).getD log.files
      results := upsertStepResult log.results result
      executed := upsertStepResult log.executed result
      requests := log.requests + 1 }

end ResultLog

def updateLog (s : State) (a : Action) (log : ResultLog) : ResultLog :=
  match s.point, a with
  | .planApproved, .answer .done => log.load
  | .starting index, .answer .done =>
    match startsStep s a with
    | none => { log with context := none }
    | some planStep => log.start s.runner.currentStepId (s.runner.titleAt index) planStep
  | .recording _, .answer .done => log.record s.runner.currentStepId
  | _, _ => log

/-- The store refuses the result, which the step has not expected. -/
def refusesResult (x : State × ResultLog) : Bool :=
  match x.1.point with
  | .recording _ => x.2.context.isSome && !storableId x.1.runner.currentStepId
  | _ => false

/-- An await that the store ends. -/
def storeAnswer (x : State × ResultLog) (a : Action) : Action :=
  if a = .answer .done ∧ refusesResult x = true then .answer .interrupted else a

/-- The machine of a run with its results. -/
def resultsMachine (cfg : Config) : Machine (State × ResultLog) Action where
  step x a :=
    let a := storeAnswer x a
    (step cfg x.1 a).map fun t => (t, updateLog x.1 a x.2)

/-- What is recorded is not refused. -/
theorem storableId_of_recording {x : State × ResultLog} {a : Action} {index : Nat}
    (hpoint : x.1.point = .recording index) (hanswer : storeAnswer x a = .answer .done)
    (hcontext : x.2.context ≠ none) : storableId x.1.runner.currentStepId = true := by
  by_contra hnot
  have hrefused : refusesResult x = true := by
    unfold refusesResult
    rw [hpoint]
    simpa [Option.isSome_iff_ne_none, hcontext] using hnot
  unfold storeAnswer at hanswer
  split at hanswer
  · cases hanswer
  · rename_i hnot
    exact hnot ⟨hanswer, hrefused⟩

/-! ## Runs without commands -/

/-- From the beginning of a run that needs no approval to its first step. -/
def beginExecution (plan : ExecutionPlan) : List Action :=
  [.run, .answer .done, .answer (.planned plan), .answer .done, .answer .done]

/-- A step starts, ends with this answer, and is recorded. -/
def executeStep (a : Answer) : List Action := [.answer .done, .answer a, .answer .done]

end NeuralHub.Plan
