/-
NeuralHub.Plan.EveryStep — an accepted plan is executed in full if and only
if its ids are distinct, at least 1 and of at most 241 digits.

Nothing in `parse_plan_response` looks at the ids. The order of the steps
is made of a dictionary, so of two steps with one id only one is in the
todo list, and the store takes no result of a step whose id is below 1 or
makes the name of the file too long, which ends the execution with an
error. In all other cases every step is
run once, as it was planned, and has its result, however the steps end.

One direction is a run of three answers for each step (`executeStep_run`),
from any directory. For the other, whatever the plan, no two results that
are recorded have one id, and none has an id below 1 (`storesOnce_step`).
-/
import NeuralHub.Plan.DependencyOrder
import NeuralHub.Plan.PlanResponse
import NeuralHub.Plan.StepResults

namespace NeuralHub.Plan

open NeuralHub.Lib

/-! ## Executing a plan -/

/-- How the runner of a step ends. -/
inductive StepOutcome
  | success
  | failure
  | timeout
  deriving DecidableEq, Repr

def StepOutcome.answer : StepOutcome → Answer
  | .success => .stepDone
  | .failure | .timeout => .stepFailed

def StepOutcome.status : StepOutcome → StepStatus
  | .success => .done
  | .failure | .timeout => .failed

/-- The runner while it executes. -/
def executionRunner (plan : ExecutionPlan) (steps : List TodoStep) (currentStepId : Int) :
    Runner where
  phase := .executing
  plan := some plan
  todo := some { status := .executing, steps }
  currentStepId := currentStepId

/-- In front of `_execute_todo_steps`. -/
def approvedPlan (plan : ExecutionPlan) (files : List StepResult) : State × ResultLog :=
  (⟨executionRunner plan (buildTodoStateFromPlan plan).steps 0, .planApproved⟩, { files })

/-- The answers to an execution whose steps end like this. -/
def executionAnswers (outcomes : List StepOutcome) : List Action :=
  .answer .done :: outcomes.flatMap fun outcome => executeStep outcome.answer

/-- The end of an execution that has run each step of the plan once, as it was planned, and has
stored its result. -/
structure ExecutedAll (plan : ExecutionPlan) (x : State × ResultLog) : Prop where
  finishing : x.1.point = .finishing
  ran : (x.2.ran.map Prod.snd).Perm plan.steps
  titles : ∀ step ∈ x.2.ran, step.1 = step.2.title
  recorded : (x.2.executed.map fun result => (result.stepId, result.task)).Perm
    (plan.steps.map fun planStep => (planStep.stepId, planStep.title))
  stored : ∀ result ∈ x.2.executed, result ∈ x.2.files

/-- However the steps end. -/
def ExecutesAll (cfg : Config) (plan : ExecutionPlan) : Prop :=
  ∀ (files : List StepResult) (outcomes : List StepOutcome),
    outcomes.length = (buildTodoStateFromPlan plan).steps.length →
      ∃ x, (resultsMachine cfg).run (approvedPlan plan files) (executionAnswers outcomes) = some x ∧
        ExecutedAll plan x

/-! ## One step -/

variable {cfg : Config} {plan : ExecutionPlan} {done rest : List TodoStep} {todo : TodoStep}
  {planStep : PlanStep} {log : ResultLog}

/-- Every todo step has the title of its plan step. -/
def Titled (plan : ExecutionPlan) (steps : List TodoStep) : Prop :=
  ∀ todo ∈ steps, ∃ planStep ∈ plan.steps, planStep.stepId = todo.id ∧ planStep.title = todo.title

theorem refreshTitles_eq_self {steps : List TodoStep} (hnd : plan.ids.Nodup)
    (h : Titled plan steps) (id : Int) :
    (executionRunner plan steps id).refreshTitles = executionRunner plan steps id := by
  unfold Runner.refreshTitles Runner.mapSteps executionRunner
  dsimp only [Option.map_some]
  congr 2
  refine congrArg _ ?_
  conv_rhs => rw [← List.map_id' steps]
  refine List.map_congr_left fun todo hmem => ?_
  obtain ⟨planStep, hplan, hid, htitle⟩ := h todo hmem
  split
  · rename_i last hlast
    obtain ⟨hlast, hlastId⟩ := List.mem_filter.mp (List.mem_of_getLast? hlast)
    have hids : last.stepId = planStep.stepId := (of_decide_eq_true hlastId).trans hid.symm
    rw [List.inj_on_of_nodup_map hnd hlast hplan hids, htitle]
    split <;> rfl
  · rfl

/-- The step is the only one with its id. -/
theorem setStepStatus_eq (hnd : ((done ++ todo :: rest).map (·.id)).Nodup) (id : Int)
    (status : StepStatus) :
    (executionRunner plan (done ++ todo :: rest) id).setStepStatus todo.id status =
      executionRunner plan (done ++ { todo with status } :: rest) id := by
  have hothers : ∀ steps : List TodoStep, todo.id ∉ steps.map (·.id) →
      steps.map (fun step => if step.id = todo.id then { step with status } else step) = steps := by
    intro steps hnot
    conv_rhs => rw [← List.map_id' steps]
    refine List.map_congr_left fun step hmem => ?_
    rw [if_neg fun hid => hnot (List.mem_map.mpr ⟨step, hmem, hid⟩)]
  rw [List.map_append, List.map_cons, List.nodup_append, List.nodup_cons] at hnd
  obtain ⟨-, ⟨hrest, -⟩, hapart⟩ := hnd
  have hdone : todo.id ∉ done.map (·.id) :=
    fun hmem => hapart todo.id hmem todo.id List.mem_cons_self rfl
  unfold Runner.setStepStatus Runner.mapSteps executionRunner
  dsimp only [Option.map_some]
  rw [List.map_append, List.map_cons, hothers done hdone, hothers rest hrest, if_pos rfl]

/-- Nothing has been asked of the runner, so the loop goes on to the step. -/
theorem loopHead_pending (hplan : plan.ids.Nodup) (htitled : Titled plan (done ++ todo :: rest))
    (hnd : ((done ++ todo :: rest).map (·.id)).Nodup) (hpending : todo.status = .pending) :
    loopHead done.length (executionRunner plan (done ++ todo :: rest) 0) =
      ⟨executionRunner plan (done ++ { todo with status := .running } :: rest) todo.id,
        .starting done.length⟩ := by
  have hlength : done.length < (executionRunner plan (done ++ todo :: rest) 0).steps.length := by
    simp [Runner.steps, executionRunner]
  have hstep : (executionRunner plan (done ++ todo :: rest) 0).steps[done.length]? = some todo := by
    simp [Runner.steps, executionRunner]
  have hwait : waitIfPaused done.length
      (executionRunner plan (done ++ todo :: rest) 0).applyControlSignal =
        beforeStep done.length (executionRunner plan (done ++ todo :: rest) 0) := rfl
  rw [loopHead, if_pos hlength, hwait, beforeStep]
  dsimp only
  rw [refreshTitles_eq_self hplan htitled, hstep]
  dsimp only
  rw [hpending, setStepStatus_eq hnd]
  rfl

theorem startStep_found (hfind : findPlanStep (some plan) todo.id = some planStep) (index : Nat) :
    startStep index (executionRunner plan (done ++ todo :: rest) todo.id) =
      ⟨executionRunner plan (done ++ todo :: rest) todo.id, .running index⟩ := by
  unfold startStep
  rw [show findPlanStep (executionRunner plan (done ++ todo :: rest) todo.id).plan
    (executionRunner plan (done ++ todo :: rest) todo.id).currentStepId = some planStep from hfind]

theorem titleAt_length (id : Int) :
    (executionRunner plan (done ++ todo :: rest) id).titleAt done.length = todo.title := by
  simp [Runner.titleAt, Runner.steps, executionRunner]

theorem step_resultsMachine_of_accepted {x : State × ResultLog} {a : Action}
    (h : refusesResult x = false) :
    (resultsMachine cfg).step x a = (step cfg x.1 a).map fun t => (t, updateLog x.1 a x.2) := by
  have ha : storeAnswer x a = a := by
    unfold storeAnswer
    rw [h, if_neg fun hand => Bool.false_ne_true hand.2]
  change (step cfg x.1 (storeAnswer x a)).map _ = _
  rw [ha]

theorem step_starting (cfg : Config) (log : ResultLog) (done rest : List TodoStep)
    (hfind : findPlanStep (some plan) todo.id = some planStep) :
    (resultsMachine cfg).step
        (⟨executionRunner plan (done ++ todo :: rest) todo.id, .starting done.length⟩, log)
        (.answer .done) =
      some (⟨executionRunner plan (done ++ todo :: rest) todo.id, .running done.length⟩,
        log.start todo.id todo.title planStep) := by
  rw [step_resultsMachine_of_accepted rfl]
  have hstep : step cfg
      ⟨executionRunner plan (done ++ todo :: rest) todo.id, .starting done.length⟩ (.answer .done) =
        some ⟨executionRunner plan (done ++ todo :: rest) todo.id, .running done.length⟩ :=
    congrArg some (startStep_found hfind done.length)
  have hstarts : startsStep
      ⟨executionRunner plan (done ++ todo :: rest) todo.id, .starting done.length⟩ (.answer .done) =
        some planStep := hfind
  have hlog : updateLog
      ⟨executionRunner plan (done ++ todo :: rest) todo.id, .starting done.length⟩ (.answer .done)
        log = log.start todo.id todo.title planStep := by
    unfold updateLog
    dsimp only
    rw [hstarts]
    dsimp only
    rw [titleAt_length]
    rfl
  rw [hstep, Option.map_some, hlog]

theorem step_running (cfg : Config) (plan : ExecutionPlan) (log : ResultLog)
    (hnd : ((done ++ todo :: rest).map (·.id)).Nodup) (outcome : StepOutcome) :
    (resultsMachine cfg).step
        (⟨executionRunner plan (done ++ todo :: rest) todo.id, .running done.length⟩, log)
        (.answer outcome.answer) =
      some (⟨executionRunner plan (done ++ { todo with status := outcome.status } :: rest) todo.id,
        .recording done.length⟩, log) := by
  rw [step_resultsMachine_of_accepted rfl]
  have hstatus : (executionRunner plan (done ++ todo :: rest) todo.id).setStepStatus todo.id
      outcome.status =
        executionRunner plan (done ++ { todo with status := outcome.status } :: rest) todo.id :=
    setStepStatus_eq hnd todo.id outcome.status
  have hrecording := congrArg (fun r => some (State.mk r (.recording done.length), log)) hstatus
  cases outcome with
  | success => exact hrecording
  | failure => exact hrecording
  | timeout => exact hrecording

/-- The store takes the result of a step whose id it can store. -/
theorem step_recording (cfg : Config) (plan : ExecutionPlan) (log : ResultLog)
    (steps : List TodoStep) {id : Int} (hstorable : storableId id = true) (index : Nat) :
    (resultsMachine cfg).step (⟨executionRunner plan steps id, .recording index⟩, log)
        (.answer .done) =
      some (loopHead (index + 1) (executionRunner plan steps 0), log.record id) := by
  rw [step_resultsMachine_of_accepted]
  · rfl
  · change (log.context.isSome && !storableId id) = false
    rw [hstorable, Bool.not_true, Bool.and_false]

/-- A step is run and recorded, and the loop goes on behind it. -/
theorem executeStep_run (cfg : Config) (log : ResultLog) (hplan : plan.ids.Nodup)
    (htitled : Titled plan (done ++ todo :: rest))
    (hnd : ((done ++ todo :: rest).map (·.id)).Nodup) (hpending : todo.status = .pending)
    (hfind : findPlanStep (some plan) todo.id = some planStep)
    (hstorable : storableId todo.id = true)
    (outcome : StepOutcome) :
    (resultsMachine cfg).run
        (loopHead done.length (executionRunner plan (done ++ todo :: rest) 0), log)
        (executeStep outcome.answer) =
      some (loopHead (done.length + 1)
          (executionRunner plan (done ++ { todo with status := outcome.status } :: rest) 0),
        (log.start todo.id todo.title planStep).record todo.id) := by
  rw [loopHead_pending hplan htitled hnd hpending]
  -- the todo step while it runs
  let running : TodoStep := { todo with status := .running }
  have hids : ((done ++ running :: rest).map (·.id)).Nodup := by simpa [running] using hnd
  have hfound : findPlanStep (some plan) running.id = some planStep := hfind
  have hstart := step_starting cfg log done rest hfound
  have hend := step_running cfg plan (log.start todo.id todo.title planStep) hids outcome
  have hrecord := step_recording cfg plan (log.start todo.id todo.title planStep)
    (done ++ { todo with status := outcome.status } :: rest) hstorable done.length
  rw [executeStep, Machine.run_cons, hstart, Option.bind_some, Machine.run_cons, hend,
    Option.bind_some, Machine.run_singleton, hrecord]

/-! ## All steps -/

def todoStep (planStep : PlanStep) : TodoStep := { id := planStep.stepId, title := planStep.title }

theorem loopHead_finished (plan : ExecutionPlan) (steps : List TodoStep) :
    (loopHead steps.length (executionRunner plan steps 0)).point = .finishing := by
  have hlength : ¬steps.length < (executionRunner plan steps 0).steps.length := by
    simp [Runner.steps, executionRunner]
  rw [loopHead, if_neg hlength]
  unfold finishRun executionRunner Runner.cancelled executionFinishStatus
  simp only [Option.map_some, Option.getD_some]
  by_cases hfailed : steps.countP (·.status == .failed) = 0
  · rw [if_pos hfailed]
    rfl
  · rw [if_neg hfailed]
    rfl

/-- What an execution leaves besides the log it began with. -/
structure Executed (log : ResultLog) (planSteps : List PlanStep) (log' : ResultLog) : Prop where
  ran : log'.ran = log.ran ++ planSteps.map fun planStep => (planStep.title, planStep)
  recorded : log'.executed.map (fun result => (result.stepId, result.task)) =
    log.executed.map (fun result => (result.stepId, result.task)) ++
      planSteps.map fun planStep => (planStep.stepId, planStep.title)
  stored : (∀ result ∈ log.executed, result ∈ log.files) →
    ∀ result ∈ log'.executed, result ∈ log'.files

theorem upsertStepResult_of_fresh {results : List StepResult} {result : StepResult}
    (h : result.stepId ∉ results.map (·.stepId)) :
    upsertStepResult results result = results ++ [result] := by
  rw [upsertStepResult, List.filter_eq_self.mpr]
  intro other hmem
  exact decide_eq_true fun hid => h (List.mem_map.mpr ⟨other, hmem, hid⟩)

theorem executed_step (hfresh : planStep.stepId ∉ log.executed.map (·.stepId))
    (hstorable : storableId planStep.stepId = true) :
    Executed log [planStep]
      ((log.start planStep.stepId planStep.title planStep).record planStep.stepId) := by
  have hwrite : ∀ result : StepResult, result.stepId = planStep.stepId →
      writeStepResult log.files result = some (upsertStepResult log.files result) := by
    intro result hid
    rw [writeStepResult, hid, if_pos hstorable]
  refine ⟨rfl, ?_, ?_⟩
  · simp only [ResultLog.record, ResultLog.start]
    rw [upsertStepResult_of_fresh hfresh, List.map_append]
    rfl
  · intro hstored result hmem
    simp only [ResultLog.record, ResultLog.start] at hmem ⊢
    rw [hwrite _ rfl, Option.getD_some, mem_upsertStepResult]
    rcases mem_upsertStepResult.mp hmem with ⟨hmem, hne⟩ | heq
    · exact Or.inl ⟨hstored result hmem, hne⟩
    · exact Or.inr heq

theorem Executed.trans {log' log'' : ResultLog} {planSteps planSteps' : List PlanStep}
    (h : Executed log planSteps log') (h' : Executed log' planSteps' log'') :
    Executed log (planSteps ++ planSteps') log'' where
  ran := by rw [h'.ran, h.ran, List.map_append, List.append_assoc]
  recorded := by rw [h'.recorded, h.recorded, List.map_append, List.append_assoc]
  stored hstored := h'.stored (h.stored hstored)

theorem Executed.ids {log' : ResultLog} {planSteps : List PlanStep} (h : Executed log planSteps log') :
    log'.executed.map (·.stepId) = log.executed.map (·.stepId) ++ planSteps.map (·.stepId) := by
  have hids := congrArg (List.map Prod.fst) h.recorded
  simpa only [List.map_append, List.map_map, Function.comp_def] using hids

theorem findPlanStep_of_mem (hplan : plan.ids.Nodup) (hmem : planStep ∈ plan.steps) :
    findPlanStep (some plan) planStep.stepId = some planStep := by
  have hsome : (plan.steps.find? (·.stepId == planStep.stepId)).isSome = true :=
    List.find?_isSome.mpr ⟨planStep, hmem, beq_self_eq_true _⟩
  obtain ⟨found, hfound⟩ := Option.isSome_iff_exists.mp hsome
  have hid : found.stepId = planStep.stepId := by
    simpa using List.find?_some hfound
  have hsame := List.inj_on_of_nodup_map hplan (List.mem_of_find?_eq_some hfound) hmem hid
  exact hfound.trans (congrArg some hsame)

/-- The steps that are left are run one after the other. -/
theorem executeSteps_run (cfg : Config) (hplan : plan.ids.Nodup)
    (hstorable : ∀ id ∈ plan.ids, storableId id = true)
    {planSteps : List PlanStep} (hsub : ∀ planStep ∈ planSteps, planStep ∈ plan.steps)
    (htitled : Titled plan done)
    (hnd : (done.map (·.id) ++ planSteps.map (·.stepId)).Nodup)
    (hfresh : (log.executed.map (·.stepId) ++ planSteps.map (·.stepId)).Nodup)
    {outcomes : List StepOutcome} (hlength : outcomes.length = planSteps.length) :
    ∃ x, (resultsMachine cfg).run
        (loopHead done.length (executionRunner plan
          (done ++ planSteps.map todoStep) 0), log)
        (outcomes.flatMap fun outcome => executeStep outcome.answer) = some x ∧
      x.1.point = .finishing ∧ Executed log planSteps x.2 := by
  induction planSteps generalizing done log outcomes with
  | nil =>
    obtain rfl := List.length_eq_zero_iff.mp hlength
    refine ⟨_, rfl, ?_, by simp, by simp, fun h => h⟩
    simpa using loopHead_finished plan done
  | cons planStep planSteps ih =>
    obtain ⟨outcome, outcomes, rfl⟩ := List.exists_cons_of_length_eq_add_one hlength
    have hmem : planStep ∈ plan.steps := hsub planStep List.mem_cons_self
    have hid : planStep.stepId ∈ plan.ids := List.mem_map_of_mem hmem
    let settled : TodoStep := { todoStep planStep with status := outcome.status }
    have hall : Titled plan (done ++ todoStep planStep :: planSteps.map todoStep) := by
      intro other hother
      rcases List.mem_append.mp hother with hother | hother
      · exact htitled other hother
      · obtain ⟨p, hp, rfl⟩ := List.mem_map.mp (List.map_cons ▸ hother)
        exact ⟨p, hsub p hp, rfl, rfl⟩
    have hids : ((done ++ todoStep planStep :: planSteps.map todoStep).map (·.id)).Nodup := by
      simpa [todoStep, Function.comp_def] using hnd
    have hnew : planStep.stepId ∉ log.executed.map (·.stepId) := by
      intro hold
      exact (List.nodup_append.mp hfresh).2.2 _ hold _ List.mem_cons_self rfl
    have hone := executed_step hnew (hstorable _ hid)
    have hfirst := executeStep_run cfg log hplan hall hids rfl (findPlanStep_of_mem hplan hmem)
      (hstorable _ hid) outcome
    have hsettled : Titled plan (done ++ [settled]) :=
      List.forall_mem_append.mpr
        ⟨htitled, by simpa [settled, Titled] using ⟨planStep, hmem, rfl, rfl⟩⟩
    have hndRest : ((done ++ [settled]).map (·.id) ++ planSteps.map (·.stepId)).Nodup := by
      simpa [settled, todoStep] using hnd
    have hfreshRest : (((log.start planStep.stepId planStep.title planStep).record
        planStep.stepId).executed.map (·.stepId) ++ planSteps.map (·.stepId)).Nodup := by
      rw [hone.ids]
      simpa using hfresh
    obtain ⟨x, hrun, hpoint, hrest⟩ := ih (fun p hp => hsub p (List.mem_cons_of_mem _ hp)) hsettled
      hndRest hfreshRest (Nat.succ.inj hlength)
    refine ⟨x, ?_, hpoint, hone.trans hrest⟩
    rw [List.flatMap_cons]
    refine (resultsMachine cfg).run_append_eq_some.mpr ⟨_, hfirst, ?_⟩
    simpa [settled, todoStep] using hrun

/-- A plan whose ids are distinct and can be stored is executed in full. -/
theorem executesAll (hplan : plan.ids.Nodup) (hstorable : ∀ id ∈ plan.ids, storableId id = true) :
    ExecutesAll cfg plan := by
  intro files outcomes hlength
  have hperm := orderedPlanSteps_perm hplan
  have hids : ((orderedPlanSteps plan).map (·.stepId)).Nodup :=
    ((hperm.map PlanStep.stepId).nodup_iff).mpr hplan
  rw [buildTodoStateFromPlan, List.length_map] at hlength
  have hfresh : ((ResultLog.load { files }).executed.map (·.stepId) ++
      (orderedPlanSteps plan).map (·.stepId)).Nodup := hids
  have hdone : Titled plan [] := List.forall_mem_nil _
  obtain ⟨x, hrun, hpoint, hexecuted⟩ := executeSteps_run cfg hplan hstorable
    (fun p hp => hperm.mem_iff.mp hp) hdone hids hfresh hlength
  refine ⟨x, ?_, hpoint, ?_, ?_, ?_, hexecuted.stored (List.forall_mem_nil _)⟩
  · exact (Machine.run_cons _ _ _ _).trans hrun
  · rw [hexecuted.ran]
    simpa [ResultLog.load, Function.comp_def] using hperm
  · intro step hstep
    rw [hexecuted.ran] at hstep
    obtain ⟨p, -, rfl⟩ := List.mem_map.mp hstep
    rfl
  · rw [hexecuted.recorded]
    exact hperm.map _

/-! ## What is stored -/

/-- No result of a step is stored twice, and none of a step that has no file. -/
def StoresOnce (log : ResultLog) : Prop :=
  (log.executed.map (·.stepId)).Nodup ∧ ∀ result ∈ log.executed, storableId result.stepId = true

theorem StoresOnce.record (h : StoresOnce log) {stepId : Int}
    (hstorable : log.context ≠ none → storableId stepId = true) :
    StoresOnce (log.record stepId) := by
  unfold ResultLog.record
  split
  · exact h
  rename_i planStep hcontext
  refine ⟨?_, fun result hmem => ?_⟩
  · dsimp only
    rw [upsertStepResult, List.map_append, List.nodup_append]
    refine ⟨h.1.sublist (List.filter_sublist.map _), List.nodup_singleton _, ?_⟩
    rintro id hid other hother rfl
    obtain ⟨result, hresult, rfl⟩ := List.mem_map.mp hid
    exact of_decide_eq_true (List.mem_filter.mp hresult).2 (List.mem_singleton.mp hother)
  · rcases mem_upsertStepResult.mp hmem with ⟨hmem, -⟩ | rfl
    · exact h.2 result hmem
    · exact hstorable (by rw [hcontext]; exact Option.some_ne_none _)

theorem storesOnce_step {x y : State × ResultLog} {a : Action} (h : StoresOnce x.2)
    (hstep : (resultsMachine cfg).step x a = some y) : StoresOnce y.2 := by
  obtain ⟨t, -, rfl⟩ := Option.map_eq_some_iff.mp hstep
  dsimp only
  unfold updateLog
  split
  · exact ⟨List.nodup_nil, List.forall_mem_nil _⟩
  · split
    · exact h
    · exact h
  · rename_i index hpoint hanswer
    exact h.record fun hcontext => storableId_of_recording hpoint hanswer hcontext
  · exact h

/-- A plan is executed in full, if and only if its ids are distinct and can be stored. -/
theorem executesAll_iff :
    ExecutesAll cfg plan ↔ plan.ids.Nodup ∧ ∀ id ∈ plan.ids, 1 ≤ id ∧ id < 10 ^ 241 := by
  constructor
  · intro hall
    obtain ⟨x, hrun, hexecuted⟩ := hall []
      (List.replicate (buildTodoStateFromPlan plan).steps.length .success) (by simp)
    have hstores : StoresOnce x.2 := (resultsMachine cfg).run_invariant
      (fun _ _ _ h hstep => storesOnce_step h hstep)
      (⟨List.nodup_nil, List.forall_mem_nil _⟩ : StoresOnce (approvedPlan plan []).2) hrun
    have hids : (x.2.executed.map (·.stepId)).Perm plan.ids := by
      simpa [Function.comp_def, ExecutionPlan.ids] using hexecuted.recorded.map Prod.fst
    refine ⟨hids.nodup_iff.mp hstores.1, fun id hid => ?_⟩
    obtain ⟨result, hresult, rfl⟩ := List.mem_map.mp (hids.mem_iff.mpr hid)
    exact storableId_iff.mp (hstores.2 result hresult)
  · rintro ⟨hplan, hids⟩
    exact executesAll hplan fun id hid => storableId_iff.mpr (hids id hid)

/-! ## Accepted texts -/

/-- Parsers that know one text. -/
def printedReaders (data : Json) : Readers where
  loads text := if text = data.text then .value data else .refused (0, "Expecting value")
  literalEval _ := .refused ()
  intField := wholeNumber
  refusal _ := ""

/-- Two steps with these ids. -/
def numberedData (first second : Int) : Json :=
  planData (stepData (.int first) "write" .nil) (stepData (.int second) "read" .nil)

def numberedPlan (first second : Int) : ExecutionPlan where
  steps := [{ stepId := first, title := "write", description := "" },
    { stepId := second, title := "read", description := "" }]

end NeuralHub.Plan
