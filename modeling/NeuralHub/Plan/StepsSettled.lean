/-
NeuralHub.Plan.StepsSettled — a finished run leaves no step behind, unless
a new step was put in front of the one that is running.

The loop walks the todo list by index while the running step changes the
list. The invariant is a cut of the list at the index: the steps in front
are done or failed, so the tool cannot touch them, and those behind are
pending, done or failed. A step that goes in at or before the index moves
the running one to the right, and the loop comes to that one a second time
instead of to the new one.

`addsBehind` is the condition: the step that a call puts in goes behind
the running one, since `after_step_id` is the running step, one behind it,
or none.
-/
import NeuralHub.Plan.RunTheorems
import NeuralHub.Plan.TodoUpdateTheorems

namespace NeuralHub.Plan

open NeuralHub.Lib

variable {cfg : Config} {r t : Runner} {s s' : State} {index : Nat}

/-! ## The condition -/

/-- The ids of the steps in front of the one that is running. -/
def Runner.idsInFront (r : Runner) : List Int :=
  (r.steps.takeWhile (·.id != r.currentStepId)).map (·.id)

/-- A call of `TodoUpdate` that adds a step adds it behind the running one. -/
def addsBehind (r : Runner) (args : TodoUpdateArgs) : Bool :=
  args.action != "add" || decide (maxTodoUpdates ≤ r.todoUpdateCount) || stripped args.title == "" ||
    match afterId args r.currentStepId with
    | .ok after => !decide (after ∈ r.idsInFront)
    | .error _ => true

/-- The plan of the recon has distinct ids, and steps are added behind the running one. -/
def orderly (s : State) (a : Action) : Bool :=
  match a with
  | .answer (.planned plan) => decide plan.ids.Nodup
  | .todoUpdate args => addsBehind s.runner args
  | _ => true

/-! ## The cut of the list -/

def StepStatus.finished (status : StepStatus) : Bool := status == .done || status == .failed

/-- Not running, and not skipped by a cancelled run. -/
def StepStatus.resting (status : StepStatus) : Bool := status == .pending || status.finished

/-- In front of the index everything is finished, and nothing is running. -/
structure CutAt (index : Nat) (steps : List TodoStep) : Prop where
  front : ∀ step ∈ steps.take index, step.status.finished = true
  back : ∀ step ∈ steps.drop index, step.status.resting = true

/-- The step at the index has this id and status. -/
structure CutAtStep (index : Nat) (id : Int) (status : StepStatus) (steps : List TodoStep) : Prop where
  split : ∃ front step back, steps = front ++ step :: back ∧ front.length = index ∧
    step.id = id ∧ step.status = status ∧ (∀ x ∈ front, x.status.finished = true) ∧
    ∀ x ∈ back, x.status.resting = true

theorem finished_resting {status : StepStatus} (h : status.finished = true) :
    status.resting = true := by
  rw [StepStatus.resting, h, Bool.or_true]

theorem finished_settled {status : StepStatus} (h : status.finished = true) :
    status.settled = true := by
  revert h
  cases status <;> decide

theorem finished_locked {status : StepStatus} (h : status.finished = true) :
    status.locked = true := by
  revert h
  cases status <;> decide

theorem pending_or_finished {status : StepStatus} (h : status.resting = true) :
    status = .pending ∨ status.finished = true := by
  revert h
  cases status <;> decide

theorem cutAt_zero {steps : List TodoStep} (h : ∀ step ∈ steps, step.status.resting = true) :
    CutAt 0 steps := ⟨by simp, by simpa using h⟩

theorem CutAt.resting {steps : List TodoStep} (h : CutAt index steps) :
    ∀ step ∈ steps, step.status.resting = true := by
  intro step hstep
  rw [← List.take_append_drop index steps] at hstep
  rcases List.mem_append.mp hstep with hmem | hmem
  · exact finished_resting (h.front step hmem)
  · exact h.back step hmem

theorem CutAt.settled {steps : List TodoStep} (h : CutAt index steps)
    (hlength : steps.length ≤ index) : ∀ step ∈ steps, step.status.settled = true := by
  intro step hstep
  refine finished_settled (h.front step ?_)
  rwa [List.take_of_length_le hlength]

/-- A change of titles only. -/
theorem CutAt.map {steps : List TodoStep} (h : CutAt index steps) {f : TodoStep → TodoStep}
    (hf : ∀ step, (f step).status = step.status) : CutAt index (steps.map f) := by
  constructor
  · intro step hstep
    rw [← List.map_take] at hstep
    obtain ⟨step, hmem, rfl⟩ := List.mem_map.mp hstep
    rw [hf]
    exact h.front step hmem
  · intro step hstep
    rw [← List.map_drop] at hstep
    obtain ⟨step, hmem, rfl⟩ := List.mem_map.mp hstep
    rw [hf]
    exact h.back step hmem

theorem CutAt.atStep {steps : List TodoStep} (h : CutAt index steps) {step : TodoStep}
    (hget : steps[index]? = some step) : CutAtStep index step.id step.status steps := by
  obtain ⟨hlt, hget⟩ := List.getElem?_eq_some_iff.mp hget
  have hdrop : steps.drop index = step :: steps.drop (index + 1) := by
    rw [List.drop_eq_getElem_cons hlt, hget]
  refine ⟨steps.take index, step, steps.drop (index + 1), ?_, ?_, rfl, rfl, h.front, ?_⟩
  · rw [← hdrop, List.take_append_drop]
  · rw [List.length_take, Nat.min_eq_left (Nat.le_of_lt hlt)]
  · intro x hx
    refine h.back x ?_
    rw [hdrop]
    exact List.mem_cons_of_mem step hx

theorem CutAtStep.next {steps : List TodoStep} {id : Int} {status : StepStatus}
    (h : CutAtStep index id status steps) (hstatus : status.finished = true) :
    CutAt (index + 1) steps := by
  obtain ⟨front, step, back, rfl, rfl, -, rfl, hfront, hback⟩ := h.split
  constructor
  · intro x hx
    rw [List.take_append, List.take_of_length_le (Nat.le_succ _), Nat.add_sub_cancel_left] at hx
    rcases List.mem_append.mp hx with hx | hx
    · exact hfront x hx
    · rw [List.mem_singleton.mp hx]
      exact hstatus
  · intro x hx
    rw [List.drop_append, List.drop_of_length_le (Nat.le_succ _), Nat.add_sub_cancel_left] at hx
    exact hback x hx

/-- `step.status = …` on the step at the index; the others have other ids. -/
theorem CutAtStep.setStatus {steps : List TodoStep} {id : Int} {status : StepStatus}
    (h : CutAtStep index id status steps) (hnd : (steps.map (·.id)).Nodup) (status' : StepStatus) :
    CutAtStep index id status'
      (steps.map fun step => if step.id = id then { step with status := status' } else step) := by
  obtain ⟨front, step, back, rfl, rfl, rfl, -, hfront, hback⟩ := h.split
  rw [List.map_append, List.map_cons, List.nodup_append, List.nodup_cons] at hnd
  have hf : ∀ x ∈ front, x.id ≠ step.id := fun x hx =>
    hnd.2.2 x.id (List.mem_map_of_mem hx) step.id List.mem_cons_self
  have hb : ∀ x ∈ back, x.id ≠ step.id := fun x hx heq =>
    hnd.2.1.1 (heq ▸ List.mem_map_of_mem hx)
  refine ⟨front, { step with status := status' }, back, ?_, rfl, rfl, rfl, hfront, hback⟩
  rw [List.map_append, List.map_cons, if_pos rfl]
  congr 1
  · exact (List.map_congr_left fun x hx => if_neg (hf x hx)).trans (List.map_id _)
  · congr 1
    exact (List.map_congr_left fun x hx => if_neg (hb x hx)).trans (List.map_id _)

theorem takeWhile_of_cut {front back : List TodoStep} {step : TodoStep}
    (hnd : ((front ++ step :: back).map (·.id)).Nodup) :
    (front ++ step :: back).takeWhile (·.id != step.id) = front := by
  rw [List.map_append, List.map_cons, List.nodup_append] at hnd
  have hf : ∀ x ∈ front, (x.id != step.id) = true := fun x hx =>
    bne_iff_ne.mpr (hnd.2.2 x.id (List.mem_map_of_mem hx) step.id List.mem_cons_self)
  rw [List.takeWhile_append_of_pos hf]
  simp

/-! ## The tool keeps the cut -/

theorem retitled_cut {front back : List TodoStep} {step : TodoStep} {p : TodoStep → Bool}
    {g : TodoStep → TodoStep} (hfront : ∀ x ∈ front, p x = false) (hstep : p step = false) :
    modifyFirst p g (front ++ step :: back) = front ++ step :: modifyFirst p g back := by
  rw [modifyFirst_append hfront, modifyFirst, hstep]
  rfl

theorem resting_modifyFirst {p : TodoStep → Bool} {g : TodoStep → TodoStep}
    (hg : ∀ x, (g x).status = x.status) {back : List TodoStep}
    (h : ∀ x ∈ back, x.status.resting = true) :
    ∀ x ∈ modifyFirst p g back, x.status.resting = true := by
  intro x hx
  have hmap : x.status ∈ back.map (·.status) :=
    map_modifyFirst (p := p) hg back ▸ List.mem_map_of_mem hx
  obtain ⟨y, hy, heq⟩ := List.mem_map.mp hmap
  exact heq ▸ h y hy

/-- A call of the running step only changes what is behind it. -/
theorem Change.cutAtStep {plan plan' : ExecutionPlan} {todo todo' : TodoState}
    {args : TodoUpdateArgs} {id : Int} (hchange : Change plan todo args id plan' todo')
    (hnd : todo.ids.Nodup) (h : CutAtStep index id .running todo.steps)
    (hbehind : ∀ after, afterId args id = .ok after → args.action = "add" →
      stripped args.title ≠ "" → after ∉ (todo.steps.takeWhile (·.id != id)).map (·.id)) :
    CutAtStep index id .running todo'.steps := by
  obtain ⟨front, step, back, hsteps, hlength, hid, hstatus, hfront, hback⟩ := h.split
  have hlocked : ∀ x ∈ front ++ [step], x.status.locked = true := by
    intro x hx
    rcases List.mem_append.mp hx with hx | hx
    · exact finished_locked (hfront x hx)
    · rw [List.mem_singleton.mp hx, hstatus]
      rfl
  have hmem : ∀ x ∈ front ++ [step], x ∈ todo.steps := by
    intro x hx
    rw [hsteps, ← List.singleton_append, ← List.append_assoc]
    exact List.mem_append_left back hx
  have hne : ∀ {stepId}, lockedStep todo stepId = false → ∀ x ∈ front ++ [step], x.id ≠ stepId :=
    fun hfree x hx => id_ne_of_locked hnd hfree (hmem x hx) (hlocked x hx)
  cases hchange with
  | @retitled stepId hfree f g hf hg =>
    have hfalse : ∀ x ∈ front ++ [step], (x.id == stepId) = false := fun x hx =>
      beq_eq_false_iff_ne.mpr (hne hfree x hx)
    refine ⟨front, step, modifyFirst (·.id == stepId) g back, ?_, hlength, hid, hstatus, hfront,
      resting_modifyFirst (fun x => (hg x).2) hback⟩
    dsimp only
    rw [hsteps]
    exact retitled_cut (fun x hx => hfalse x (List.mem_append_left _ hx))
      (hfalse step (List.mem_append_right _ List.mem_cons_self))
  | @added after planStep title haction htitle hafter hnew =>
    have hnotin := hbehind after hafter haction htitle
    rw [hsteps, ← hid, takeWhile_of_cut (hsteps ▸ hnd)] at hnotin
    have hrest : (step :: back).map (·.id) ≠ [] := List.cons_ne_nil _ _
    obtain ⟨n, hindex⟩ := insertIndex_append hnotin hrest
    have hids : todo.ids = front.map (·.id) ++ (step :: back).map (·.id) := by
      rw [TodoState.ids, hsteps, List.map_append]
    refine ⟨front, step, back.insertIdx n { id := newStepId plan, title }, ?_, hlength, hid,
      hstatus, hfront, ?_⟩
    · dsimp only
      rw [hids, hindex, List.length_map, hsteps, insertIdx_append, List.insertIdx_succ_cons]
    · intro x hx
      rcases List.eq_or_mem_of_mem_insertIdx hx with rfl | hx
      · rfl
      · exact hback x hx
  | @removed stepId hfree =>
    have hkeep : ∀ x ∈ front ++ [step], (x.id != stepId) = true := fun x hx =>
      bne_iff_ne.mpr (hne hfree x hx)
    refine ⟨front, step, back.filter (·.id != stepId), ?_, hlength, hid, hstatus, hfront, ?_⟩
    · dsimp only
      rw [hsteps, List.filter_append, List.filter_cons,
        if_pos (hkeep step (List.mem_append_right _ List.mem_cons_self)),
        List.filter_eq_self.mpr fun x hx => hkeep x (List.mem_append_left _ hx)]
    · exact fun x hx => hback x (List.mem_of_mem_filter hx)

/-! ## The invariant -/

/-- The todo list is the plan's, cut at the index. -/
def Runner.CutAt (r : Runner) (index : Nat) : Prop :=
  ∃ plan, r.plan = some plan ∧ Aligned plan r.steps ∧ Plan.CutAt index r.steps

def Runner.CutAtStep (r : Runner) (index : Nat) (status : StepStatus) : Prop :=
  ∃ plan, r.plan = some plan ∧ Aligned plan r.steps ∧
    Plan.CutAtStep index r.currentStepId status r.steps

/-- The todo list, when there is one, is the plan's, and no step is running. -/
def Runner.Ready (r : Runner) : Prop := r.todo.isSome = true → r.CutAt 0

/-- Everything is settled, unless the run is cancelled. -/
def Runner.Over (r : Runner) : Prop :=
  r.phase = .cancelled ∨ ∀ step ∈ r.steps, step.status.settled = true

def Good (s : State) : Prop :=
  match s.point with
  | .idle | .planCreated | .approval => s.runner.Ready
  | .reconDone plan => plan.ids.Nodup
  | .planApproved => s.runner.CutAt 0
  | .paused index => s.runner.CutAt index
  | .passing index => s.runner.CutAt (index + 1)
  | .starting index | .running index => s.runner.CutAtStep index .running
  | .recording index => s.runner.CutAt (index + 1)
  | .finishing => s.runner.Over
  | .reconStart | .recon | .refused | .returned | .raised _ => True

/-- Two runners with the same plan and the same steps. -/
structure SameSteps (r t : Runner) : Prop where
  plan : t.plan = r.plan
  steps : t.steps = r.steps

theorem Runner.CutAt.congr (h : r.CutAt index) (hs : SameSteps r t) : t.CutAt index := by
  obtain ⟨plan, hplan, haligned, hcut⟩ := h
  exact ⟨plan, hs.plan.trans hplan, hs.steps ▸ haligned, hs.steps ▸ hcut⟩

theorem SameSteps.of_todo (hplan : t.plan = r.plan) (htodo : t.todo = r.todo) : SameSteps r t :=
  ⟨hplan, by rw [Runner.steps, htodo, Runner.steps]⟩

theorem Commanded.sameSteps (h : Commanded r t) : SameSteps r t := .of_todo h.plan h.todo

theorem sameSteps_setTodoStatus (r : Runner) (status : TodoStatus) :
    SameSteps r (r.setTodoStatus status) := ⟨rfl, Runner.steps_setTodoStatus status⟩

theorem Runner.CutAtStep.congr {status : StepStatus} (h : r.CutAtStep index status)
    (hs : SameSteps r t) (hid : t.currentStepId = r.currentStepId) : t.CutAtStep index status := by
  obtain ⟨plan, hplan, haligned, hcut⟩ := h
  exact ⟨plan, hs.plan.trans hplan, hs.steps ▸ haligned, hid ▸ hs.steps ▸ hcut⟩

theorem Runner.Ready.congr (h : r.Ready) (hplan : t.plan = r.plan) (htodo : t.todo = r.todo) :
    t.Ready := fun hsome => (h (htodo ▸ hsome)).congr (.of_todo hplan htodo)

theorem Runner.Over.congr (h : r.Over) (hc : Commanded r t) : t.Over := by
  rcases h with hphase | hsettled
  · rcases hc.phase with heq | ⟨-, heq⟩
    · exact Or.inl (heq.trans hphase)
    · exact Or.inl heq
  · exact Or.inr (hc.sameSteps.steps ▸ hsettled)

/-- A command may come at any point. -/
theorem Good.command (h : Good s) {t : Runner} (hc : Commanded s.runner t) :
    Good { s with runner := t } := by
  unfold Good at h ⊢
  cases hp : s.point <;> rw [hp] at h <;> dsimp only at h ⊢
  case idle => exact h.congr hc.plan hc.todo
  case planCreated => exact h.congr hc.plan hc.todo
  case approval => exact h.congr hc.plan hc.todo
  case reconDone => exact h
  case planApproved => exact h.congr hc.sameSteps
  case paused => exact h.congr hc.sameSteps
  case passing => exact h.congr hc.sameSteps
  case starting => exact h.congr hc.sameSteps hc.currentStepId
  case running => exact h.congr hc.sameSteps hc.currentStepId
  case recording => exact h.congr hc.sameSteps
  case finishing => exact h.congr hc

/-! ## The loop -/

theorem Runner.CutAt.refreshTitles (h : r.CutAt index) : r.refreshTitles.CutAt index := by
  obtain ⟨plan, hplan, haligned, hcut⟩ := h
  unfold Runner.refreshTitles
  rw [hplan]
  dsimp only
  refine ⟨plan, hplan, ?_, ?_⟩
  · rw [Runner.steps_mapSteps _ rfl]
    refine haligned.map fun step => ?_
    split
    · split <;> rfl
    · rfl
  · rw [Runner.steps_mapSteps _ rfl]
    refine hcut.map fun step => ?_
    split
    · split <;> rfl
    · rfl

theorem Runner.steps_setStepStatus (id : Int) (status : StepStatus) :
    (r.setStepStatus id status).steps =
      r.steps.map fun step => if step.id = id then { step with status } else step :=
  Runner.steps_mapSteps _ rfl

theorem Aligned.setStepStatus {plan : ExecutionPlan} (h : Aligned plan r.steps) (id : Int)
    (status : StepStatus) : Aligned plan (r.setStepStatus id status).steps := by
  rw [Runner.steps_setStepStatus]
  refine h.map fun step => ?_
  split <;> rfl

/-- The step that ran is done or failed. -/
theorem Runner.CutAtStep.finish {status : StepStatus} (h : r.CutAtStep index .running)
    (hstatus : status.finished = true) :
    (r.setStepStatus r.currentStepId status).CutAt (index + 1) := by
  obtain ⟨plan, hplan, haligned, hcut⟩ := h
  refine ⟨plan, hplan, haligned.setStepStatus _ _, ?_⟩
  rw [Runner.steps_setStepStatus]
  exact (hcut.setStatus haligned.nodup status).next hstatus

theorem good_finishRun (h : r.cancelled = false → ∀ step ∈ r.steps, step.status.settled = true) :
    Good (finishRun r) := by
  unfold finishRun
  dsimp only
  split
  · rename_i t hfinish
    show t.Over
    rcases finish_cases hfinish with ⟨htodo, rfl⟩ | rfl
    · exact Or.inr (by simp [Runner.steps, htodo])
    · cases hc : r.cancelled with
      | true => exact Or.inl (by simp [planStatusForFinish])
      | false =>
        refine Or.inr ?_
        have hsteps := Runner.steps_setTodoStatus (r := r) ((r.todo.map executionFinishStatus).getD .completed)
        exact hsteps ▸ h hc
  · trivial

theorem good_beforeStep (h : r.CutAt index) : Good (beforeStep index r) := by
  have h := h.refreshTitles
  unfold beforeStep
  dsimp only
  split
  · rename_i hc
    refine good_finishRun fun hno => ?_
    rw [cancelled_skipFrom, hc] at hno
    cases hno
  · obtain ⟨plan, hplan, haligned, hcut⟩ := h
    split
    · trivial
    · rename_i step hget
      have hstep := hcut.atStep hget
      split
      · rename_i hsettled
        refine ⟨plan, hplan, haligned, hstep.next ?_⟩
        rcases pending_or_finished (hcut.resting step (List.mem_of_getElem? hget)) with hpending | hf
        · rw [hpending] at hsettled
          cases hsettled
        · exact hf
      · have hset := hstep.setStatus haligned.nodup .running
        refine ⟨plan, hplan, haligned.setStepStatus _ _, ?_⟩
        rw [← Runner.steps_setStepStatus] at hset
        exact hset

theorem good_enter {target : PlanPhase} {wrap : RunError → RunError} {next : Runner → State}
    (h : Good (next { r with phase := target })) : Good (r.enter target wrap next) := by
  rcases enter_cases r target wrap next with ⟨-, heq⟩ | ⟨-, heq⟩
  · exact heq ▸ h
  · rw [heq]
    trivial

theorem good_afterPause (h : r.CutAt index) : Good (afterPause index r) := by
  unfold afterPause
  split
  · exact good_beforeStep h
  · refine good_enter (good_beforeStep (h.congr ?_))
    exact ⟨rfl, (sameSteps_setTodoStatus r .executing).steps⟩

theorem good_stayPaused (h : r.CutAt index) : Good (stayPaused index r) := by
  unfold stayPaused
  split
  · exact h
  · exact good_afterPause h

theorem good_waitIfPaused (h : r.CutAt index) : Good (waitIfPaused index r) := by
  have h := h.congr (commanded_applyControlSignal r).sameSteps
  unfold waitIfPaused
  dsimp only
  split
  · refine good_enter (good_stayPaused (h.congr ?_))
    exact ⟨rfl, (sameSteps_setTodoStatus _ .paused).steps⟩
  · exact good_beforeStep h

theorem good_loopHead (h : r.CutAt index) : Good (loopHead index r) := by
  unfold loopHead
  split
  · exact good_waitIfPaused (h.congr (commanded_applyControlSignal r).sameSteps)
  · rename_i hlt
    obtain ⟨plan, -, -, hcut⟩ := h
    exact good_finishRun fun _ => hcut.settled (Nat.le_of_not_lt hlt)

theorem good_startStep (h : r.CutAtStep index .running) : Good (startStep index r) := by
  unfold startStep
  split
  · exact h.finish rfl
  · exact h

theorem good_afterStep (h : r.CutAt (index + 1)) : Good (afterStep index r) := by
  have h := h.congr (t := { r with currentStepId := 0 }) (.of_todo rfl rfl)
  have h := h.congr (commanded_applyControlSignal _).sameSteps
  unfold afterStep
  dsimp only
  split
  · rename_i hc
    refine good_finishRun fun hno => ?_
    rw [cancelled_skipFrom, hc] at hno
    cases hno
  · exact good_loopHead h

/-! ## The approval and the recon -/

theorem good_executeExisting (h : r.Ready) : Good (executeExisting r) := by
  unfold executeExisting
  split
  · trivial
  · rename_i hsome
    have hcut := h (by simpa [Option.isSome_iff_ne_none] using hsome)
    dsimp only
    split
    · exact hcut.congr (sameSteps_setTodoStatus r .executing)
    · refine good_enter (hcut.congr ?_)
      exact ⟨rfl, (sameSteps_setTodoStatus { r with phase := .executing } .executing).steps⟩

theorem good_approvalEnd (h : r.Ready) : Good (approvalEnd r) := by
  unfold approvalEnd
  split
  · split <;> trivial
  · exact good_executeExisting h

theorem good_approvalLoop (timeUp : Bool) (h : r.Ready) : Good (approvalLoop timeUp r) := by
  have hc := commanded_applyApprovalSignal r
  unfold approvalLoop
  split
  · exact good_approvalEnd h
  · have h := h.congr hc.plan hc.todo
    dsimp only
    split
    · exact good_approvalEnd h
    · split
      · exact good_approvalEnd h
      · split
        · exact good_approvalEnd (h.congr rfl rfl)
        · exact h

theorem good_awaitApproval (h : r.Ready) : Good (awaitApproval r) := by
  unfold awaitApproval
  split
  · trivial
  · dsimp only
    split
    · exact h.congr rfl rfl
    · exact good_enter (h.congr rfl rfl)

theorem good_runFromRecon (r : Runner) : Good (runFromRecon r) := by
  unfold runFromRecon
  split
  · trivial
  · exact good_enter trivial

theorem good_afterRecon {plan : ExecutionPlan} (h : plan.ids.Nodup) (r : Runner) :
    Good (afterRecon plan r) := by
  unfold afterRecon
  split
  · trivial
  · exact h

/-- A new todo list is the plan's, and everything in it is pending. -/
theorem ready_buildTodoState {plan : ExecutionPlan} (h : plan.ids.Nodup) (hplan : r.plan = some plan)
    (htodo : r.todo = some (buildTodoStateFromPlan plan)) : r.Ready := by
  intro _
  have hids := ids_buildTodoStateFromPlan h
  have hsteps : r.steps = (buildTodoStateFromPlan plan).steps := by rw [Runner.steps, htodo]; rfl
  refine ⟨plan, hplan, hsteps ▸ ⟨h, hids.nodup_iff.mpr h, fun id => hids.mem_iff⟩, ?_⟩
  refine cutAt_zero fun step hstep => ?_
  rw [status_buildTodoStateFromPlan (hsteps ▸ hstep)]
  rfl

theorem good_afterReconDone {plan : ExecutionPlan} (h : plan.ids.Nodup) (r : Runner) :
    Good (afterReconDone cfg plan r) := by
  unfold afterReconDone
  refine good_enter ?_
  dsimp only
  split
  · trivial
  · refine good_enter ?_
    dsimp only
    split
    · trivial
    · split
      · exact good_awaitApproval (ready_buildTodoState h rfl rfl)
      · exact good_executeExisting (ready_buildTodoState h rfl rfl)

theorem good_resumeRun (h : r.Ready) : Good (resumeRun r) := by
  have h : ({ r with signal := .none } : Runner).Ready := h.congr rfl rfl
  unfold resumeRun
  dsimp only
  split
  · trivial
  · trivial
  · trivial
  · trivial
  · exact good_runFromRecon _
  · exact good_runFromRecon _
  · exact good_awaitApproval h
  · exact good_awaitApproval h
  · exact good_awaitApproval h
  · exact good_executeExisting h
  · exact good_executeExisting h

/-! ## Every run -/

theorem good_answered {answer : Answer} (h : Good s) (ha : orderly s (.answer answer) = true)
    (hs : answered cfg s answer = some s') : Good s' := by
  unfold answered at hs
  split at hs
  case h_1 =>
    obtain ⟨e, -, rfl⟩ := interrupt_eq_some hs
    trivial
  case h_17 => cases hs
  all_goals rename_i hp
  all_goals rw [← Option.some.inj hs]
  all_goals unfold Good at h; rw [hp] at h; dsimp only at h
  case h_2 => trivial
  case h_3 => exact good_afterRecon (of_decide_eq_true ha) _
  case h_4 => exact good_afterReconDone h _
  case h_5 => exact good_approvalLoop false h
  case h_6 => exact good_approvalLoop false h
  case h_7 => exact good_approvalLoop true h
  case h_8 => trivial
  case h_9 => exact good_loopHead h
  case h_10 => exact good_stayPaused (h.congr (commanded_applyControlSignal _).sameSteps)
  case h_11 => exact good_loopHead h
  case h_12 => exact good_startStep h
  case h_13 => exact h.finish rfl
  case h_14 => exact h.finish rfl
  case h_15 => exact good_afterStep h
  case h_16 => trivial

theorem Runner.CutAtStep.todoUpdate {args : TodoUpdateArgs} (h : r.CutAtStep index .running)
    (ha : addsBehind r args = true) : (todoUpdate r args).1.CutAtStep index .running := by
  rcases todoUpdate_eq r args with heq | ⟨plan, todo, plan', todo', hplan, htodo, hcount, hchange, heq⟩
  · rw [heq]
    exact h
  · obtain ⟨plan₀, hplan₀, haligned, hcut⟩ := h
    have hsteps : r.steps = todo.steps := by
      rw [Runner.steps, htodo]
      rfl
    rw [hplan, Option.some.injEq] at hplan₀
    subst hplan₀
    rw [hsteps] at haligned hcut
    rw [heq]
    have haligned' := hchange.aligned haligned
    refine ⟨_, rfl, ⟨haligned'.planNodup, haligned'.nodup, haligned'.same⟩,
      hchange.cutAtStep haligned.nodup hcut ?_⟩
    intro after hafter haction htitle
    simpa [addsBehind, haction, htitle, hafter, Nat.not_le.mpr hcount, Runner.idsInFront,
      hsteps] using ha

theorem good_step {a : Action} (h : Good s) (ha : orderly s a = true)
    (hs : (machine cfg).step s a = some s') : Good s' := by
  rcases step_cases hs with ⟨-, -, rfl⟩ | ⟨-, hp, rfl⟩ | ⟨f, hf, -, rfl⟩ |
    ⟨args, index, rfl, hp, rfl⟩ | ⟨answer, rfl, hs⟩
  · exact good_runFromRecon _
  · refine good_resumeRun ?_
    unfold Good at h
    rwa [hp] at h
  · exact h.command (hf.commanded s.runner)
  · unfold Good at h ⊢
    rw [hp] at h ⊢
    exact h.todoUpdate ha
  · exact good_answered h ha hs

/-- In every run, begun with `run` or resumed from a checkpoint whose todo
list is the plan's, in which steps are only added behind the running one:
when the end of the run has been recorded, and not as cancelled, every step
is done, failed or skipped. -/
theorem no_step_left_behind (cfg : Config) {s s' : State} {acts : List Action}
    (hidle : s.point = .idle) (hready : s.runner.Ready)
    (ho : (machine cfg).Meets (fun s a => orderly s a = true) s acts)
    (hrun : (machine cfg).run s acts = some s') (hend : s'.point = .finishing)
    (hphase : s'.runner.phase ≠ .cancelled) :
    ∀ step ∈ s'.runner.steps, step.status.settled = true := by
  have hgood : Good s := by
    unfold Good
    rwa [hidle]
  have hgood' : Good s' :=
    (machine cfg).run_invariant_of_meets (fun _ _ _ h ha hs => good_step h ha hs) hgood ho hrun
  unfold Good at hgood'
  rw [hend] at hgood'
  exact hgood'.resolve_left hphase

/-! ## A step that is added in front -/

def twoSteps : ExecutionPlan where
  steps := [{ stepId := 1, title := "a", description := "" },
    { stepId := 2, title := "b", description := "" }]

/-- A run of two steps; the second one adds a step behind the step with this id. -/
def addDuringSecond (afterStepId : IntOf) : List Action :=
  [.run] ++ ([.done, .planned twoSteps, .done, .done] : List Answer).map .answer ++
    ([.done, .stepDone, .done, .done] : List Answer).map .answer ++
    [.todoUpdate { action := "add", title := "c", afterStepId }] ++
    ([.stepDone, .done] : List Answer).map .answer

def unconfirmed : Config := { requireConfirmation := false }

/-- Behind the running step, the new one is run as well. -/
theorem no_step_left_behind_added_behind :
    ∃ s', (machine unconfirmed).run ⟨{}, .idle⟩
        (addDuringSecond .refused ++ ([.done, .stepDone, .done] : List Answer).map .answer) = some s' ∧
      s'.runner.steps.length = 3 ∧ ∀ step ∈ s'.runner.steps, step.status.settled = true := by
  have hend : ((machine unconfirmed).run ⟨{}, .idle⟩
      (addDuringSecond .refused ++ ([.done, .stepDone, .done] : List Answer).map .answer)).map
      (fun s => (s.point, s.runner.phase, s.runner.steps.length)) =
        some (.finishing, .completed, 3) := by decide
  obtain ⟨s', hrun, hfacts⟩ := Option.map_eq_some_iff.mp hend
  simp only [Prod.mk.injEq] at hfacts
  obtain ⟨hpoint, hphase, hlength⟩ := hfacts
  have horderly : (machine unconfirmed).Meets (fun s a => orderly s a = true) ⟨{}, .idle⟩
      (addDuringSecond .refused ++ ([.done, .stepDone, .done] : List Answer).map .answer) := by
    decide
  refine ⟨s', hrun, hlength, ?_⟩
  refine no_step_left_behind unconfirmed rfl ?_ horderly hrun hpoint ?_
  · intro hsome
    cases hsome
  · rw [hphase]
    decide

/-- Put behind the first step while the second one runs, a new step is never
run, and the plan is recorded as completed. -/
theorem step_added_in_front_left_behind :
    ¬ ∀ (cfg : Config) (s s' : State) (acts : List Action), s.point = .idle → s.runner.Ready →
      (∀ plan, .answer (.planned plan) ∈ acts → plan.ids.Nodup ∧ ∀ id ∈ plan.ids, 0 < id) →
      (machine cfg).run s acts = some s' → s'.point = .finishing →
      s'.runner.phase ≠ .cancelled → ∀ step ∈ s'.runner.steps, step.status.settled = true := by
  intro hclaim
  have hend : ((machine unconfirmed).run ⟨{}, .idle⟩
      (addDuringSecond (.number 1) ++ ([.done] : List Answer).map .answer)).map
      (fun s => (s.point, s.runner.phase, s.runner.steps.map fun step => (step.id, step.status))) =
        some (.finishing, .completed, [(1, .done), (3, .pending), (2, .done)]) := by decide
  obtain ⟨s', hrun, hfacts⟩ := Option.map_eq_some_iff.mp hend
  simp only [Prod.mk.injEq] at hfacts
  obtain ⟨hpoint, hphase, hsteps⟩ := hfacts
  have hplans : ∀ plan, Action.answer (.planned plan) ∈
      (addDuringSecond (.number 1) ++ ([.done] : List Answer).map .answer) →
      plan.ids.Nodup ∧ ∀ id ∈ plan.ids, 0 < id := by
    intro plan hmem
    simp only [addDuringSecond, List.map_cons, List.map_nil, List.cons_append, List.nil_append,
      List.mem_cons, List.not_mem_nil, Action.answer.injEq, Answer.planned.injEq, reduceCtorEq,
      or_false, false_or] at hmem
    rw [hmem]
    decide
  have hall := hclaim unconfirmed ⟨{}, .idle⟩ s' _ rfl (fun hsome => by cases hsome) hplans hrun
    hpoint (by rw [hphase]; decide)
  have hpending : ((3 : Int), StepStatus.pending) ∈
      s'.runner.steps.map fun step => (step.id, step.status) := by
    rw [hsteps]
    decide
  obtain ⟨step, hstep, heq⟩ := List.mem_map.mp hpending
  have hsettled := hall step hstep
  rw [(Prod.mk.inj heq).2] at hsettled
  cases hsettled

end NeuralHub.Plan
