/-
NeuralHub.Plan.TodoUpdateRuns — the plan and the todo list over a whole run
of `TodoUpdate` calls.

`Kept` says what one edit leaves of the two lists: they stay aligned, a new
step gets an id above all that are there, and a call or a change of status
neither takes out nor rewrites a locked step. `kept_run` lifts it to every
run.

Ids are unique among the steps that are there and not over the run: the id
of a step that is taken out is given again if it was the largest one
(`id_given_again`).
-/
import NeuralHub.Plan.TodoUpdateTheorems
import NeuralHub.Lib.Machine

namespace NeuralHub.Plan

open Lib

/-! ## Edits -/

/-- `refresh_pending_todo_titles`. -/
def refreshPendingTodoTitles (todo : TodoState) (plan : ExecutionPlan) : TodoState :=
  let titled := fun step : TodoStep =>
    match plan.steps.reverse.find? (·.stepId == step.id) with
    | some planStep =>
      if step.status = .pending ∨ step.status = .running ∨ step.status = .skipped then
        { step with title := planStep.title }
      else step
    | none => step
  { todo with steps := todo.steps.map titled }

inductive Edit
  | call (args : TodoUpdateArgs)
  /-- a todo step starts, ends, is skipped or is reset -/
  | status (stepId : Int) (status : StepStatus)
  /-- `_current_step_id` -/
  | current (stepId : Int)
  /-- `_reload_plan` -/
  | reload
  deriving DecidableEq, Repr

def TodoState.setStatus (todo : TodoState) (stepId : Int) (status : StepStatus) : TodoState :=
  { todo with steps := todo.steps.map fun step =>
      if step.id = stepId then { step with status } else step }

def Runner.edit (r : Runner) : Edit → Runner
  | .call args => (todoUpdate r args).1
  | .status stepId status => { r with todo := r.todo.map fun todo => todo.setStatus stepId status }
  | .current stepId => { r with currentStepId := stepId }
  | .reload =>
    match r.todo, r.plan with
    | some todo, some plan => { r with todo := some (refreshPendingTodoTitles todo plan) }
    | _, _ => r

def edits : Machine Runner Edit := ⟨fun r e => some (r.edit e)⟩

/-- The ids of the plan. -/
def Runner.ids (r : Runner) : List Int := (r.plan.map ExecutionPlan.ids).getD []

/-! ## What is kept -/

/-- The step is still there, and neither its title nor what was planned for it has changed. -/
def Untouched (step : TodoStep) (plan plan' : ExecutionPlan) (todo' : TodoState) : Prop :=
  (∃ step' ∈ todo'.steps, step'.id = step.id ∧ step'.title = step.title) ∧
    ∀ p ∈ plan.steps, p.stepId = step.id → p ∈ plan'.steps

structure Kept (e : Edit) (plan plan' : ExecutionPlan) (todo todo' : TodoState) : Prop where
  aligned : Aligned plan' todo'.steps
  /-- a new id is above all that are there -/
  above : ∀ id ∈ plan'.ids, id ∉ plan.ids → ∀ k ∈ plan.ids, k < id
  locked : e ≠ .reload → ∀ step ∈ todo.steps, step.status.locked = true →
    Untouched step plan plan' todo'

/-- The edit keeps the lists of the runner. -/
def KeepsPlan (r : Runner) (e : Edit) : Prop :=
  ∃ plan todo plan' todo', r.plan = some plan ∧ r.todo = some todo ∧
    (r.edit e).plan = some plan' ∧ (r.edit e).todo = some todo' ∧ Kept e plan plan' todo todo'

/-- No id is given again to another step. -/
def NeverReuses (r : Runner) : Prop :=
  ∀ (as bs : List Edit) (a b : Edit) (s t u v : Runner), edits.run r as = some s →
    edits.step s a = some t → edits.run t bs = some u → edits.step u b = some v →
    ∀ id ∈ s.ids, id ∉ t.ids → id ∉ u.ids → id ∉ v.ids

variable {plan plan' : ExecutionPlan} {todo todo' : TodoState} {args : TodoUpdateArgs} {e : Edit}

theorem mem_modifyFirst {α : Type} {p : α → Bool} {f : α → α} {x : α} {xs : List α}
    (hx : x ∈ xs) (hp : p x = false) : x ∈ modifyFirst p f xs := by
  induction xs with
  | nil => exact absurd hx List.not_mem_nil
  | cons y xs ih =>
    rw [modifyFirst]
    split
    · rename_i hy
      rcases List.mem_cons.mp hx with rfl | hx
      · rw [hp] at hy
        cases hy
      · exact List.mem_cons_of_mem _ hx
    · rcases List.mem_cons.mp hx with rfl | hx
      · exact List.mem_cons_self
      · exact List.mem_cons_of_mem y (ih hx)

theorem lt_newStepId {k : Int} (h : k ∈ plan.ids) : k < newStepId plan := by
  unfold newStepId
  cases hmax : plan.ids.max? with
  | none =>
    rw [List.max?_eq_none_iff.mp hmax] at h
    cases h
  | some m =>
    have hle := (List.max?_eq_some_iff.mp hmax).2 k h
    rw [Option.getD_some]
    omega

/-- Steps that stay as they are. -/
theorem untouched_of_mem {step : TodoStep} (htodo : step ∈ todo'.steps)
    (hplan : ∀ p ∈ plan.steps, p.stepId = step.id → p ∈ plan'.steps) :
    Untouched step plan plan' todo' := ⟨⟨step, htodo, rfl, rfl⟩, hplan⟩

theorem Change.kept {currentStepId : Int}
    (hchange : Change plan todo args currentStepId plan' todo')
    (h : Aligned plan todo.steps) : Kept e plan plan' todo todo' := by
  refine ⟨hchange.aligned h, ?_, fun _ => ?_⟩
  · cases hchange with
    | retitled hlocked hf hg =>
      intro id hid hnot
      rw [ExecutionPlan.ids, map_modifyFirst hf] at hid
      exact absurd hid hnot
    | @added after planStep title haction htitle hafter hnew =>
      intro id hid hnot k hk
      have hids : (plan.steps.insertIdx (insertIndex plan.ids after) planStep).map (·.stepId) =
          plan.ids.insertIdx (insertIndex plan.ids after) (newStepId plan) := by
        rw [List.map_insertIdx, hnew]
        rfl
      rw [ExecutionPlan.ids, hids, List.mem_insertIdx (insertIndex_le plan.ids after)] at hid
      rcases hid with rfl | hid
      · exact lt_newStepId hk
      · exact absurd hid hnot
    | removed hlocked =>
      intro id hid hnot
      obtain ⟨p, hp, rfl⟩ := List.mem_map.mp hid
      exact absurd (List.mem_map_of_mem (List.mem_of_mem_filter hp)) hnot
  · cases hchange with
    | @retitled stepId hlocked f g hf hg =>
      intro step hstep hstatus
      have hne := id_ne_of_locked h.nodup hlocked hstep hstatus
      exact untouched_of_mem (mem_modifyFirst hstep (beq_eq_false_iff_ne.mpr hne))
        fun p hp hid => mem_modifyFirst hp (beq_eq_false_iff_ne.mpr (hid ▸ hne))
    | added haction htitle hafter hnew =>
      intro step hstep _
      have hplan := insertIndex_le plan.ids
      have htodo := insertIndex_le todo.ids
      rw [ExecutionPlan.ids, List.length_map] at hplan
      rw [TodoState.ids, List.length_map] at htodo
      exact untouched_of_mem ((List.mem_insertIdx (htodo _)).mpr (Or.inr hstep))
        fun p hp _ => (List.mem_insertIdx (hplan _)).mpr (Or.inr hp)
    | @removed stepId hlocked =>
      intro step hstep hstatus
      have hne := id_ne_of_locked h.nodup hlocked hstep hstatus
      exact untouched_of_mem (List.mem_filter.mpr ⟨hstep, bne_iff_ne.mpr hne⟩)
        fun p hp hid => List.mem_filter.mpr ⟨hp, bne_iff_ne.mpr (hid ▸ hne)⟩

/-! ## Edits that are no calls -/

/-- The plan stays as it is, and the steps keep their ids. -/
theorem kept_of_map (h : Aligned plan todo.steps) {f : TodoStep → TodoStep}
    (hid : ∀ step, (f step).id = step.id)
    (htitle : e ≠ .reload → ∀ step, (f step).title = step.title) :
    Kept e plan plan todo { todo with steps := todo.steps.map f } := by
  refine ⟨h.map hid, fun id hmem hnot => absurd hmem hnot, fun he step hstep _ => ?_⟩
  exact ⟨⟨f step, List.mem_map_of_mem hstep, hid step, htitle he step⟩, fun p hp _ => hp⟩

theorem kept_refl (h : Aligned plan todo.steps) : Kept e plan plan todo todo :=
  ⟨h, fun _ hmem hnot => absurd hmem hnot,
    fun _ _ hstep _ => untouched_of_mem hstep fun _ hp _ => hp⟩

/-- The version of the plan does not matter. -/
theorem Kept.version (h : Kept e plan plan' todo todo') (version : Int) :
    Kept e plan { plan' with version } todo todo' :=
  ⟨⟨h.aligned.planNodup, h.aligned.nodup, h.aligned.same⟩, h.above, h.locked⟩

theorem keepsPlan_edit {r : Runner} (hplan : r.plan = some plan) (htodo : r.todo = some todo)
    (h : Aligned plan todo.steps) (e : Edit) : KeepsPlan r e := by
  cases e with
  | call args =>
    rcases todoUpdate_eq r args with heq | ⟨p, t, plan', todo', hp, ht, -, hchange, heq⟩
    · have hsame : r.edit (.call args) = r := heq
      exact ⟨plan, todo, plan, todo, hplan, htodo, by rw [hsame, hplan], by rw [hsame, htodo],
        kept_refl h⟩
    · rw [hplan] at hp
      rw [htodo] at ht
      cases hp
      cases ht
      have hedit : r.edit (.call args) = _ := heq
      exact ⟨plan, todo, _, todo', hplan, htodo, by rw [hedit], by rw [hedit],
        (hchange.kept h).version (plan'.version + 1)⟩
  | status stepId status =>
    refine ⟨plan, todo, plan, _, hplan, htodo, hplan, by rw [Runner.edit, htodo]; rfl,
      kept_of_map h (fun step => ?_) fun _ step => ?_⟩
    · split <;> rfl
    · split <;> rfl
  | current stepId =>
    exact ⟨plan, todo, plan, todo, hplan, htodo, hplan, htodo, kept_refl h⟩
  | reload =>
    have hedit : r.edit .reload = { r with todo := some (refreshPendingTodoTitles todo plan) } := by
      rw [Runner.edit, htodo, hplan]
    refine ⟨plan, todo, plan, refreshPendingTodoTitles todo plan, hplan, htodo,
      by rw [hedit]; exact hplan, by rw [hedit],
      kept_of_map h (fun step => ?_) fun he => absurd rfl he⟩
    split
    · split <;> rfl
    · rfl

/-- The lists of the runner are aligned. -/
def Runner.Aligned (r : Runner) : Prop :=
  ∃ plan todo, r.plan = some plan ∧ r.todo = some todo ∧ Plan.Aligned plan todo.steps

theorem aligned_edit {r : Runner} (h : r.Aligned) (e : Edit) : (r.edit e).Aligned := by
  obtain ⟨plan, todo, hplan, htodo, h⟩ := h
  obtain ⟨_, _, plan', todo', _, _, hplan', htodo', hkept⟩ := keepsPlan_edit hplan htodo h e
  exact ⟨plan', todo', hplan', htodo', hkept.aligned⟩

/-- **Every edit of every run keeps the two lists.** -/
theorem kept_run {r : Runner} (h : r.Aligned) (run : List Edit) : edits.Meets KeepsPlan r run := by
  refine edits.meets_of_invariant (I := Runner.Aligned) (D := fun _ _ => True) ?_ ?_ h
    (edits.meets_of_forall_mem fun _ _ _ => trivial)
  · intro s e t hs _ hstep
    cases hstep
    exact aligned_edit hs e
  · rintro s e ⟨plan, todo, hplan, htodo, hs⟩ _
    exact keepsPlan_edit hplan htodo hs e

/-- Two steps that are still to come. -/
def pendingPair : Runner where
  plan := some { steps := [⟨1, "read", "read it", [], [], .agentStep, "", .nil⟩,
    ⟨2, "write", "write it", [], [], .agentStep, "", .nil⟩] }
  todo := some ⟨.executing, [⟨1, "read", .pending⟩, ⟨2, "write", .pending⟩]⟩

theorem kept_run_pendingPair : edits.Meets KeepsPlan pendingPair
    [.status 1 .running, .call { action := "remove", stepId := .number 2 }] :=
  kept_run ⟨_, _, rfl, rfl, by decide, by decide, fun _ => Iff.rfl⟩ _

/-- The second step is taken out, and the next new step has its id. -/
theorem id_given_again : ¬NeverReuses pendingPair := by
  intro h
  exact h [] [] (.call { action := "remove", stepId := .number 2 })
    (.call { action := "add", title := "check" }) _ _ _ _ rfl rfl rfl rfl 2 (by decide)
    (by decide) (by decide) (by decide)

end NeuralHub.Plan
