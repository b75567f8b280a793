/-
NeuralHub.Plan.Order — `plan_execution_plan.py`: the todo list of a plan.

The steps are put in rounds: a round takes, sorted by id, the steps whose
dependencies came in earlier rounds or are no steps of the plan, and all
that are left when there is none. The source works on a dictionary from
`step_<id>` to the steps; here it is the list of the steps that are left,
and a step is its id. A round takes at least one step, so there are at
most as many rounds as steps.
-/
import NeuralHub.Plan.Types
import NeuralHub.Lib.Text
import Mathlib.Data.List.Sort

namespace NeuralHub.Plan

open NeuralHub.Lib

def stepKey (id : Int) : String := "step_" ++ toString id

/-- `_normalize_dependency`. Digits outside of ASCII are kept as they are:
with or without the prefix they are the key of no step. -/
def normalizeDependency (dep : String) : String :=
  let text := Text.strip dep.toList
  if "step_".toList.isPrefixOf text then String.ofList text
  else if text ≠ [] ∧ text.all Char.isDigit then "step_" ++ String.ofList text
  else String.ofList text

/-- `{_step_key(step): step for step in plan.steps}`: a step with the id of
an earlier one takes its place. -/
def stepDict (steps : List PlanStep) : List PlanStep :=
  steps.foldl (fun dict step =>
    if step.stepId ∈ dict.map (·.stepId) then
      dict.map fun other => if other.stepId = step.stepId then step else other
    else dict ++ [step]) []

def dependencyResolved (dep : String) (remaining : List PlanStep) (resolved : List Int) : Bool :=
  let key := normalizeDependency dep
  decide (key ∈ resolved.map stepKey) ||
    !decide (key ∈ (remaining.map (·.stepId)).map stepKey)

/-- The steps of the next round, sorted by their ids. -/
def readySteps (remaining : List PlanStep) (resolved : List Int) : List PlanStep :=
  let ready := remaining.filter fun step =>
    step.dependsOn.all fun dep => dependencyResolved dep remaining resolved
  let ready := if ready = [] then remaining else ready
  ready.insertionSort fun a b => a.stepId ≤ b.stepId

def orderRounds : (rounds : Nat) → (remaining : List PlanStep) → (resolved : List Int) →
    List PlanStep
  | 0, _, _ => []
  | rounds + 1, remaining, resolved =>
    if remaining = [] then []
    else
      let ready := readySteps remaining resolved
      ready ++ orderRounds rounds
        (remaining.filter fun step => !decide (step.stepId ∈ ready.map (·.stepId)))
        (resolved ++ ready.map (·.stepId))

def orderedPlanSteps (plan : ExecutionPlan) : List PlanStep :=
  let remaining := stepDict plan.steps
  orderRounds remaining.length remaining []

def buildTodoStateFromPlan (plan : ExecutionPlan) : TodoState where
  steps := (orderedPlanSteps plan).map fun step => { id := step.stepId, title := step.title }

/-! ## Every step has its place -/

variable {steps remaining : List PlanStep}

theorem stepDict_of_nodup (h : (steps.map (·.stepId)).Nodup) : stepDict steps = steps := by
  have hprefix : ∀ done rest : List PlanStep, ((done ++ rest).map (·.stepId)).Nodup →
      rest.foldl (fun dict step =>
        if step.stepId ∈ dict.map (·.stepId) then
          dict.map fun other => if other.stepId = step.stepId then step else other
        else dict ++ [step]) done = done ++ rest := by
    intro done rest hnd
    induction rest generalizing done with
    | nil => simp
    | cons step rest ih =>
      have hfresh : step.stepId ∉ done.map (·.stepId) := by
        rw [List.map_append, List.nodup_append] at hnd
        intro hmem
        exact hnd.2.2 _ hmem _ List.mem_cons_self rfl
      rw [List.foldl_cons, if_neg hfresh, ih (done ++ [step]) (by simpa using hnd)]
      simp
  exact hprefix [] steps h

/-- A round takes some of the steps that are left. -/
theorem readySteps_perm (remaining : List PlanStep) (resolved : List Int) :
    ∃ p : PlanStep → Bool, (readySteps remaining resolved).Perm (remaining.filter p) := by
  unfold readySteps
  dsimp only
  split
  · exact ⟨fun _ => true, by simpa using List.perm_insertionSort _ remaining⟩
  · exact ⟨_, List.perm_insertionSort _ _⟩

theorem readySteps_ne_nil {resolved : List Int} (h : remaining ≠ []) :
    readySteps remaining resolved ≠ [] := by
  intro hnil
  have hlength := congrArg List.length hnil
  unfold readySteps at hlength
  dsimp only at hlength
  rw [(List.perm_insertionSort _ _).length_eq, List.length_nil, List.length_eq_zero_iff] at hlength
  split at hlength
  · exact h hlength
  · rename_i hready
    exact hready hlength

/-- What a round leaves are the steps it does not take. -/
theorem filter_notMem_readySteps {ready : List PlanStep} {p : PlanStep → Bool}
    (hnd : (remaining.map (·.stepId)).Nodup) (hready : ready.Perm (remaining.filter p)) :
    (remaining.filter fun step => !decide (step.stepId ∈ ready.map (·.stepId))) =
      remaining.filter fun step => !p step := by
  refine List.filter_congr fun step hstep => ?_
  have hmem : step.stepId ∈ ready.map (·.stepId) ↔ p step = true := by
    constructor
    · intro h
      obtain ⟨other, hother, hid⟩ := List.mem_map.mp h
      have hfilter := List.mem_filter.mp (hready.mem_iff.mp hother)
      rw [List.inj_on_of_nodup_map hnd hfilter.1 hstep hid] at hfilter
      exact hfilter.2
    · intro h
      exact List.mem_map_of_mem (hready.mem_iff.mpr (List.mem_filter.mpr ⟨hstep, h⟩))
  rw [Bool.eq_iff_iff]
  simp only [Bool.not_eq_true', decide_eq_false_iff_not, hmem, Bool.not_eq_true]

theorem orderRounds_perm {rounds : Nat} {resolved : List Int}
    (hnd : (remaining.map (·.stepId)).Nodup) (hlength : remaining.length ≤ rounds) :
    (orderRounds rounds remaining resolved).Perm remaining := by
  induction rounds generalizing remaining resolved with
  | zero =>
    rw [List.length_eq_zero_iff.mp (Nat.le_zero.mp hlength)]
    exact List.Perm.nil
  | succ rounds ih =>
    rw [orderRounds]
    split
    · rename_i hnil
      rw [hnil]
    · rename_i hne
      obtain ⟨p, hready⟩ := readySteps_perm remaining resolved
      have hparts : (remaining.filter p ++ remaining.filter fun step => !p step).Perm remaining :=
        List.filter_append_perm p remaining
      have htaken : 0 < (remaining.filter p).length := by
        rw [← hready.length_eq]
        exact List.length_pos_iff.mpr (readySteps_ne_nil hne)
      have hcount := hparts.length_eq
      rw [List.length_append] at hcount
      dsimp only
      rw [filter_notMem_readySteps hnd hready]
      have hrest : (orderRounds rounds (remaining.filter fun step => !p step)
          (resolved ++ (readySteps remaining resolved).map (·.stepId))).Perm
            (remaining.filter fun step => !p step) :=
        ih (hnd.sublist (List.filter_sublist.map _)) (by omega)
      exact (hready.append hrest).trans hparts

/-- With distinct ids, the todo list has every step of the plan once. -/
theorem orderedPlanSteps_perm {plan : ExecutionPlan} (hnd : plan.ids.Nodup) :
    (orderedPlanSteps plan).Perm plan.steps := by
  have hdict : stepDict plan.steps = plan.steps := stepDict_of_nodup hnd
  rw [orderedPlanSteps, hdict]
  exact orderRounds_perm hnd (Nat.le_refl _)

theorem ids_buildTodoStateFromPlan {plan : ExecutionPlan} (hnd : plan.ids.Nodup) :
    (buildTodoStateFromPlan plan).ids.Perm plan.ids := by
  have hids : (buildTodoStateFromPlan plan).ids = (orderedPlanSteps plan).map (·.stepId) := by
    simp [buildTodoStateFromPlan, TodoState.ids]
  rw [hids]
  exact (orderedPlanSteps_perm hnd).map _

theorem status_buildTodoStateFromPlan {plan : ExecutionPlan} {step : TodoStep}
    (h : step ∈ (buildTodoStateFromPlan plan).steps) : step.status = .pending := by
  obtain ⟨planStep, -, rfl⟩ := List.mem_map.mp h
  rfl

end NeuralHub.Plan
