/-
NeuralHub.Plan.PlanData — what plan data is accepted: the validators of
`plan_models.py` and `_validate_plan` of `plan_prompt.py`.

Plan data is a JSON value. The models themselves are pydantic's, so a
field of type `str`, `list[str]`, `dict` or `Literal` takes the values of
that type and no others; `list` and `dict` fields may be absent. What an
`int` field takes besides integers is pydantic's own affair, and
`intField` stands for it; `none` is a refusal. A validator that raises an
error refuses as well.

Of the fields that no step of a run reads only the check is here.
-/
import NeuralHub.Plan.Types
import NeuralHub.Lib.Text

namespace NeuralHub.Plan

open NeuralHub.Lib

/-! ## Fields -/

def strField : Json → Option String
  | .str s => some s
  | _ => none

def strItems : Items → Option (List String)
  | .nil => some []
  | .cons item rest => do return (← strField item) :: (← strItems rest)

def strListField : Json → Option (List String)
  | .arr items => strItems items
  | _ => none

def dictField : Json → Option Members
  | .obj members => some members
  | _ => none

def typeField : Json → Option StepType
  | .str "script_step" => some .scriptStep
  | .str "agent_step" => some .agentStep
  | _ => none

/-! ## Steps -/

/-- `_parse_step_id`. The text of a value that is no text and no number is no number either. -/
def parseStepId : Json → Option Int
  | .int n => some n
  | .bool b => some (if b then 1 else 0)
  | .str s =>
    let text := Text.strip s.toList
    Text.parseInt (if "step_".toList.isPrefixOf text then text.drop "step_".length else text)
  | _ => none

variable (intField : Json → Option Int)

/-- `step_id`, or what `normalize_recon_step` makes of `id`. -/
def stepIdField (members : Members) : Option Int :=
  match members.get? "step_id" with
  | some value => intField value
  | none => (members.get? "id").bind parseStepId

/-- `tools_hint`, or else `estimated_tools`. -/
def toolsHintField (members : Members) : Option (List String) :=
  match members.get? "tools_hint" with
  | some value => strListField value
  | none => members.getOr "estimated_tools" strListField []

/-- `PlanStep`. -/
def validateStep : Json → Option PlanStep
  | .obj members => do
    let stepId ← stepIdField intField members
    let title ← (members.get? "title").bind strField
    let description ← (members.get? "description").bind strField
    let toolsHint ← toolsHintField members
    let dependsOn ← members.getOr "depends_on" strListField []
    let type ← members.getOr "type" typeField .agentStep
    let toolName ← members.getOr "tool_name" strField ""
    let toolArguments ← members.getOr "tool_arguments" dictField .nil
    return { stepId, title, description, toolsHint, dependsOn, type, toolName, toolArguments }
  | _ => none

def stepItems : Items → Option (List PlanStep)
  | .nil => some []
  | .cons item rest => do return (← validateStep intField item) :: (← stepItems rest)

def stepListField : Json → Option (List PlanStep)
  | .arr items => stepItems intField items
  | _ => none

/-! ## Plans -/

/-- `PlanKeyFile`. -/
def keyFileItems : Items → Option Unit
  | .nil => some ()
  | .cons (.obj members) rest => do
    let _ ← (members.get? "path").bind strField
    let _ ← members.getOr "role" strField ""
    keyFileItems rest
  | .cons _ _ => none

def keyFilesField : Json → Option Unit
  | .arr items => keyFileItems items
  | _ => none

/-- `normalize_recon_plan` takes a text for a list of one, so it is no refusal. -/
def approachField : Json → Option (List String)
  | .str s => some (if Text.strip s.toList = [] then [] else [s])
  | value => strListField value

/-- `ExecutionPlan.model_validate`. -/
def modelValidate : Json → Option ExecutionPlan
  | .obj members => do
    let _ ← (members.get? "goal").bind strField
    let _ ← members.getOr "approach" approachField []
    let _ ← members.getOr "overall_summary" strField ""
    let _ ← members.getOr "risks" strListField []
    let _ ← members.getOr "key_files" keyFilesField ()
    let _ ← members.getOr "data_structures" strField ""
    let steps ← members.getOr "steps" (stepListField intField) []
    let version ← members.getOr "version" intField 1
    return { steps, version }
  | _ => none

/-! ## Written data -/

/-- The steps of plan data as they are written. -/
def writtenSteps : Json → List Members
  | .obj members =>
    match members.get? "steps" with
    | some (.arr items) => items.toList.filterMap dictField
    | _ => []
  | _ => []

/-- The ids of these steps, as they are read. -/
def writtenIds (data : Json) : List Int := (writtenSteps data).filterMap (stepIdField intField)

variable {intField}

theorem validateStep_eq_some {item : Json} {step : PlanStep}
    (h : validateStep intField item = some step) :
    ∃ members, item = .obj members ∧ stepIdField intField members = some step.stepId := by
  unfold validateStep at h
  split at h
  · rename_i members
    obtain ⟨stepId, hid, h⟩ := Option.bind_eq_some_iff.mp h
    obtain ⟨title, -, h⟩ := Option.bind_eq_some_iff.mp h
    obtain ⟨description, -, h⟩ := Option.bind_eq_some_iff.mp h
    obtain ⟨toolsHint, -, h⟩ := Option.bind_eq_some_iff.mp h
    obtain ⟨dependsOn, -, h⟩ := Option.bind_eq_some_iff.mp h
    obtain ⟨type, -, h⟩ := Option.bind_eq_some_iff.mp h
    obtain ⟨toolName, -, h⟩ := Option.bind_eq_some_iff.mp h
    obtain ⟨toolArguments, -, h⟩ := Option.bind_eq_some_iff.mp h
    cases h
    exact ⟨members, rfl, hid⟩
  · cases h

theorem ids_stepItems : ∀ {items : Items} {steps : List PlanStep},
    stepItems intField items = some steps →
      (items.toList.filterMap dictField).filterMap (stepIdField intField) = steps.map (·.stepId)
  | .nil, steps, h => by
    cases h
    rfl
  | .cons item rest, steps, h => by
    obtain ⟨step, hstep, h⟩ := Option.bind_eq_some_iff.mp h
    obtain ⟨steps, hrest, h⟩ := Option.bind_eq_some_iff.mp h
    cases h
    obtain ⟨members, rfl, hid⟩ := validateStep_eq_some hstep
    have hdict : dictField (.obj members) = some members := rfl
    rw [Items.toList, List.filterMap_cons_some hdict, List.filterMap_cons_some hid,
      ids_stepItems hrest, List.map_cons]

/-- The ids of a plan are the ids that are written. -/
theorem writtenIds_modelValidate {data : Json} {plan : ExecutionPlan}
    (h : modelValidate intField data = some plan) : writtenIds intField data = plan.ids := by
  unfold modelValidate at h
  split at h
  · rename_i members
    obtain ⟨goal, -, h⟩ := Option.bind_eq_some_iff.mp h
    obtain ⟨approach, -, h⟩ := Option.bind_eq_some_iff.mp h
    obtain ⟨summary, -, h⟩ := Option.bind_eq_some_iff.mp h
    obtain ⟨risks, -, h⟩ := Option.bind_eq_some_iff.mp h
    obtain ⟨keyFiles, -, h⟩ := Option.bind_eq_some_iff.mp h
    obtain ⟨dataStructures, -, h⟩ := Option.bind_eq_some_iff.mp h
    obtain ⟨steps, hsteps, h⟩ := Option.bind_eq_some_iff.mp h
    obtain ⟨version, -, h⟩ := Option.bind_eq_some_iff.mp h
    cases h
    unfold writtenIds writtenSteps ExecutionPlan.ids
    unfold Members.getOr at hsteps
    dsimp only
    split at hsteps
    · rename_i value hvalue
      rw [hvalue]
      cases value with
      | arr items => exact ids_stepItems hsteps
      | _ => cases hsteps
    · rename_i hnone
      rw [hnone]
      cases hsteps
      rfl
  · cases h

end NeuralHub.Plan
