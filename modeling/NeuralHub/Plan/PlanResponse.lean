/-
NeuralHub.Plan.PlanResponse — which plan a text is taken for:
`parse_plan_response` of `plan_prompt.py`.

Up to three parts of the text are tried, one after the other: the whole
text, its first code block, and the first object in it whose braces are
balanced. The parsers of the two notations are not part of the code and are
parameters here; what `ast.literal_eval` reads is taken for a JSON value, a
tuple for a list. A refusal is a `PlanParseError`; an error of another kind
that a parser raises is not caught.
-/
import NeuralHub.Plan.PlanData

namespace NeuralHub.Plan

open NeuralHub.Lib

/-! ## Candidates -/

/-- `_balanced_object_at`, with the braces that are open. -/
def balancedObject : (depth : Nat) → Scan → List Char → Option (List Char)
  | _, _, [] => none
  | depth, .escaped, c :: rest => (balancedObject depth .inside rest).map (c :: ·)
  | depth, .inside, c :: rest =>
    let next := if c = '\\' then .escaped else if c = '"' then .outside else .inside
    (balancedObject depth next rest).map (c :: ·)
  | depth, .outside, c :: rest =>
    if c = '"' then (balancedObject depth .inside rest).map (c :: ·)
    else if c = '\x7b' then (balancedObject (depth + 1) .outside rest).map (c :: ·)
    else if c = '\x7d' then
      if depth = 1 then some [c] else (balancedObject (depth - 1) .outside rest).map (c :: ·)
    else (balancedObject depth .outside rest).map (c :: ·)

/-- `_extract_first_json_object`. -/
def extractFirstJsonObject : List Char → List Char
  | [] => []
  | c :: rest =>
    if c = '\x7b' then
      match balancedObject 0 .outside (c :: rest) with
      | some block => block
      | none => extractFirstJsonObject rest
    else extractFirstJsonObject rest

/-- What stands in front of the first three backquotes, and what behind them. -/
def splitFence : List Char → Option (List Char × List Char)
  | '\x60' :: '\x60' :: '\x60' :: rest => some ([], rest)
  | c :: rest => (splitFence rest).map fun parts => (c :: parts.1, parts.2)
  | [] => none

/-- The word `json`, in any case; the long s is an s there. -/
def dropJsonWord : List Char → List Char
  | j :: s :: o :: n :: rest =>
    if j ∈ ['j', 'J'] ∧ s ∈ ['s', 'S', '\u017f'] ∧ o ∈ ['o', 'O'] ∧ n ∈ ['n', 'N'] then rest
    else j :: s :: o :: n :: rest
  | text => text

/-- `_extract_code_block`. A text that has one fence only has no code block. -/
def extractCodeBlock (content : List Char) : List Char :=
  match (splitFence content).bind fun parts => splitFence parts.2 with
  | some (block, _) => Text.strip (dropJsonWord block)
  | none => []

/-- `_json_candidates`. -/
def jsonCandidates (content : List Char) : List (List Char) :=
  [Text.strip content, extractCodeBlock content, extractFirstJsonObject content].filter (· ≠ [])

/-! ## Data -/

/-- What a parser makes of a text. -/
inductive Reading (ε : Type)
  | value (data : Json)
  /-- the error that is caught -/
  | refused (error : ε)
  /-- another exception -/
  | raised
  deriving DecidableEq, Repr

structure Readers where
  /-- `json.loads`, with the position and the message of its `JSONDecodeError` -/
  loads : List Char → Reading (Nat × String)
  /-- `ast.literal_eval`, with its `SyntaxError` or `ValueError` -/
  literalEval : List Char → Reading Unit
  /-- what pydantic takes for an `int` -/
  intField : Json → Option Int
  /-- the text of pydantic's error -/
  refusal : Json → String

/-- `_load_plan_candidate`. -/
def loadPlanCandidate (readers : Readers) (candidate : List Char) : Reading (Nat × String) :=
  match readers.loads candidate with
  | .refused jsonError =>
    match readers.literalEval candidate with
    | .value data => .value data
    | .refused () => .refused jsonError
    | .raised => .raised
  | reading => reading

def setDefault (key : String) (value : Json) : Members → Members
  | .nil => .cons key value .nil
  | .cons name old rest =>
    if name = key then .cons name old rest else .cons name old (setDefault key value rest)

/-- `bool(value)`. The only floats that are false are the two zeros. -/
def truthy : Json → Bool
  | .null => false
  | .bool b => b
  | .int n => n ≠ 0
  | .float (.finite x) => x.text ≠ "0.0".toList ∧ x.text ≠ "-0.0".toList
  | .float _ => true
  | .str s => s ≠ ""
  | .arr items => items ≠ .nil
  | .obj members => members ≠ .nil

/-- `_validate_plan`, with the message of its `PlanParseError`. -/
def validatePlan (readers : Readers) : Json → Except String ExecutionPlan
  | .obj members =>
    let normalized := setDefault "version" (.int 1) (setDefault "data_structures" (.str "")
      (setDefault "approach" (.arr .nil) (setDefault "goal" (.str "") members)))
    if (normalized.get? "steps").any truthy then
      match modelValidate readers.intField (.obj normalized) with
      | some plan => .ok plan
      | none => .error (readers.refusal (.obj normalized))
    else .error "Plan response must contain at least one step"
  | _ => .error "Plan response root must be a JSON object"

/-! ## Answers -/

inductive ParseError
  /-- `PlanParseError` -/
  | planParse (message : String)
  /-- what a parser raised -/
  | uncaught
  deriving DecidableEq, Repr

/-- The loop of `parse_plan_response`. -/
def tryCandidates (readers : Readers) :
    List (List Char) → (errors : List String) → Except ParseError ExecutionPlan
  | [], errors =>
    let detail := if errors = [] then "No JSON object found" else "; ".intercalate errors
    .error (.planParse ("Unable to parse execution plan: " ++ detail))
  | candidate :: rest, errors =>
    match loadPlanCandidate readers candidate with
    | .raised => .error .uncaught
    | .refused (pos, message) =>
      tryCandidates readers rest
        (errors ++ ["JSON parse failed at " ++ toString pos ++ ": " ++ message])
    | .value data =>
      match validatePlan readers data with
      | .ok plan => .ok plan
      | .error message => tryCandidates readers rest (errors ++ [message])

def parsePlanResponse (readers : Readers) (content : List Char) : Except ParseError ExecutionPlan :=
  tryCandidates readers (jsonCandidates content) []

/-! ## Accepted texts -/

/-- One of the candidates is read as this data. -/
def ReadFrom (readers : Readers) (content : List Char) (data : Json) : Prop :=
  ∃ candidate ∈ jsonCandidates content, loadPlanCandidate readers candidate = .value data

variable {readers : Readers} {plan : ExecutionPlan}

theorem tryCandidates_eq_ok {candidates : List (List Char)} {errors : List String}
    (h : tryCandidates readers candidates errors = .ok plan) :
    ∃ candidate ∈ candidates, ∃ data,
      loadPlanCandidate readers candidate = .value data ∧ validatePlan readers data = .ok plan := by
  induction candidates generalizing errors with
  | nil => cases h
  | cons candidate rest ih =>
    rw [tryCandidates] at h
    split at h
    · cases h
    · obtain ⟨other, hmem, hdata⟩ := ih h
      exact ⟨other, List.mem_cons_of_mem _ hmem, hdata⟩
    · rename_i data hload
      split at h
      · rename_i found hvalid
        cases h
        exact ⟨candidate, List.mem_cons_self, data, hload, hvalid⟩
      · obtain ⟨other, hmem, hdata⟩ := ih h
        exact ⟨other, List.mem_cons_of_mem _ hmem, hdata⟩

/-- An accepted text has data in it that is the plan. -/
theorem readFrom_of_parsePlanResponse {content : List Char}
    (h : parsePlanResponse readers content = .ok plan) :
    ∃ data, ReadFrom readers content data ∧ validatePlan readers data = .ok plan := by
  obtain ⟨candidate, hmem, data, hload, hvalid⟩ := tryCandidates_eq_ok h
  exact ⟨data, ⟨candidate, hmem, hload⟩, hvalid⟩

theorem get?_setDefault {key other : String} (h : other ≠ key) (value : Json)
    (members : Members) : (setDefault key value members).get? other = members.get? other := by
  induction members using Members.ind with
  | nil => simp [setDefault, Members.get?, Ne.symm h]
  | cons name old rest ih =>
    rw [setDefault]
    split
    · rfl
    · rw [Members.get?, Members.get?, ih]

/-- What an accepted text has for ids. -/
theorem writtenIds_validatePlan {data : Json} (h : validatePlan readers data = .ok plan) :
    writtenIds readers.intField data = plan.ids := by
  unfold validatePlan at h
  split at h
  · rename_i members
    dsimp only at h
    split at h
    · split at h
      · rename_i found hvalid
        cases h
        rw [← writtenIds_modelValidate hvalid]
        unfold writtenIds writtenSteps
        dsimp only
        rw [get?_setDefault (by decide), get?_setDefault (by decide), get?_setDefault (by decide),
          get?_setDefault (by decide)]
      · cases h
    · cases h
  · cases h

end NeuralHub.Plan
