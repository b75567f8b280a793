/-
NeuralHub.Plan.ParseTotal — what comes of parsing a plan, for every text.

`parse_total_iff`: `parse_plan_response` ends with a plan of at least one
step or with a `PlanParseError` unless a parser raises another exception on
a candidate that is tried: `json.loads` besides its `JSONDecodeError`, or
`ast.literal_eval` besides `SyntaxError` and `ValueError`. The first happens
with texts that are nested too deeply and with integers that have too many
digits, the second with an unhashable key.

`extractFirstJsonObject_exact` is the scanner: of a text in which nothing
opens a brace in front of an object it gives back exactly the object.
-/
import NeuralHub.Lib.Braced
import NeuralHub.Plan.PlanResponse

namespace NeuralHub.Plan

open NeuralHub.Lib

/-! ## The scanner -/

variable {depth : Nat} {body rest d : List Char}

theorem balancedObject_outside (depth : Nat) (c : Char) (rest : List Char) :
    balancedObject depth .outside (c :: rest) =
      if c = '"' then (balancedObject depth .inside rest).map (c :: ·)
      else if c = '\x7b' then (balancedObject (depth + 1) .outside rest).map (c :: ·)
      else if c = '\x7d' then
        if depth = 1 then some [c] else (balancedObject (depth - 1) .outside rest).map (c :: ·)
      else (balancedObject depth .outside rest).map (c :: ·) := rfl

/-- A string is stepped over. -/
theorem balancedObject_inside (hbody : StringBody body) :
    balancedObject depth .inside (body ++ '"' :: rest) =
      (balancedObject depth .outside rest).map (body ++ '"' :: ·) := by
  induction hbody with
  | nil => simp [balancedObject]
  | plain hquote hback _ ih => simp [balancedObject, hquote, hback, ih, Function.comp_def]
  | escape _ ih => simp [balancedObject, ih, Function.comp_def]

/-- A braced text inside of an object is stepped over. -/
theorem balancedObject_braced (hbody : Braced body) (hdepth : 0 < depth) :
    balancedObject depth .outside (body ++ rest) =
      (balancedObject depth .outside rest).map (body ++ ·) := by
  induction hbody generalizing depth rest with
  | nil => simp
  | other hc _ ih =>
    rw [List.cons_append, balancedObject_outside, if_neg hc.1, if_neg hc.2.1, if_neg hc.2.2, ih hdepth,
      Option.map_map]
    rfl
  | string hstring _ ih =>
    rw [List.cons_append, List.append_assoc, List.cons_append, balancedObject_outside, if_pos rfl,
      balancedObject_inside hstring, ih hdepth, Option.map_map, Option.map_map]
    simp [Function.comp_def]
  | object _ _ ihbody ih =>
    rw [List.cons_append, List.append_assoc, List.cons_append, balancedObject_outside,
      if_neg (by decide), if_pos rfl, ihbody (by omega), balancedObject_outside, if_neg (by decide),
      if_neg (by decide), if_pos rfl, if_neg (by omega), Nat.add_sub_cancel, ih hdepth]
    simp [Function.comp_def]

theorem balancedObject_object (rest : List Char) (h : ObjectText d) :
    balancedObject 0 .outside (d ++ rest) = some d := by
  obtain ⟨body, rfl, hbody⟩ := h
  rw [List.cons_append, List.append_assoc, balancedObject_outside, if_neg (by decide), if_pos rfl,
    balancedObject_braced hbody (by decide), List.singleton_append, balancedObject_outside,
    if_neg (by decide), if_neg (by decide), if_pos rfl, if_pos rfl]
  rfl

theorem extractFirstJsonObject_exact {before behind : List Char} (h : ObjectText d)
    (hbefore : '\x7b' ∉ before) : extractFirstJsonObject (before ++ d ++ behind) = d := by
  induction before with
  | nil =>
    have hscan := balancedObject_object behind h
    obtain ⟨body, rfl, hbody⟩ := h
    rw [List.nil_append, List.cons_append] at *
    rw [extractFirstJsonObject, if_pos rfl, hscan]
  | cons c before ih =>
    rw [List.mem_cons, not_or] at hbefore
    rw [List.cons_append, List.cons_append, extractFirstJsonObject,
      if_neg fun heq => hbefore.1 heq.symm, ih hbefore.2]

/-! ## Every text -/

/-- A plan with a step, or a `PlanParseError`. -/
def PlanOrRefusal : Except ParseError ExecutionPlan → Prop
  | .ok plan => plan.steps ≠ []
  | .error (.planParse _) => True
  | .error .uncaught => False

instance (result : Except ParseError ExecutionPlan) : Decidable (PlanOrRefusal result) :=
  match result with
  | .ok plan => inferInstanceAs (Decidable (plan.steps ≠ []))
  | .error (.planParse _) => inferInstanceAs (Decidable True)
  | .error .uncaught => inferInstanceAs (Decidable False)

/-- A parser raises what the code does not catch. -/
def Raises (readers : Readers) (candidate : List Char) : Prop :=
  readers.loads candidate = .raised ∨
    ((∃ error, readers.loads candidate = .refused error) ∧ readers.literalEval candidate = .raised)

/-- The data of a candidate is a plan. -/
def Accepts (readers : Readers) (candidate : List Char) : Prop :=
  ∃ data plan, loadPlanCandidate readers candidate = .value data ∧
    validatePlan readers data = .ok plan

/-- No parser raises on a candidate with no plan in front of it. -/
def Caught (readers : Readers) (content : List Char) : Prop :=
  ∀ earlier candidate later, jsonCandidates content = earlier ++ candidate :: later →
    (∀ c ∈ earlier, ¬Accepts readers c) → ¬Raises readers candidate

variable {readers : Readers} {candidate content : List Char}

theorem loadPlanCandidate_eq_raised (readers : Readers) (candidate : List Char) :
    loadPlanCandidate readers candidate = .raised ↔ Raises readers candidate := by
  unfold loadPlanCandidate Raises
  cases readers.loads candidate with
  | value data => simp
  | raised => simp
  | refused error => cases readers.literalEval candidate <;> simp

theorem stepItems_ne_nil {intField : Json → Option Int} {items : Items} {steps : List PlanStep}
    (hne : items ≠ .nil) (h : stepItems intField items = some steps) : steps ≠ [] := by
  cases items with
  | nil => exact absurd rfl hne
  | cons item rest =>
    obtain ⟨step, -, h⟩ := Option.bind_eq_some_iff.mp h
    obtain ⟨steps, -, h⟩ := Option.bind_eq_some_iff.mp h
    cases h
    exact List.cons_ne_nil _ _

/-- Steps that are there and not empty stay so. -/
theorem steps_ne_nil_of_modelValidate {intField : Json → Option Int} {members : Members}
    {plan : ExecutionPlan} (hsteps : (members.get? "steps").any truthy = true)
    (h : modelValidate intField (.obj members) = some plan) : plan.steps ≠ [] := by
  unfold modelValidate at h
  obtain ⟨goal, -, h⟩ := Option.bind_eq_some_iff.mp h
  obtain ⟨approach, -, h⟩ := Option.bind_eq_some_iff.mp h
  obtain ⟨summary, -, h⟩ := Option.bind_eq_some_iff.mp h
  obtain ⟨risks, -, h⟩ := Option.bind_eq_some_iff.mp h
  obtain ⟨keyFiles, -, h⟩ := Option.bind_eq_some_iff.mp h
  obtain ⟨dataStructures, -, h⟩ := Option.bind_eq_some_iff.mp h
  obtain ⟨steps, hfield, h⟩ := Option.bind_eq_some_iff.mp h
  obtain ⟨version, -, h⟩ := Option.bind_eq_some_iff.mp h
  cases h
  unfold Members.getOr at hfield
  cases hget : members.get? "steps" with
  | none =>
    rw [hget] at hsteps
    cases hsteps
  | some value =>
    rw [hget] at hsteps hfield
    cases value with
    | arr items => exact stepItems_ne_nil (by simpa [truthy] using hsteps) hfield
    | _ => cases hfield

/-- A validated plan has a step. -/
theorem steps_ne_nil_of_validatePlan {data : Json} {plan : ExecutionPlan}
    (h : validatePlan readers data = .ok plan) : plan.steps ≠ [] := by
  unfold validatePlan at h
  split at h
  · rename_i members
    dsimp only at h
    split at h
    · rename_i htruthy
      split at h
      · rename_i found hvalid
        cases h
        exact steps_ne_nil_of_modelValidate htruthy hvalid
      · cases h
    · cases h
  · cases h

theorem tryCandidates_planOrRefusal (candidates : List (List Char)) (errors : List String) :
    PlanOrRefusal (tryCandidates readers candidates errors) ↔
      ∀ earlier candidate later, candidates = earlier ++ candidate :: later →
        (∀ c ∈ earlier, ¬Accepts readers c) → ¬Raises readers candidate := by
  induction candidates generalizing errors with
  | nil =>
    refine iff_of_true trivial fun earlier candidate later heq => ?_
    exact absurd heq.symm (by simp)
  | cons c rest ih =>
    have hraises := loadPlanCandidate_eq_raised readers c
    -- a candidate that is refused without an exception leaves the others
    have hnext (hquiet : ¬Raises readers c) (hrefused : ¬Accepts readers c) (errors : List String) :
        PlanOrRefusal (tryCandidates readers rest errors) ↔
          ∀ earlier candidate later, c :: rest = earlier ++ candidate :: later →
            (∀ x ∈ earlier, ¬Accepts readers x) → ¬Raises readers candidate := by
      rw [ih]
      constructor
      · intro h earlier candidate later heq hearlier
        cases earlier with
        | nil =>
          obtain ⟨rfl, -⟩ := List.cons.inj heq
          exact hquiet
        | cons x earlier =>
          obtain ⟨rfl, htail⟩ := List.cons.inj heq
          exact h earlier candidate later htail fun y hy =>
            hearlier y (List.mem_cons_of_mem _ hy)
      · intro h earlier candidate later heq hearlier
        refine h (c :: earlier) candidate later (congrArg (c :: ·) heq) fun y hy => ?_
        rcases List.mem_cons.mp hy with rfl | hy
        · exact hrefused
        · exact hearlier y hy
    rw [tryCandidates]
    cases hload : loadPlanCandidate readers c with
    | raised =>
      refine iff_of_false id fun h => ?_
      exact h [] c rest rfl (fun _ hx => absurd hx List.not_mem_nil) (hraises.mp hload)
    | refused error =>
      refine hnext (fun hr => ?_) (fun haccepts => ?_) _
      · rw [hraises.mpr hr] at hload
        cases hload
      · obtain ⟨data, plan, hdata, -⟩ := haccepts
        rw [hdata] at hload
        cases hload
    | value data =>
      have hquiet : ¬Raises readers c := by
        intro hr
        rw [hraises.mpr hr] at hload
        cases hload
      dsimp only
      cases hvalid : validatePlan readers data with
      | ok plan =>
        refine iff_of_true (steps_ne_nil_of_validatePlan hvalid) ?_
        intro earlier candidate later heq hearlier
        cases earlier with
        | nil =>
          obtain ⟨rfl, -⟩ := List.cons.inj heq
          exact hquiet
        | cons x earlier =>
          obtain ⟨rfl, -⟩ := List.cons.inj heq
          exact absurd ⟨data, plan, hload, hvalid⟩ (hearlier c List.mem_cons_self)
      | error message =>
        refine hnext hquiet (fun haccepts => ?_) _
        obtain ⟨other, plan, hother, hplan⟩ := haccepts
        rw [hload] at hother
        cases hother
        rw [hvalid] at hplan
        cases hplan

/-- **Every text gives a plan or a `PlanParseError`** if no parser raises another
exception, and an object is found where it stands. -/
theorem parse_total_iff (readers : Readers) (content : List Char) :
    (PlanOrRefusal (parsePlanResponse readers content) ↔ Caught readers content) ∧
      ∀ before d behind, ObjectText d → '\x7b' ∉ before →
        extractFirstJsonObject (before ++ d ++ behind) = d :=
  ⟨tryCandidates_planOrRefusal _ _, fun _ _ _ h hbefore => extractFirstJsonObject_exact h hbefore⟩

/-- The parsers as they are on one text: JSON has no key without quotes, and a
list cannot be a key of a dictionary. -/
def listKeyReaders : Readers where
  loads text :=
    if text = "\x7b[]: 1\x7d".toList then
      .refused (1, "Expecting property name enclosed in double quotes")
    else .raised
  literalEval _ := .raised
  intField _ := none
  refusal _ := ""

/-- `TypeError: unhashable type: 'list'` is not caught. -/
theorem unhashable_key_uncaught :
    ¬PlanOrRefusal (parsePlanResponse listKeyReaders "\x7b[]: 1\x7d".toList) := by
  decide +kernel

end NeuralHub.Plan
