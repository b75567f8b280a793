/-
NeuralHub.Plan.DependencyOrder — the steps of a plan come after the steps
they depend on, as far as their dependencies are recognised.

An entry of `depends_on` names a step when it is read the way ids are
read, by `_parse_step_id`. The order reads it another way: a text is
compared with the key `step_<id>`, so `step_02` and `02` name no step
there, and a dependency on no step is taken for satisfied. Recognised
dependencies are dependencies (`Recognised.dependsOn`), not the other way
round.

The rounds of `orderRounds` are the rounds of `Lib.Chains` for the
recognised dependencies, as long as a step is left that reaches no cycle:
one of these is always ready, so the whole batch is never taken instead.
-/
import Mathlib.Order.ConditionallyCompleteLattice.Basic
import Mathlib.Data.Int.ConditionallyCompleteOrder
import NeuralHub.Plan.Order
import NeuralHub.Plan.PlanData
import NeuralHub.Lib.Chains

namespace NeuralHub.Plan

open NeuralHub.Lib

/-! ## Dependencies -/

/-- An entry of `step.depends_on` is a text for the id of `other`. -/
def DependsOn (plan : ExecutionPlan) (step other : PlanStep) : Prop :=
  step ∈ plan.steps ∧ other ∈ plan.steps ∧
    ∃ dep ∈ step.dependsOn, parseStepId (.str dep) = some other.stepId

/-- An entry of `step.depends_on` is the key of `other`. -/
def Recognised (plan : ExecutionPlan) (step other : PlanStep) : Prop :=
  step ∈ plan.steps ∧ other ∈ plan.steps ∧
    ∃ dep ∈ step.dependsOn, normalizeDependency dep = stepKey other.stepId

/-- The order has every step once, and a step that reaches no cycle through
its dependencies comes after all of them. In an acyclic plan this is every step. -/
structure DependenciesFirst (plan : ExecutionPlan) : Prop where
  perm : (orderedPlanSteps plan).Perm plan.steps
  before : ∀ step ∈ plan.steps, ReachesNoCycle (DependsOn plan) step →
    ∀ other, DependsOn plan step other → ComesBefore (orderedPlanSteps plan) other step

theorem stepKey_injective {i j : Int} (h : stepKey i = stepKey j) : i = j := by
  have htext : (toString i).toList = (toString j).toList := by
    have hkey := congrArg String.toList h
    rw [stepKey, stepKey, String.toList_append, String.toList_append] at hkey
    exact List.append_cancel_left hkey
  have hread := congrArg Text.parseInt htext
  rw [Text.parseInt_toString, Text.parseInt_toString] at hread
  exact Option.some.inj hread

theorem parseStepId_of_normalizeDependency {dep : String} {id : Int}
    (h : normalizeDependency dep = stepKey id) : parseStepId (.str dep) = some id := by
  unfold normalizeDependency at h
  unfold parseStepId
  dsimp only at h ⊢
  have hkey : (stepKey id).toList = "step_".toList ++ (toString id).toList := String.toList_append
  split at h
  · rename_i hprefix
    rw [if_pos hprefix]
    have htext := congrArg String.toList h
    rw [String.toList_ofList, hkey] at htext
    have hdrop : ("step_".toList ++ (toString id).toList).drop "step_".length = (toString id).toList :=
      rfl
    rw [htext, hdrop, Text.parseInt_toString]
  · rename_i hprefix
    rw [if_neg hprefix]
    split at h
    · have htext := congrArg String.toList h
      rw [String.toList_append, hkey] at htext
      have hdigits := List.append_cancel_left htext
      rw [String.toList_ofList] at hdigits
      rw [hdigits, Text.parseInt_toString]
    · have htext := congrArg String.toList h
      rw [String.toList_ofList, hkey] at htext
      rw [htext] at hprefix
      exact absurd (by simp) hprefix

variable {plan : ExecutionPlan} {step other : PlanStep}

theorem Recognised.dependsOn (h : Recognised plan step other) : DependsOn plan step other := by
  obtain ⟨hstep, hother, dep, hdep, hkey⟩ := h
  exact ⟨hstep, hother, dep, hdep, parseStepId_of_normalizeDependency hkey⟩

/-! ## A round -/

/-- In front of a round. A step that reaches no cycle is left when its chains are long enough. -/
structure InRound (plan : ExecutionPlan) (n : Nat) (remaining : List PlanStep)
    (resolved : List Int) : Prop where
  sub : ∀ step ∈ remaining, step ∈ plan.steps
  nodup : (remaining.map (·.stepId)).Nodup
  disjoint : ∀ step ∈ remaining, step.stepId ∉ resolved
  left_iff : ∀ step ∈ plan.steps, ReachesNoCycle (DependsOn plan) step →
    (step ∈ remaining ↔ Chain (Recognised plan) n step)

variable {n : Nat} {remaining : List PlanStep} {resolved : List Int}

theorem dependencyResolved_iff (h : ∀ step ∈ remaining, step.stepId ∉ resolved) (dep : String) :
    dependencyResolved dep remaining resolved = true ↔
      ∀ other ∈ remaining, normalizeDependency dep ≠ stepKey other.stepId := by
  unfold dependencyResolved
  simp only [Bool.or_eq_true, decide_eq_true_eq, Bool.not_eq_true', decide_eq_false_iff_not,
    List.mem_map]
  constructor
  · rintro (⟨id, hid, hkey⟩ | hnot) other hother heq
    · exact h other hother (stepKey_injective (heq ▸ hkey) ▸ hid)
    · exact hnot ⟨other.stepId, ⟨other, hother, rfl⟩, heq.symm⟩
  · intro hall
    refine Or.inr ?_
    rintro ⟨id, ⟨other, hother, rfl⟩, hkey⟩
    exact hall other hother hkey.symm

def isReady (remaining : List PlanStep) (resolved : List Int) (step : PlanStep) : Bool :=
  step.dependsOn.all fun dep => dependencyResolved dep remaining resolved

/-- A step is ready when it has no recognised dependency among the steps that are left. -/
theorem InRound.ready_iff (h : InRound plan n remaining resolved) (hstep : step ∈ remaining) :
    isReady remaining resolved step = true ↔
      ∀ other ∈ remaining, ¬Recognised plan step other := by
  simp only [isReady, List.all_eq_true, dependencyResolved_iff h.disjoint]
  constructor
  · rintro hall other hother ⟨-, -, dep, hdep, hkey⟩
    exact hall dep hdep other hother hkey
  · intro hall dep hdep other hother hkey
    exact hall other hother ⟨h.sub step hstep, h.sub other hother, dep, hdep, hkey⟩

/-- The steps of the round are those without a longer chain. -/
theorem InRound.ready_iff_chain (h : InRound plan n remaining resolved) (hstep : step ∈ remaining)
    (hclear : ReachesNoCycle (DependsOn plan) step) :
    isReady remaining resolved step = true ↔
      ¬Chain (Recognised plan) (n + 1) step := by
  rw [h.ready_iff hstep]
  constructor
  · rintro hall ⟨other, hrel, hchain⟩
    have hother := (h.left_iff other hrel.2.1 (hclear.of_rel hrel.dependsOn)).mpr hchain
    exact hall other hother hrel
  · intro hchain other hother hrel
    have hclear' := hclear.of_rel hrel.dependsOn
    exact hchain ⟨other, hrel, (h.left_iff other (h.sub other hother) hclear').mp hother⟩

/-- Some step is ready while one is left that reaches no cycle. -/
theorem InRound.exists_ready (h : InRound plan n remaining resolved) (hstep : step ∈ remaining)
    (hclear : ReachesNoCycle (DependsOn plan) step) :
    (remaining.filter (isReady remaining resolved)) ≠ [] := by
  have hacc := hclear.acc fun _ _ hrel => hrel.2.1
  induction hacc with
  | intro step _ ih =>
    by_cases hready : ∀ other ∈ remaining, ¬Recognised plan step other
    · exact List.ne_nil_of_mem (List.mem_filter.mpr ⟨hstep, (h.ready_iff hstep).mpr hready⟩)
    · obtain ⟨other, hother, hrel⟩ : ∃ other ∈ remaining, Recognised plan step other := by
        simpa using hready
      exact ih other hrel.dependsOn hother (hclear.of_rel hrel.dependsOn)

/-- The round behind one that takes the ready steps. -/
theorem InRound.next {ready : List PlanStep} (h : InRound plan n remaining resolved)
    (hready : ready.Perm (remaining.filter (isReady remaining resolved))) :
    InRound plan (n + 1) (remaining.filter fun step => !decide (step.stepId ∈ ready.map (·.stepId)))
      (resolved ++ ready.map (·.stepId)) := by
  have hrest := filter_notMem_readySteps h.nodup hready
  refine ⟨fun step hstep => h.sub step (List.mem_of_mem_filter hstep),
    h.nodup.sublist (List.filter_sublist.map _), ?_, ?_⟩
  · intro step hstep hmem
    obtain ⟨hleft, hnot⟩ := List.mem_filter.mp hstep
    rcases List.mem_append.mp hmem with hmem | hmem
    · exact h.disjoint step hleft hmem
    · simp [hmem] at hnot
  · intro step hstep hclear
    rw [hrest, List.mem_filter]
    constructor
    · rintro ⟨hleft, hnot⟩
      have hchain := (not_congr (h.ready_iff_chain hleft hclear)).mp (by simpa using hnot)
      exact not_not.mp hchain
    · intro hchain
      have hleft := (h.left_iff step hstep hclear).mpr (chain_of_succ hchain)
      refine ⟨hleft, ?_⟩
      have hnot := (not_congr (h.ready_iff_chain hleft hclear)).mpr (not_not.mpr hchain)
      simpa using hnot

theorem readySteps_of_ready (h : remaining.filter (isReady remaining resolved) ≠ []) :
    readySteps remaining resolved =
      (remaining.filter (isReady remaining resolved)).insertionSort
        fun a b => a.stepId ≤ b.stepId := by
  unfold readySteps
  exact congrArg _ (if_neg h)

/-! ## All rounds -/

/-- Of two steps that reach no cycle the first is ahead of the second and does not need it. -/
def InOrder (plan : ExecutionPlan) (step other : PlanStep) : Prop :=
  ReachesNoCycle (DependsOn plan) step → ReachesNoCycle (DependsOn plan) other →
    Ahead (Recognised plan) (·.stepId) step other ∧ ¬Recognised plan step other

/-- The steps of one round stand by their ids. -/
theorem InRound.pairwise_ready (h : InRound plan n remaining resolved) :
    ((remaining.filter (isReady remaining resolved)).insertionSort
        fun a b => a.stepId ≤ b.stepId).Pairwise (InOrder plan) := by
  set ready := remaining.filter (isReady remaining resolved) with hready
  have hperm := List.perm_insertionSort (fun a b : PlanStep => a.stepId ≤ b.stepId) ready
  have hids : (ready.map (·.stepId)).Nodup := h.nodup.sublist (List.filter_sublist.map _)
  have hsorted : (ready.insertionSort fun a b => a.stepId ≤ b.stepId).Pairwise
      fun a b => a.stepId ≤ b.stepId := List.pairwise_insertionSort _ ready
  have hdistinct : (ready.insertionSort fun a b => a.stepId ≤ b.stepId).Pairwise
      fun a b => a.stepId ≠ b.stepId :=
    List.pairwise_map.mp ((hperm.map PlanStep.stepId).nodup_iff.mpr hids)
  refine (hsorted.and hdistinct).imp_of_mem fun {a b} ha hb hab hcleara hclearb => ?_
  obtain ⟨ha, haready⟩ := List.mem_filter.mp (hperm.mem_iff.mp ha)
  obtain ⟨hb, hbready⟩ := List.mem_filter.mp (hperm.mem_iff.mp hb)
  refine ⟨Or.inr ⟨fun m => ?_, lt_of_le_of_ne hab.1 hab.2⟩, (h.ready_iff ha).mp haready b hb⟩
  have hchain : ∀ step ∈ remaining, ReachesNoCycle (DependsOn plan) step →
      isReady remaining resolved step = true →
      (Chain (Recognised plan) m step ↔ m ≤ n) := by
    intro step hstep hclear hstepReady
    constructor
    · intro hm
      by_contra hlt
      exact (h.ready_iff_chain hstep hclear).mp hstepReady (chain_antitone (Nat.lt_of_not_le hlt) hm)
    · intro hm
      exact chain_antitone hm ((h.left_iff step (h.sub step hstep) hclear).mp hstep)
  rw [hchain a ha hcleara haready, hchain b hb hclearb hbready]

theorem pairwise_orderRounds {rounds : Nat} (h : InRound plan n remaining resolved)
    (hlength : remaining.length ≤ rounds) :
    (orderRounds rounds remaining resolved).Pairwise (InOrder plan) := by
  induction rounds generalizing n remaining resolved with
  | zero => exact List.Pairwise.nil
  | succ rounds ih =>
    by_cases hclear : ∃ step ∈ remaining, ReachesNoCycle (DependsOn plan) step
    · obtain ⟨step, hstep, hclear⟩ := hclear
      have hne := h.exists_ready hstep hclear
      have hready := readySteps_of_ready hne
      have hperm : (readySteps remaining resolved).Perm (remaining.filter (isReady remaining resolved)) :=
        hready ▸ List.perm_insertionSort _ _
      have hnext := h.next hperm
      have hshorter : (remaining.filter fun step =>
          !decide (step.stepId ∈ (readySteps remaining resolved).map (·.stepId))).length ≤ rounds := by
        rw [filter_notMem_readySteps h.nodup hperm]
        have hcount := (List.filter_append_perm (isReady remaining resolved) remaining).length_eq
        have hpos := List.length_pos_iff.mpr hne
        rw [List.length_append] at hcount
        omega
      rw [orderRounds, if_neg (List.ne_nil_of_mem hstep)]
      refine List.pairwise_append.mpr ⟨hready ▸ h.pairwise_ready, ih hnext hshorter, ?_⟩
      intro a ha b hb hcleara hclearb
      obtain ⟨ha, haready⟩ := List.mem_filter.mp (hperm.mem_iff.mp ha)
      have hb := (orderRounds_perm hnext.nodup hshorter).mem_iff.mp hb
      have hbchain := (hnext.left_iff b (hnext.sub b hb) hclearb).mp hb
      refine ⟨Or.inl ⟨n + 1, hbchain, (h.ready_iff_chain ha hcleara).mp haready⟩, ?_⟩
      exact (h.ready_iff ha).mp haready b (List.mem_of_mem_filter hb)
    · refine List.pairwise_of_forall_mem_list fun a ha b _ hcleara => ?_
      exact absurd ⟨a, (orderRounds_perm h.nodup hlength).mem_iff.mp ha, hcleara⟩ hclear

theorem inRound_zero (hnd : plan.ids.Nodup) : InRound plan 0 plan.steps [] :=
  ⟨fun _ hstep => hstep, hnd, fun _ _ hmem => List.not_mem_nil hmem,
    fun _ hstep _ => ⟨fun _ => trivial, fun _ => hstep⟩⟩

theorem pairwise_orderedPlanSteps (hnd : plan.ids.Nodup) :
    (orderedPlanSteps plan).Pairwise (InOrder plan) := by
  rw [orderedPlanSteps, stepDict_of_nodup hnd]
  exact pairwise_orderRounds (inRound_zero hnd) (Nat.le_refl _)

/-! ## Dependencies first -/

/-- For all plan data that is accepted and has distinct ids: dependencies come first if and only if
each dependency that is not recognised, of a step that reaches no cycle, is ahead of it by chance. -/
theorem dependenciesFirst_iff (intField : Json → Option Int) (data : Json) (plan : ExecutionPlan)
    (_ : modelValidate intField data = some plan) (hnd : plan.ids.Nodup) :
    DependenciesFirst plan ↔
      ∀ step ∈ plan.steps, ReachesNoCycle (DependsOn plan) step →
        ∀ other, DependsOn plan step other → ¬Recognised plan step other →
          Ahead (Recognised plan) (·.stepId) other step := by
  have hperm := orderedPlanSteps_perm hnd
  have horder := pairwise_orderedPlanSteps hnd
  constructor
  · intro hfirst step hstep hclear other hdep _
    have hbefore := (hfirst.before step hstep hclear other hdep).rel horder
    exact (hbefore (hclear.of_rel hdep) hclear).1
  · intro hahead
    refine ⟨hperm, fun step hstep hclear other hdep => ?_⟩
    have hne : other ≠ step := by
      rintro rfl
      exact hclear other .refl (.single hdep)
    rcases comesBefore_or (hperm.mem_iff.mpr hdep.2.1) (hperm.mem_iff.mpr hstep) hne with h | h
    · exact h
    · obtain ⟨hstepAhead, hnot⟩ := h.rel horder hclear (hclear.of_rel hdep)
      exact absurd hstepAhead (hahead step hstep hclear other hdep hnot).asymm

/-! ## Texts of ids -/

def idText (step : Members) : Option String :=
  match (step.get? "step_id").or (step.get? "id") with
  | some (.int n) => some (toString n)
  | some (.str text) => some text
  | _ => none

/-- Every entry of `depends_on` is the text of a step's id. -/
def RepeatsIdTexts (data : Json) : Prop :=
  ∀ step ∈ writtenSteps data, ∀ dep ∈ (step.getOr "depends_on" strListField []).getD [],
    ∃ other ∈ writtenSteps data, idText other = some dep

/-- An `int` field that takes integers only. -/
def wholeNumber : Json → Option Int
  | .int n => some n
  | _ => none

def stepData (id : Json) (title : String) (dependsOn : Items) : Json :=
  .obj (.cons "id" id (.cons "title" (.str title) (.cons "description" (.str "")
    (.cons "depends_on" (.arr dependsOn) .nil))))

def planData (first second : Json) : Json :=
  .obj (.cons "goal" (.str "") (.cons "steps" (.arr (.cons first (.cons second .nil))) .nil))

/-- The report needs the search, whose id is written `step_02`. -/
def paddedData : Json :=
  planData (stepData (.str "step_01") "report" (.cons (.str "step_02") .nil))
    (stepData (.str "step_02") "search" .nil)

def paddedReport : PlanStep :=
  { stepId := 1, title := "report", description := "", dependsOn := ["step_02"] }

def paddedSearch : PlanStep := { stepId := 2, title := "search", description := "" }

def paddedPlan : ExecutionPlan := ⟨[paddedReport, paddedSearch], 1⟩

theorem report_before_search :
    RepeatsIdTexts paddedData ∧ modelValidate wholeNumber paddedData = some paddedPlan ∧
      paddedPlan.ids.Nodup ∧ ¬DependenciesFirst paddedPlan := by
  refine ⟨?_, rfl, by decide, ?_⟩
  · unfold RepeatsIdTexts
    decide
  · intro hfirst
    have hclear : ReachesNoCycle (DependsOn paddedPlan) paddedReport := by
      refine reachesNoCycle_of_measure (fun step => if step.stepId = 1 then 1 else 0) ?_ _
      have hedges : ∀ a ∈ paddedPlan.steps, ∀ b ∈ paddedPlan.steps,
          (∃ dep ∈ a.dependsOn, parseStepId (.str dep) = some b.stepId) →
            (if b.stepId = 1 then 1 else 0) < if a.stepId = 1 then 1 else 0 := by decide
      exact fun a b hdep => hedges a hdep.1 b hdep.2.1 hdep.2.2
    have hdep : DependsOn paddedPlan paddedReport paddedSearch :=
      ⟨by decide, by decide, "step_02", by decide, by decide⟩
    have hbefore := hfirst.before paddedReport (by decide) hclear paddedSearch hdep
    have hids : (orderedPlanSteps paddedPlan).Pairwise fun a b => a.stepId < b.stepId := by decide
    exact absurd (hbefore.rel hids) (by decide)

/-- Without leading zeros the search comes first. -/
theorem search_before_report :
    DependenciesFirst ⟨[{ paddedReport with dependsOn := ["step_2"] }, paddedSearch], 1⟩ := by
  let data := planData (stepData (.str "step_1") "report" (.cons (.str "step_2") .nil))
    (stepData (.str "step_2") "search" .nil)
  refine (dependenciesFirst_iff wholeNumber data _ rfl (by decide)).mpr ?_
  rintro step - - other ⟨hstep, hother, hdep⟩ hnot
  have hkeys : ∀ step ∈ [{ paddedReport with dependsOn := ["step_2"] }, paddedSearch],
      ∀ other ∈ [{ paddedReport with dependsOn := ["step_2"] }, paddedSearch],
        (∃ dep ∈ step.dependsOn, parseStepId (.str dep) = some other.stepId) →
          ∃ dep ∈ step.dependsOn, normalizeDependency dep = stepKey other.stepId := by decide
  exact absurd ⟨hstep, hother, hkeys step hstep other hother hdep⟩ hnot

end NeuralHub.Plan
