/-
NeuralHub.Plan.PreviousResults — a step is told what ran before it as long
as the steps run in the order of their ids.

A step is told the results of the steps with a smaller id, out of a list
that also has what was in the directory of the plan when the execution
began. What it should be told is what was recorded since. The two agree at
every start if and only if `tellsAll` holds at each: what was recorded so
far is of steps with smaller ids, and what was in the directory of smaller
ids has been recorded again.

The runs are those that `run` begins, since what counts as recorded earlier
begins with the execution.
-/
import NeuralHub.Plan.StepResults

namespace NeuralHub.Plan

open NeuralHub.Lib

/-- Every step was told exactly what had been recorded. -/
def ToldAll (log : ResultLog) : Prop :=
  ∀ start ∈ log.told, ∀ result, result ∈ start.1 ↔ result ∈ start.2

/-- The condition, for a step that starts. -/
def tellsAll (x : State × ResultLog) (a : Action) : Prop :=
  (startsStep x.1 a).isSome = true →
    (∀ result ∈ x.2.executed, result.stepId < x.1.runner.currentStepId) ∧
      ∀ result ∈ x.2.loaded, result.stepId < x.1.runner.currentStepId →
        ∃ other ∈ x.2.executed, other.stepId = result.stepId

instance (x : State × ResultLog) (a : Action) : Decidable (tellsAll x a) :=
  inferInstanceAs (Decidable (_ → _))

/-! ## What the list holds -/

/-- What was recorded, and what was loaded of other steps. -/
def HoldsRecorded (log : ResultLog) : Prop :=
  ∀ result, result ∈ log.results ↔
    result ∈ log.executed ∨
      result ∈ log.loaded ∧ ∀ other ∈ log.executed, other.stepId ≠ result.stepId

variable {log : ResultLog}

theorem holdsRecorded_load (log : ResultLog) : HoldsRecorded log.load := by
  intro result
  simp [ResultLog.load]

theorem HoldsRecorded.record (h : HoldsRecorded log) (stepId : Int) :
    HoldsRecorded (log.record stepId) := by
  unfold ResultLog.record
  split
  · exact h
  rename_i planStep
  intro result
  dsimp only
  simp only [mem_upsertStepResult, h result]
  constructor
  · rintro (⟨hexecuted | ⟨hloaded, hother⟩, hne⟩ | rfl)
    · exact Or.inl (Or.inl ⟨hexecuted, hne⟩)
    · refine Or.inr ⟨hloaded, fun other hmem => ?_⟩
      rcases hmem with ⟨hmem, -⟩ | rfl
      · exact hother other hmem
      · exact Ne.symm hne
    · exact Or.inl (Or.inr rfl)
  · rintro ((⟨hexecuted, hne⟩ | rfl) | ⟨hloaded, hother⟩)
    · exact Or.inl ⟨Or.inl hexecuted, hne⟩
    · exact Or.inr rfl
    · refine Or.inl ⟨?_, Ne.symm (hother _ (Or.inr rfl))⟩
      by_cases hsame : ∃ other ∈ log.executed, other.stepId = result.stepId
      · obtain ⟨other, hmem, hid⟩ := hsame
        have hne : other.stepId ≠ stepId := fun heq => hother _ (Or.inr rfl) (heq ▸ hid)
        exact absurd hid (hother other (Or.inl ⟨hmem, hne⟩))
      · exact Or.inr ⟨hloaded, fun other hmem hid => hsame ⟨other, hmem, hid⟩⟩

/-- What is told and what was recorded agree exactly under the condition. -/
theorem HoldsRecorded.told_iff (h : HoldsRecorded log) (stepId : Int) :
    (∀ result, result ∈ previousResults log.results stepId ↔ result ∈ log.executed) ↔
      (∀ result ∈ log.executed, result.stepId < stepId) ∧
        ∀ result ∈ log.loaded, result.stepId < stepId →
          ∃ other ∈ log.executed, other.stepId = result.stepId := by
  have h : ∀ result, result ∈ log.results ↔ _ := h
  simp only [mem_previousResults, h]
  constructor
  · intro hall
    refine ⟨fun result hmem => ((hall result).mpr hmem).2, fun result hloaded hlt => ?_⟩
    by_contra hnone
    have hother : ∀ other ∈ log.executed, other.stepId ≠ result.stepId :=
      fun other hmem hid => hnone ⟨other, hmem, hid⟩
    exact hnone ⟨result, (hall result).mp ⟨Or.inr ⟨hloaded, hother⟩, hlt⟩, rfl⟩
  · rintro ⟨hsmaller, hreplaced⟩ result
    constructor
    · rintro ⟨hexecuted | ⟨hloaded, hother⟩, hlt⟩
      · exact hexecuted
      · obtain ⟨other, hmem, hid⟩ := hreplaced result hloaded hlt
        exact absurd hid (hother other hmem)
    · exact fun hmem => ⟨Or.inl hmem, hsmaller result hmem⟩

/-! ## Steps of the run -/

variable {cfg : Config} {x y : State × ResultLog} {a : Action}

theorem startsStep_storeAnswer (x : State × ResultLog) (a : Action) :
    startsStep x.1 (storeAnswer x a) = startsStep x.1 a := by
  unfold storeAnswer
  split
  · rename_i hrefused
    unfold refusesResult at hrefused
    split at hrefused
    · rename_i hpoint
      simp [startsStep, hpoint]
    · cases hrefused.2
  · rfl

/-- What a step adds to the log. -/
theorem updateLog_cases (s : State) (a : Action) (log : ResultLog) :
    (startsStep s a = none ∧ (updateLog s a log).told = log.told ∧
        (HoldsRecorded log → HoldsRecorded (updateLog s a log))) ∨
      ∃ planStep title, startsStep s a = some planStep ∧
        updateLog s a log = log.start s.runner.currentStepId title planStep := by
  unfold updateLog
  split
  · rename_i hpoint
    exact Or.inl ⟨by simp [startsStep, hpoint], rfl, fun _ => holdsRecorded_load log⟩
  · split
    · rename_i hnone
      exact Or.inl ⟨hnone, rfl, fun h => h⟩
    · rename_i planStep hstarts
      exact Or.inr ⟨planStep, _, hstarts, rfl⟩
  · rename_i hpoint
    refine Or.inl ⟨by simp [startsStep, hpoint], ?_, fun h => h.record _⟩
    unfold ResultLog.record
    split <;> rfl
  · rename_i happroved hstarting hrecording
    refine Or.inl ⟨?_, rfl, fun h => h⟩
    unfold startsStep
    split
    · rename_i index hpoint
      exact (hstarting index hpoint rfl).elim
    · rfl

/-- What is kept along a run. -/
def TellsRecorded (x : State × ResultLog) : Prop := ToldAll x.2 ∧ HoldsRecorded x.2

theorem told_start (stepId : Int) (title : String) (planStep : PlanStep) :
    ToldAll (log.start stepId title planStep) ↔ ToldAll log ∧
      ∀ result, result ∈ previousResults log.results stepId ↔ result ∈ log.executed := by
  simp [ToldAll, ResultLog.start, or_imp, forall_and]

theorem step_resultsMachine (h : (resultsMachine cfg).step x a = some y) :
    y.2 = updateLog x.1 (storeAnswer x a) x.2 := by
  obtain ⟨t, -, rfl⟩ := Option.map_eq_some_iff.mp h
  rfl

theorem tellsRecorded_step (h : TellsRecorded x) (htells : tellsAll x a)
    (hstep : (resultsMachine cfg).step x a = some y) : TellsRecorded y := by
  obtain ⟨htold, hholds⟩ := h
  rw [TellsRecorded, step_resultsMachine hstep]
  rcases updateLog_cases x.1 (storeAnswer x a) x.2 with
    ⟨-, hsame, hkept⟩ | ⟨planStep, title, hstarts, heq⟩
  · refine ⟨?_, hkept hholds⟩
    rw [ToldAll, hsame]
    exact htold
  · rw [startsStep_storeAnswer] at hstarts
    rw [heq]
    refine ⟨(told_start _ _ _).mpr ⟨htold, (hholds.told_iff _).mpr (htells ?_)⟩, hholds⟩
    rw [hstarts]
    rfl

theorem not_toldAll_step (h : TellsRecorded x) (hnot : ¬tellsAll x a)
    (hstep : (resultsMachine cfg).step x a = some y) : ¬ToldAll y.2 := by
  obtain ⟨-, hholds⟩ := h
  obtain ⟨hstarts, hfails⟩ := Classical.not_imp.mp hnot
  rw [step_resultsMachine hstep]
  rcases updateLog_cases x.1 (storeAnswer x a) x.2 with ⟨hnone, -⟩ | ⟨planStep, title, -, heq⟩
  · rw [startsStep_storeAnswer] at hnone
    rw [hnone] at hstarts
    cases hstarts
  · rw [heq]
    exact fun htold => hfails ((hholds.told_iff _).mp ((told_start _ _ _).mp htold).2)

/-- In a run from the beginning, every step is told exactly what was recorded before it, if and
only if the condition is met whenever a step starts. -/
theorem told_iff_tellsAll {files : List StepResult} {pauseRequested approved : Bool}
    {as : List Action}
    (hrun : (resultsMachine cfg).run (⟨{ pauseRequested, approved }, .idle⟩, { files }) as = some y) :
    (resultsMachine cfg).Always (fun x => ToldAll x.2)
        (⟨{ pauseRequested, approved }, .idle⟩, { files }) as ↔
      (resultsMachine cfg).Meets tellsAll (⟨{ pauseRequested, approved }, .idle⟩, { files }) as := by
  have hinit : TellsRecorded (⟨{ pauseRequested, approved }, .idle⟩, { files }) := by
    constructor
    · intro start hmem
      cases hmem
    · intro result
      simp
  exact (resultsMachine cfg).always_iff_meets (fun _ h => h.1)
    (fun _ _ _ h htells hstep => tellsRecorded_step h htells hstep)
    (fun _ _ _ h hnot hstep => not_toldAll_step h hnot hstep) hinit hrun

/-- Two steps, the first of which needs `deps`. -/
def writeAndRead (deps : List String) : ExecutionPlan where
  steps := [{ stepId := 1, title := "write", description := "", dependsOn := deps },
    { stepId := 2, title := "read", description := "" }]

def executeBoth (deps : List String) : List Action :=
  beginExecution (writeAndRead deps) ++ executeStep .stepDone ++ executeStep .stepDone

/-- In the order of their ids the second step is told of the first. -/
theorem told_inOrder : ∃ y,
    (resultsMachine { requireConfirmation := false }).run (⟨{}, .idle⟩, { files := [] })
        (executeBoth []) = some y ∧
      (resultsMachine { requireConfirmation := false }).Always (fun x => ToldAll x.2)
        (⟨{}, .idle⟩, { files := [] }) (executeBoth []) ∧
      y.2.told = [([], []), ([⟨1, 0, "write"⟩], [⟨1, 0, "write"⟩])] := by
  obtain ⟨y, hrun, htold⟩ := Option.map_eq_some_iff.mp
    (show ((resultsMachine { requireConfirmation := false }).run (⟨{}, .idle⟩, { files := [] })
        (executeBoth [])).map (fun y => y.2.told) =
      some [([], []), ([⟨1, 0, "write"⟩], [⟨1, 0, "write"⟩])] by decide)
  exact ⟨y, hrun, (told_iff_tellsAll hrun).mpr (by decide), htold⟩

/-- The first step needs the second, which runs before it, and is told nothing of it. -/
theorem dependency_notTold : ∃ y,
    (resultsMachine { requireConfirmation := false }).run (⟨{}, .idle⟩, { files := [] })
        (executeBoth ["step_2"]) = some y ∧ ¬ToldAll y.2 := by
  obtain ⟨y, hrun, htold⟩ := Option.map_eq_some_iff.mp
    (show ((resultsMachine { requireConfirmation := false }).run (⟨{}, .idle⟩, { files := [] })
        (executeBoth ["step_2"])).map (fun y => y.2.told) =
      some [([], []), ([], [⟨2, 0, "read"⟩])] by decide)
  refine ⟨y, hrun, fun hall => ?_⟩
  rw [ToldAll, htold] at hall
  have hmem := (hall ([], [⟨2, 0, "read"⟩]) (by simp) ⟨2, 0, "read"⟩).mpr (by simp)
  cases hmem

end NeuralHub.Plan
