/-
NeuralHub.Plan.TodoUpdateTheorems — what a call of `TodoUpdate` can do.

`Change` lists the three things a call that is accepted does to the two
lists: it retitles a step, puts in a new one, or takes one out; the step
it retitles or takes out is not locked. `todoUpdate_eq` is the inversion
lemma, and every later proof about the tool starts from it.

The plan and the todo list stay `Aligned`: they have the same ids, each of
them once. A new step gets an id above all of these.
-/
import NeuralHub.Plan.TodoUpdate
import Mathlib.Data.List.InsertIdx
import Mathlib.Data.List.Nodup
import Mathlib.Data.List.Perm.Basic

namespace NeuralHub.Plan

variable {plan plan' : ExecutionPlan} {todo todo' : TodoState} {args : TodoUpdateArgs}

/-! ## Lists -/

theorem map_modifyFirst {α β : Type} {p : α → Bool} {f : α → α} {g : α → β}
    (h : ∀ x, g (f x) = g x) (xs : List α) : (modifyFirst p f xs).map g = xs.map g := by
  induction xs with
  | nil => rfl
  | cons x xs ih =>
    rw [modifyFirst]
    split
    · rw [List.map_cons, List.map_cons, h]
    · rw [List.map_cons, List.map_cons, ih]

/-- What does not fit the condition stands in front of the element that is changed. -/
theorem modifyFirst_append {α : Type} {p : α → Bool} {f : α → α} {front : List α}
    (h : ∀ x ∈ front, p x = false) (rest : List α) :
    modifyFirst p f (front ++ rest) = front ++ modifyFirst p f rest := by
  induction front with
  | nil => rfl
  | cons x front ih =>
    rw [List.cons_append, modifyFirst, h x List.mem_cons_self,
      ih fun y hy => h y (List.mem_cons_of_mem x hy)]
    rfl

theorem insertIdx_append {α : Type} (front rest : List α) (n : Nat) (x : α) :
    (front ++ rest).insertIdx (front.length + n) x = front ++ rest.insertIdx n x := by
  induction front with
  | nil => simp
  | cons y front ih =>
    rw [List.cons_append, List.length_cons, Nat.add_right_comm, List.insertIdx_succ_cons, ih,
      List.cons_append]

theorem insertIndex_le (ids : List Int) (after : Int) : insertIndex ids after ≤ ids.length := by
  unfold insertIndex
  split
  · rename_i index h
    exact Nat.succ_le_of_lt (List.findIdx?_eq_some_iff_getElem.mp h).1
  · exact Nat.le_refl _

/-- A step whose id is not in front goes behind the first step of the rest, or further. -/
theorem insertIndex_append {front rest : List Int} {after : Int} (h : after ∉ front)
    (hrest : rest ≠ []) :
    ∃ n, insertIndex (front ++ rest) after = front.length + (n + 1) := by
  have hfront : front.findIdx? (· == after) = none := by
    rw [List.findIdx?_eq_none_iff]
    intro id hid
    exact beq_eq_false_iff_ne.mpr fun heq => h (heq ▸ hid)
  unfold insertIndex
  rw [List.findIdx?_append, hfront]
  cases hfind : rest.findIdx? (· == after) with
  | some index => exact ⟨index, by simp only [Option.map_some, Option.none_or]; omega⟩
  | none =>
    have hpos := List.length_pos_iff.mpr hrest
    refine ⟨rest.length - 1, ?_⟩
    simp only [Option.map_none, Option.none_or, List.length_append]
    omega

/-! ## What a call does -/

/-- What an accepted call does to the plan and the todo list. -/
inductive Change (plan : ExecutionPlan) (todo : TodoState) (args : TodoUpdateArgs)
    (currentStepId : Int) : ExecutionPlan → TodoState → Prop
  | retitled {stepId : Int} (hlocked : lockedStep todo stepId = false)
      {f : PlanStep → PlanStep} {g : TodoStep → TodoStep} (hf : ∀ s, (f s).stepId = s.stepId)
      (hg : ∀ s, (g s).id = s.id ∧ (g s).status = s.status) :
      Change plan todo args currentStepId
        { plan with steps := modifyFirst (·.stepId == stepId) f plan.steps }
        { todo with steps := modifyFirst (·.id == stepId) g todo.steps }
  | added {after : Int} {planStep : PlanStep} {title : String} (haction : args.action = "add")
      (htitle : stripped args.title ≠ "") (hafter : afterId args currentStepId = .ok after)
      (hid : planStep.stepId = newStepId plan) :
      Change plan todo args currentStepId
        { plan with steps := plan.steps.insertIdx (insertIndex plan.ids after) planStep }
        { todo with steps :=
            todo.steps.insertIdx (insertIndex todo.ids after) { id := newStepId plan, title } }
  | removed {stepId : Int} (hlocked : lockedStep todo stepId = false) :
      Change plan todo args currentStepId
        { plan with steps := plan.steps.filter (·.stepId != stepId) }
        { todo with steps := todo.steps.filter (·.id != stepId) }

theorem updateStep_change {currentStepId : Int} (h : updateStep args plan todo = .ok (plan', todo')) :
    Change plan todo args currentStepId plan' todo' := by
  unfold updateStep at h
  cases hint : intArg args.stepId with
  | error message =>
    rw [hint] at h
    cases h
  | ok stepId =>
    rw [hint] at h
    cases stepId with
    | none => cases h
    | some stepId =>
      simp only [bind, Except.bind] at h
      split at h
      · cases h
      · split at h
        · cases h
        · rename_i hlocked
          cases h
          exact .retitled (Bool.not_eq_true _ ▸ hlocked) (fun _ => rfl) fun _ => ⟨rfl, rfl⟩

theorem addStep_change {currentStepId : Int} (haction : args.action = "add")
    (h : addStep args currentStepId plan todo = .ok (plan', todo')) :
    Change plan todo args currentStepId plan' todo' := by
  unfold addStep at h
  dsimp only at h
  split at h
  · cases h
  · rename_i htitle
    cases hafter : afterId args currentStepId with
    | error message =>
      rw [hafter] at h
      cases h
    | ok after =>
      rw [hafter] at h
      cases h
      exact .added haction htitle hafter rfl

theorem removeStep_change {currentStepId : Int} (h : removeStep args plan todo = .ok (plan', todo')) :
    Change plan todo args currentStepId plan' todo' := by
  unfold removeStep at h
  cases hint : intArg args.stepId with
  | error message =>
    rw [hint] at h
    cases h
  | ok stepId =>
    rw [hint] at h
    cases stepId with
    | none => cases h
    | some stepId =>
      simp only [bind, Except.bind] at h
      split at h
      · cases h
      · rename_i hlocked
        cases h
        exact .removed (Bool.not_eq_true _ ▸ hlocked)

theorem applyUpdate_change {currentStepId : Int}
    (h : applyUpdate args currentStepId plan todo = .ok (plan', todo')) :
    Change plan todo args currentStepId plan' todo' := by
  unfold applyUpdate at h
  split at h
  · exact updateStep_change h
  · split at h
    · rename_i haction
      exact addStep_change haction h
    · split at h
      · exact removeStep_change h
      · cases h

/-- A call is refused and changes nothing, or makes one `Change`. -/
theorem todoUpdate_eq (r : Runner) (args : TodoUpdateArgs) :
    (todoUpdate r args).1 = r ∨
      ∃ plan todo plan' todo', r.plan = some plan ∧ r.todo = some todo ∧
        r.todoUpdateCount < maxTodoUpdates ∧
        Change plan todo args r.currentStepId plan' todo' ∧
        (todoUpdate r args).1 =
          { r with
            plan := some { plan' with version := plan'.version + 1 }
            todo := some todo'
            todoUpdateCount := r.todoUpdateCount + 1 } := by
  unfold todoUpdate
  split
  · exact Or.inl rfl
  · rename_i hcount
    split
    · rename_i plan todo hplan htodo
      split
      · exact Or.inl rfl
      · rename_i plan' todo' h
        exact Or.inr ⟨plan, todo, plan', todo', hplan, htodo, Nat.lt_of_not_le hcount,
          applyUpdate_change h, rfl⟩
    · exact Or.inl rfl

/-! ## Alignment -/

/-- The plan and the todo list have the same ids, each of them once. -/
structure Aligned (plan : ExecutionPlan) (steps : List TodoStep) : Prop where
  planNodup : plan.ids.Nodup
  nodup : (steps.map (·.id)).Nodup
  same : ∀ id, id ∈ steps.map (·.id) ↔ id ∈ plan.ids

theorem Aligned.map {steps : List TodoStep} (h : Aligned plan steps) {f : TodoStep → TodoStep}
    (hf : ∀ step, (f step).id = step.id) : Aligned plan (steps.map f) := by
  have hids : (steps.map f).map (·.id) = steps.map (·.id) := by
    rw [List.map_map]
    exact List.map_congr_left fun step _ => hf step
  exact ⟨h.planNodup, hids ▸ h.nodup, hids ▸ h.same⟩

theorem newStepId_notMem (plan : ExecutionPlan) : newStepId plan ∉ plan.ids := by
  intro h
  unfold newStepId at h
  cases hmax : plan.ids.max? with
  | none =>
    rw [List.max?_eq_none_iff.mp hmax] at h
    cases h
  | some m =>
    rw [hmax, Option.getD_some] at h
    have hle := (List.max?_eq_some_iff.mp hmax).2 _ h
    omega

theorem nodup_insertIdx {ids : List Int} (h : ids.Nodup) {id : Int} (hid : id ∉ ids) {n : Nat}
    (hn : n ≤ ids.length) : (ids.insertIdx n id).Nodup :=
  (List.perm_insertIdx id ids hn).nodup_iff.mpr (List.nodup_cons.mpr ⟨hid, h⟩)

theorem Change.aligned {currentStepId : Int} (hchange : Change plan todo args currentStepId plan' todo')
    (h : Aligned plan todo.steps) : Aligned plan' todo'.steps := by
  cases hchange with
  | retitled hlocked hf hg =>
    have hplan : ∀ (p : PlanStep → Bool) f, (∀ s, (PlanStep.stepId (f s)) = s.stepId) →
        (modifyFirst p f plan.steps).map (·.stepId) = plan.ids := fun p f hf =>
      map_modifyFirst hf plan.steps
    refine ⟨?_, ?_, fun id => ?_⟩
    · rw [ExecutionPlan.ids, hplan _ _ hf]
      exact h.planNodup
    · rw [map_modifyFirst fun s => (hg s).1]
      exact h.nodup
    · rw [map_modifyFirst fun s => (hg s).1, ExecutionPlan.ids, hplan _ _ hf]
      exact h.same id
  | @added after planStep title haction htitle hafter hid =>
    have hnew := newStepId_notMem plan
    have hnew' : newStepId plan ∉ todo.ids := fun hmem => hnew ((h.same _).mp hmem)
    have hplan : (plan.steps.insertIdx (insertIndex plan.ids after) planStep).map (·.stepId) =
        plan.ids.insertIdx (insertIndex plan.ids after) (newStepId plan) := by
      rw [List.map_insertIdx, hid]
      rfl
    have htodo : (todo.steps.insertIdx (insertIndex todo.ids after)
        { id := newStepId plan, title : TodoStep }).map (·.id) =
        todo.ids.insertIdx (insertIndex todo.ids after) (newStepId plan) :=
      List.map_insertIdx ..
    refine ⟨?_, ?_, fun id => ?_⟩
    · rw [ExecutionPlan.ids, hplan]
      exact nodup_insertIdx h.planNodup hnew (insertIndex_le _ _)
    · rw [htodo]
      exact nodup_insertIdx h.nodup hnew' (insertIndex_le _ _)
    · rw [htodo, ExecutionPlan.ids, hplan, List.mem_insertIdx (insertIndex_le _ _),
        List.mem_insertIdx (insertIndex_le _ _)]
      exact or_congr_right (h.same id)
  | @removed stepId hlocked =>
    have hplan : (plan.steps.filter (·.stepId != stepId)).map (·.stepId) =
        plan.ids.filter (· != stepId) := by
      rw [ExecutionPlan.ids, List.filter_map]
      rfl
    have htodo : (todo.steps.filter (·.id != stepId)).map (·.id) =
        (todo.steps.map (·.id)).filter (· != stepId) := by
      rw [List.filter_map]
      rfl
    refine ⟨?_, ?_, fun id => ?_⟩
    · rw [ExecutionPlan.ids, hplan]
      exact h.planNodup.filter _
    · rw [htodo]
      exact h.nodup.filter _
    · rw [htodo, ExecutionPlan.ids, hplan, List.mem_filter, List.mem_filter, h.same id]

/-! ## Locked steps -/

/-- With distinct ids, a step that is not locked is not the one with a locked status. -/
theorem id_ne_of_locked (hnd : todo.ids.Nodup) {stepId : Int}
    (hlocked : lockedStep todo stepId = false) {step : TodoStep} (hmem : step ∈ todo.steps)
    (hstatus : step.status.locked = true) : step.id ≠ stepId := by
  intro heq
  have hfind : todo.steps.find? (·.id == stepId) = some step := by
    cases hfind : todo.steps.find? (·.id == stepId) with
    | none =>
      have hnone := List.find?_eq_none.mp hfind step hmem
      simp [heq] at hnone
    | some other =>
      have hother := List.find?_some hfind
      have hid : other.id = step.id := (beq_iff_eq.mp hother).trans heq.symm
      exact congrArg some (List.inj_on_of_nodup_map hnd (List.mem_of_find?_eq_some hfind) hmem hid)
  simp [lockedStep, hfind, hstatus] at hlocked

end NeuralHub.Plan
