/-
NeuralHub.Plan.RunTheorems — what the pieces of a run can do.

`Commanded` is what every command does at most, called or signalled: it
leaves the plan, the todo list and the running step alone, and changes the
phase only from one that is not terminal to `cancelled`. `enter_cases` and
`finish_cases` are the two outcomes of a change of phase.
-/
import NeuralHub.Plan.Run

namespace NeuralHub.Plan

open NeuralHub.Lib

variable {cfg : Config} {r t : Runner} {s s' : State} {index : Nat}

/-! ## Commands -/

structure Commanded (r t : Runner) : Prop where
  plan : t.plan = r.plan
  todo : t.todo = r.todo
  currentStepId : t.currentStepId = r.currentStepId
  phase : t.phase = r.phase ∨ (r.phase.isTerminal = false ∧ t.phase = .cancelled)

theorem commanded_cancel (r : Runner) : Commanded r r.cancel := by
  unfold Runner.cancel
  split
  · exact ⟨rfl, rfl, rfl, Or.inl rfl⟩
  · rename_i h
    exact ⟨rfl, rfl, rfl, Or.inr ⟨Bool.not_eq_true _ ▸ h, rfl⟩⟩

theorem commanded_applyControlSignal (r : Runner) : Commanded r r.applyControlSignal := by
  unfold Runner.applyControlSignal
  split
  · have h := commanded_cancel r
    exact ⟨h.plan, h.todo, h.currentStepId, h.phase⟩
  · exact ⟨rfl, rfl, rfl, Or.inl rfl⟩
  · exact ⟨rfl, rfl, rfl, Or.inl rfl⟩
  · exact ⟨rfl, rfl, rfl, Or.inl rfl⟩

theorem commanded_applyApprovalSignal (r : Runner) : Commanded r r.applyApprovalSignal.1 := by
  unfold Runner.applyApprovalSignal
  split <;> exact ⟨rfl, rfl, rfl, Or.inl rfl⟩

/-- A command is a change of the runner between two steps of the run. -/
inductive Action.IsCommand : Action → (Runner → Runner) → Prop
  | cancel : IsCommand .cancel Runner.cancel
  | pause : IsCommand .pause Runner.pause
  | resume : IsCommand .resume Runner.resume
  | approve : IsCommand .approve Runner.approve
  | reject : IsCommand .reject Runner.reject
  | signal (action : ControlAction) : IsCommand (.signal action) fun r => { r with signal := action }

theorem Action.IsCommand.commanded {a : Action} {f : Runner → Runner} (h : a.IsCommand f)
    (r : Runner) : Commanded r (f r) := by
  cases h with
  | cancel => exact commanded_cancel r
  | pause => exact ⟨rfl, rfl, rfl, Or.inl rfl⟩
  | resume => exact ⟨rfl, rfl, rfl, Or.inl rfl⟩
  | approve => exact ⟨rfl, rfl, rfl, Or.inl rfl⟩
  | reject => exact ⟨rfl, rfl, rfl, Or.inl rfl⟩
  | signal action => exact ⟨rfl, rfl, rfl, Or.inl rfl⟩

theorem command_eq_some {f : Runner → Runner} (h : command s f = some s') :
    s.point ≠ .idle ∧ s' = { s with runner := f s.runner } := by
  unfold command at h
  split at h
  · cases h
  · rename_i hp
    exact ⟨hp, (Option.some.inj h).symm⟩

/-- The steps of the machine: the run begins, a command, a call of the tool, or an answer. -/
theorem step_cases {a : Action} (h : (machine cfg).step s a = some s') :
    (a = .run ∧ s.point = .idle ∧ s' = beginRun s.runner) ∨
    (a = .resumeRun ∧ s.point = .idle ∧ s' = resumeRun s.runner) ∨
    (∃ f, a.IsCommand f ∧ s.point ≠ .idle ∧ s' = { s with runner := f s.runner }) ∨
    (∃ args index, a = .todoUpdate args ∧ s.point = .running index ∧
      s' = { s with runner := (todoUpdate s.runner args).1 }) ∨
    ∃ answer, a = .answer answer ∧ answered cfg s answer = some s' := by
  cases a with
  | run =>
    obtain ⟨hp, heq⟩ := Option.ite_none_right_eq_some.mp (h : (if _ then _ else _) = _)
    exact Or.inl ⟨rfl, hp, (Option.some.inj heq).symm⟩
  | resumeRun =>
    obtain ⟨hp, heq⟩ := Option.ite_none_right_eq_some.mp (h : (if _ then _ else _) = _)
    exact Or.inr (Or.inl ⟨rfl, hp, (Option.some.inj heq).symm⟩)
  | cancel => exact Or.inr (Or.inr (Or.inl ⟨_, .cancel, command_eq_some h⟩))
  | pause => exact Or.inr (Or.inr (Or.inl ⟨_, .pause, command_eq_some h⟩))
  | resume => exact Or.inr (Or.inr (Or.inl ⟨_, .resume, command_eq_some h⟩))
  | approve => exact Or.inr (Or.inr (Or.inl ⟨_, .approve, command_eq_some h⟩))
  | reject => exact Or.inr (Or.inr (Or.inl ⟨_, .reject, command_eq_some h⟩))
  | signal action =>
    have h : command s (fun r => { r with signal := action }) = some s' := h
    exact Or.inr (Or.inr (Or.inl ⟨_, .signal action, command_eq_some h⟩))
  | todoUpdate args =>
    have h : callTodoUpdate s args = some s' := h
    unfold callTodoUpdate at h
    split at h
    · rename_i index planStep hp hstep
      obtain ⟨-, heq⟩ := Option.ite_none_right_eq_some.mp h
      exact Or.inr (Or.inr (Or.inr (Or.inl ⟨args, index, rfl, hp, (Option.some.inj heq).symm⟩)))
    · cases h
  | answer answer => exact Or.inr (Or.inr (Or.inr (Or.inr ⟨answer, rfl, h⟩)))

theorem interrupt_eq_some (h : interrupt s = some s') :
    ∃ e, e.refusedTransition = false ∧ s' = { s with point := .raised e } := by
  unfold interrupt at h
  split at h
  · cases h
  · cases h
  · cases h
  all_goals exact ⟨_, rfl, (Option.some.inj h).symm⟩

/-! ## Phases -/

/-- A phase is entered, or the transition is refused. -/
theorem enter_cases (r : Runner) (target : PlanPhase) (wrap : RunError → RunError)
    (next : Runner → State) :
    (transition r.phase target = some target ∧
      r.enter target wrap next = next { r with phase := target }) ∨
    (transition r.phase target = none ∧
      r.enter target wrap next = ⟨r, .raised (wrap (.invalidTransition r.phase target))⟩) := by
  unfold Runner.enter
  cases htransition : transition r.phase target with
  | none => exact Or.inr ⟨rfl, by simp [Runner.setPhase, htransition]⟩
  | some phase =>
    have hphase := transition_eq_some htransition
    subst hphase
    exact Or.inl ⟨rfl, by simp [Runner.setPhase, htransition]⟩

/-- `_finish` sets the status of the todo list and the phase that belongs to it. -/
theorem finish_cases {status : TodoStatus} (h : r.finish status = some t) :
    (r.todo = none ∧ t = r) ∨
      t = { r.setTodoStatus status with phase := planStatusForFinish status } := by
  unfold Runner.finish at h
  split at h
  · rename_i htodo
    exact Or.inl ⟨htodo, (Option.some.inj h).symm⟩
  · dsimp only at h
    split at h
    · rename_i hphase
      rw [← Option.some.inj h]
      refine Or.inr ?_
      rw [← hphase]
    · exact Or.inr (Runner.phase_of_setPhase h)

@[simp] theorem cancelled_skipFrom (start : Nat) : (r.skipFrom start).cancelled = r.cancelled := rfl

@[simp] theorem phase_refreshTitles : r.refreshTitles.phase = r.phase := by
  unfold Runner.refreshTitles
  split <;> rfl

end NeuralHub.Plan
