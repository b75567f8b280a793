/-
NeuralHub.Plan.Control — commands against a running plan.

A command changes the phase between two awaits, and behind each await the
run makes its own transition. `PhaseOk` says for every await in which
phases the run can be there: the one it has set itself, or `cancelled`.
Behind most awaits the run asks first whether it is cancelled. Two places
do not: `on_recon_done` is followed by the transition to `planning`, and a
pause that comes after a cancel is followed by the one to `paused` when it
meets the run in `on_plan_approved` or at a step that is settled already.
`undisturbed` is that neither happens, and `control_safe_iff` that these
are the only refused transitions.

A terminal phase is never left, since the table has no way out of it.
-/
import NeuralHub.Plan.RunTheorems
import NeuralHub.Plan.TodoUpdateTheorems

namespace NeuralHub.Plan

open NeuralHub.Lib

variable {cfg : Config} {r t : Runner} {s s' u : State} {a : Action} {index : Nat}

/-! ## The condition -/

/-- The stored signal is applied; the run is cancelled, and a pause is
still asked for. -/
def Runner.pausedAfterCancel (r : Runner) : Bool :=
  r.applyControlSignal.phase == .cancelled && r.applyControlSignal.pauseRequested

/-- `on_recon_done` does not end in a cancelled run, and neither
`on_plan_approved` nor a step resumed from disk in one that is to pause
and has a step left. -/
def undisturbed (s : State) (a : Action) : Bool :=
  match s.point, a with
  | .reconDone _, .answer .done => s.runner.phase != .cancelled
  | .planApproved, .answer .done =>
      !(decide (0 < s.runner.steps.length) && s.runner.pausedAfterCancel)
  | .passing index, .answer .done =>
      !(decide (index + 1 < s.runner.steps.length) && s.runner.pausedAfterCancel)
  | _, _ => true

/-! ## The phases of an await -/

def PhaseOk (s : State) : Prop :=
  match s.point with
  | .idle => False
  | .reconStart | .recon | .reconDone _ =>
      s.runner.phase = .recon ∨ s.runner.phase = .cancelled
  | .planCreated | .approval =>
      s.runner.phase = .confirming ∨ s.runner.phase = .awaitingApproval ∨
        s.runner.phase = .cancelled
  | .planApproved | .passing _ | .starting _ | .running _ | .recording _ =>
      s.runner.phase = .executing ∨ s.runner.phase = .cancelled
  | .paused _ => s.runner.phase = .paused ∨ s.runner.phase = .cancelled
  | .refused | .finishing | .returned => True
  | .raised error => error.refusedTransition = false

/-- A terminal phase is kept. -/
def PhaseKept (r t : Runner) : Prop := r.phase.isTerminal = true → t.phase = r.phase

/-- The run has gone on from `r` to the await of `s`. -/
structure Led (r : Runner) (s : State) : Prop where
  ok : PhaseOk s
  kept : PhaseKept r s.runner

theorem PhaseKept.of_eq (h : t.phase = r.phase) : PhaseKept r t := fun _ => h

theorem PhaseKept.trans {r₁ r₂ r₃ : Runner} (h₁ : PhaseKept r₁ r₂) (h₂ : PhaseKept r₂ r₃) :
    PhaseKept r₁ r₃ := by
  intro hterminal
  have heq := h₁ hterminal
  rw [← heq] at hterminal ⊢
  exact h₂ hterminal

theorem Led.of_kept (h : Led t s) (hkept : PhaseKept r t) : Led r s :=
  ⟨h.ok, hkept.trans h.kept⟩

theorem Led.of_phase (h : Led t s) (hphase : t.phase = r.phase) : Led r s :=
  h.of_kept (.of_eq hphase)

theorem Commanded.kept (h : Commanded r t) : PhaseKept r t := by
  intro hterminal
  rcases h.phase with heq | ⟨hlive, -⟩
  · exact heq
  · rw [hlive] at hterminal
    cases hterminal

theorem cancelled_of_phase (h : r.phase = .cancelled) : r.cancelled = true := by
  rw [Runner.cancelled, h]
  simp

theorem live_of_targets {target : PlanPhase} (h : target ∈ r.phase.targets) :
    r.phase.isTerminal = false := by
  revert h
  cases r.phase <;> first | (intro; rfl) | (intro h; cases h)

theorem mem_targets {p target : PlanPhase} (h : r.phase = p) (htarget : target ∈ p.targets) :
    target ∈ r.phase.targets := h ▸ htarget

/-- A transition that the table has is made, and the phase was not terminal. -/
theorem led_enter {target : PlanPhase} {wrap : RunError → RunError} {next : Runner → State}
    (htarget : target ∈ r.phase.targets) (h : PhaseOk (next { r with phase := target })) :
    Led r (r.enter target wrap next) := by
  have hlive := live_of_targets htarget
  rcases enter_cases r target wrap next with ⟨-, heq⟩ | ⟨hnone, -⟩
  · rw [heq]
    refine ⟨h, fun hterminal => ?_⟩
    rw [hlive] at hterminal
    cases hterminal
  · rw [transition, if_pos htarget] at hnone
    cases hnone

/-! ## The execution -/

/-- Where `_finish_run` and the body of the loop may be reached: a run that
is not cancelled is executing. -/
def Runner.InExecution (r : Runner) : Prop :=
  r.phase = .executing ∨ r.phase = .cancelled ∨ (r.phase = .paused ∧ r.cancelled = true)

theorem finish_isSome {status : TodoStatus}
    (h : r.phase = planStatusForFinish status ∨ planStatusForFinish status ∈ r.phase.targets) :
    ∃ t, r.finish status = some t ∧ PhaseKept r t := by
  unfold Runner.finish
  split
  · exact ⟨r, rfl, .of_eq rfl⟩
  · dsimp only
    split
    · exact ⟨_, rfl, .of_eq rfl⟩
    · rename_i hne
      have htarget := h.resolve_left hne
      refine ⟨{ r.setTodoStatus status with phase := planStatusForFinish status }, ?_, ?_⟩
      · rw [Runner.setPhase, transition]
        exact congrArg _ (if_pos htarget)
      · intro hterminal
        rw [live_of_targets htarget] at hterminal
        cases hterminal

theorem led_finishRun (h : r.InExecution) : Led r (finishRun r) := by
  have hfinish : ∃ t, r.finish (if r.cancelled then .cancelled
      else (r.todo.map executionFinishStatus).getD .completed) = some t ∧ PhaseKept r t := by
    refine finish_isSome ?_
    by_cases hc : r.cancelled = true
    · rw [if_pos hc]
      rcases h with hphase | hphase | ⟨hphase, -⟩
      · exact Or.inr (by rw [hphase]; decide)
      · exact Or.inl hphase
      · exact Or.inr (by rw [hphase]; decide)
    · have hphase : r.phase = .executing := by
        rcases h with hphase | hphase | ⟨-, hcancelled⟩
        · exact hphase
        · exact absurd (cancelled_of_phase hphase) hc
        · exact absurd hcancelled hc
      rw [if_neg hc, hphase]
      refine Or.inr ?_
      cases r.todo with
      | none => decide
      | some todo =>
        simp only [Option.map_some, Option.getD_some, executionFinishStatus]
        split <;> decide
  obtain ⟨t, ht, hkept⟩ := hfinish
  unfold finishRun
  dsimp only
  rw [ht]
  exact ⟨trivial, hkept⟩

theorem led_beforeStep (h : r.InExecution) : Led r (beforeStep index r) := by
  have hsame : PhaseKept r r.refreshTitles := .of_eq phase_refreshTitles
  have hexec : r.refreshTitles.InExecution := by
    have hcancelled : r.refreshTitles.cancelled = r.cancelled := by
      unfold Runner.refreshTitles
      split <;> rfl
    rw [Runner.InExecution, phase_refreshTitles, hcancelled]
    exact h
  refine Led.of_kept ?_ hsame
  unfold beforeStep
  dsimp only
  generalize r.refreshTitles = r at hexec
  split
  · have hskipped : (r.skipFrom index).InExecution := hexec
    exact (led_finishRun hskipped).of_phase rfl
  · rename_i hc
    have hphase : r.phase = .executing ∨ r.phase = .cancelled := by
      rcases hexec with hphase | hphase | ⟨-, hcancelled⟩
      · exact Or.inl hphase
      · exact Or.inr hphase
      · exact absurd hcancelled hc
    split
    · exact ⟨rfl, .of_eq rfl⟩
    · split
      · exact ⟨hphase, .of_eq rfl⟩
      · exact ⟨hphase, .of_eq rfl⟩

theorem led_afterPause (h : r.phase = .paused ∨ r.phase = .cancelled) :
    Led r (afterPause index r) := by
  unfold afterPause
  split
  · rename_i hc
    exact led_beforeStep (h.elim (fun h => Or.inr (Or.inr ⟨h, hc⟩)) (fun h => Or.inr (Or.inl h)))
  · rename_i hc
    have hphase : r.phase = .paused :=
      h.resolve_right fun hphase => hc (cancelled_of_phase hphase)
    have htarget : PlanPhase.executing ∈ (r.setTodoStatus .executing).phase.targets := by
      change PlanPhase.executing ∈ r.phase.targets
      rw [hphase]
      decide
    exact (led_enter htarget (led_beforeStep (Or.inl rfl)).ok).of_phase rfl

theorem led_stayPaused (h : r.phase = .paused ∨ r.phase = .cancelled) :
    Led r (stayPaused index r) := by
  unfold stayPaused
  split
  · exact ⟨h, .of_eq rfl⟩
  · exact led_afterPause h

/-- A signal is applied once. -/
theorem applyControlSignal_idem (r : Runner) :
    r.applyControlSignal.applyControlSignal = r.applyControlSignal := by
  cases hsignal : r.signal <;> simp [Runner.applyControlSignal, hsignal]

theorem phase_applyControlSignal {p : PlanPhase} (h : r.phase = p ∨ r.phase = .cancelled) :
    r.applyControlSignal.phase = p ∨ r.applyControlSignal.phase = .cancelled := by
  rcases (commanded_applyControlSignal r).phase with heq | ⟨-, heq⟩
  · rw [heq]
    exact h
  · exact Or.inr heq

theorem led_waitIfPaused (h : r.phase = .executing ∨ r.phase = .cancelled)
    (hpause : r.pausedAfterCancel = false) : Led r (waitIfPaused index r) := by
  refine Led.of_kept ?_ (commanded_applyControlSignal r).kept
  have hphase := phase_applyControlSignal h
  unfold waitIfPaused
  dsimp only
  split
  · rename_i hrequested
    have hexecuting : r.applyControlSignal.phase = .executing := by
      refine hphase.resolve_right fun hcancelled => ?_
      rw [Runner.pausedAfterCancel, hcancelled, hrequested] at hpause
      cases hpause
    have htarget : PlanPhase.paused ∈ (r.applyControlSignal.setTodoStatus .paused).phase.targets := by
      change PlanPhase.paused ∈ r.applyControlSignal.phase.targets
      rw [hexecuting]
      decide
    exact (led_enter htarget (led_stayPaused (Or.inl rfl)).ok).of_phase rfl
  · exact led_beforeStep (hphase.elim Or.inl fun h => Or.inr (Or.inl h))

theorem led_loopHead (h : r.phase = .executing ∨ r.phase = .cancelled)
    (hpause : index < r.steps.length → r.pausedAfterCancel = false) :
    Led r (loopHead index r) := by
  unfold loopHead
  split
  · rename_i hlt
    have hpause' : r.applyControlSignal.pausedAfterCancel = false := by
      rw [Runner.pausedAfterCancel, applyControlSignal_idem]
      exact hpause hlt
    exact (led_waitIfPaused (phase_applyControlSignal h) hpause').of_kept
      (commanded_applyControlSignal r).kept
  · exact led_finishRun (h.elim Or.inl fun h => Or.inr (Or.inl h))

theorem led_startStep (h : r.phase = .executing ∨ r.phase = .cancelled) :
    Led r (startStep index r) := by
  unfold startStep
  split
  · exact ⟨h, .of_eq rfl⟩
  · exact ⟨h, .of_eq rfl⟩

/-- Behind a step the run asks whether it is cancelled before it pauses. -/
theorem led_afterStep (h : r.phase = .executing ∨ r.phase = .cancelled) :
    Led r (afterStep index r) := by
  have hkept : PhaseKept r { r with currentStepId := 0 }.applyControlSignal :=
    (PhaseKept.of_eq rfl).trans (commanded_applyControlSignal { r with currentStepId := 0 }).kept
  have hphase := phase_applyControlSignal (r := { r with currentStepId := 0 }) h
  have hidem := applyControlSignal_idem { r with currentStepId := 0 }
  refine Led.of_kept ?_ hkept
  unfold afterStep
  dsimp only
  generalize { r with currentStepId := 0 }.applyControlSignal = r at hphase hidem
  split
  · have hskipped : (r.skipFrom (index + 1)).InExecution :=
      hphase.elim Or.inl fun h => Or.inr (Or.inl h)
    exact (led_finishRun hskipped).of_phase rfl
  · rename_i hc
    refine led_loopHead hphase fun _ => ?_
    have hexecuting : r.phase = .executing :=
      hphase.resolve_right fun hcancelled => hc (cancelled_of_phase hcancelled)
    rw [Runner.pausedAfterCancel, hidem, hexecuting]
    rfl

theorem led_executeExisting (h : .executing ∈ r.phase.targets ∨ r.phase = .executing) :
    Led r (executeExisting r) := by
  unfold executeExisting
  split
  · exact ⟨rfl, .of_eq rfl⟩
  · dsimp only
    split
    · rename_i hphase
      exact ⟨Or.inl hphase, .of_eq rfl⟩
    · rename_i hphase
      exact led_enter (h.resolve_right hphase) (Or.inl rfl)

/-! ## The approval -/

/-- The phases in which the run waits for the approval. -/
def Runner.InApproval (r : Runner) : Prop :=
  r.phase = .confirming ∨ r.phase = .awaitingApproval ∨ r.phase = .cancelled

theorem led_approvalEnd (h : r.InApproval) : Led r (approvalEnd r) := by
  unfold approvalEnd
  split
  · have hfinish : ∃ t, (r.skipFrom 0).finish .cancelled = some t ∧ PhaseKept (r.skipFrom 0) t := by
      refine finish_isSome ?_
      change r.phase = .cancelled ∨ PlanPhase.cancelled ∈ r.phase.targets
      rcases h with hphase | hphase | hphase
      · exact Or.inr (by rw [hphase]; decide)
      · exact Or.inr (by rw [hphase]; decide)
      · exact Or.inl hphase
    obtain ⟨t, ht, hkept⟩ := hfinish
    rw [ht]
    exact ⟨trivial, hkept⟩
  · rename_i hc
    refine led_executeExisting (Or.inl ?_)
    rcases h with hphase | hphase | hphase
    · rw [hphase]
      decide
    · rw [hphase]
      decide
    · exact absurd (cancelled_of_phase hphase) hc

theorem phase_applyApprovalSignal (r : Runner) : r.applyApprovalSignal.1.phase = r.phase := by
  unfold Runner.applyApprovalSignal
  split <;> rfl

theorem led_approvalLoop {timeUp : Bool} (h : r.InApproval) : Led r (approvalLoop timeUp r) := by
  unfold approvalLoop
  split
  · exact led_approvalEnd h
  · have hphase := phase_applyApprovalSignal r
    have hsignal : r.applyApprovalSignal.1.InApproval := by
      rw [Runner.InApproval, hphase]
      exact h
    refine Led.of_phase ?_ hphase
    dsimp only
    generalize r.applyApprovalSignal.1 = r at hsignal
    split
    · exact led_approvalEnd hsignal
    · split
      · exact led_approvalEnd hsignal
      · split
        · have hreject : { r with cancelRequested := true }.InApproval := hsignal
          exact (led_approvalEnd hreject).of_phase rfl
        · exact ⟨hsignal, .of_eq rfl⟩

theorem led_awaitApproval (h : .confirming ∈ r.phase.targets ∨ r.phase = .confirming ∨
    r.phase = .awaitingApproval) : Led r (awaitApproval r) := by
  unfold awaitApproval
  split
  · exact ⟨rfl, .of_eq rfl⟩
  · dsimp only
    split
    · rename_i hphase
      exact ⟨hphase.elim Or.inl fun h => Or.inr (Or.inl h), .of_eq rfl⟩
    · rename_i hphase
      have htarget : PlanPhase.confirming ∈ { r with approved := false }.phase.targets :=
        h.resolve_right hphase
      refine (led_enter htarget ?_).of_phase rfl
      exact Or.inl rfl

/-! ## The recon -/

theorem led_runFromRecon (h : .recon ∈ r.phase.targets ∨ r.phase = .recon) :
    Led r (runFromRecon r) := by
  unfold runFromRecon
  split
  · rename_i hphase
    exact ⟨Or.inl hphase, .of_eq rfl⟩
  · rename_i hphase
    exact led_enter (h.resolve_right hphase) (Or.inl rfl)

theorem led_afterRecon {plan : ExecutionPlan} (h : r.phase = .recon ∨ r.phase = .cancelled) :
    Led r (afterRecon plan r) := by
  unfold afterRecon
  split
  · exact ⟨trivial, .of_eq rfl⟩
  · exact ⟨h, .of_eq rfl⟩

theorem led_afterReconDone {plan : ExecutionPlan} (h : r.phase = .recon) :
    Led r (afterReconDone cfg plan r) := by
  unfold afterReconDone
  refine led_enter (mem_targets h (by decide)) ?_
  dsimp only
  split
  · trivial
  · refine (led_enter (mem_targets (p := .planning) rfl (by decide)) ?_).ok
    dsimp only
    split
    · trivial
    · split
      · exact (led_awaitApproval (Or.inl (mem_targets (p := .planReady) rfl (by decide)))).ok
      · exact (led_executeExisting (Or.inl (mem_targets (p := .planReady) rfl (by decide)))).ok

/-! ## The run -/

/-- A run that has just begun: `run`, or `resume_run` from a phase that is
not terminal. -/
def Started (r : Runner) (s : State) : Prop :=
  s = beginRun r ∨ (r.phase.isTerminal = false ∧ s = resumeRun r)

theorem phaseOk_resumeRun (h : r.phase.isTerminal = false) : PhaseOk (resumeRun r) := by
  unfold resumeRun
  extract_lets t
  have hlive : t.phase.isTerminal = false := h
  clear_value t
  split
  · rfl
  · trivial
  · trivial
  · trivial
  · rename_i hphase
    exact (led_runFromRecon (Or.inr hphase)).ok
  · rename_i hphase
    exact (led_runFromRecon (Or.inl (mem_targets hphase (by decide)))).ok
  · rename_i hphase
    exact (led_awaitApproval (Or.inl (mem_targets hphase (by decide)))).ok
  · rename_i hphase
    exact (led_awaitApproval (Or.inr (Or.inl hphase))).ok
  · rename_i hphase
    exact (led_awaitApproval (Or.inr (Or.inr hphase))).ok
  · rename_i hphase
    exact (led_executeExisting (Or.inr hphase)).ok
  · rename_i hphase
    exact (led_executeExisting (Or.inl (mem_targets hphase (by decide)))).ok

theorem Started.phaseOk (h : Started r s) : PhaseOk s := by
  rcases h with rfl | ⟨hlive, rfl⟩
  · exact (led_runFromRecon (Or.inl (mem_targets (p := .idle) rfl (by decide)))).ok
  · exact phaseOk_resumeRun hlive

/-- A command changes the phase to `cancelled` at most. -/
theorem PhaseOk.command (h : PhaseOk s) (hc : Commanded s.runner t) :
    PhaseOk { s with runner := t } := by
  rcases hc.phase with heq | ⟨-, heq⟩
  · unfold PhaseOk at h ⊢
    dsimp only
    rw [heq]
    exact h
  · unfold PhaseOk at h ⊢
    dsimp only
    cases hp : s.point <;> rw [hp] at h <;> simp_all

theorem led_answered {answer : Answer} (h : PhaseOk s)
    (ha : undisturbed s (.answer answer) = true) (hs : answered cfg s answer = some s') :
    Led s.runner s' := by
  unfold answered at hs
  split at hs
  case h_1 =>
    obtain ⟨e, he, rfl⟩ := interrupt_eq_some hs
    exact ⟨he, .of_eq rfl⟩
  case h_17 => cases hs
  all_goals rename_i hp
  all_goals rw [← Option.some.inj hs]
  all_goals unfold PhaseOk at h; rw [hp] at h; dsimp only at h
  all_goals unfold undisturbed at ha; rw [hp] at ha; dsimp only at ha
  case h_2 => exact ⟨h, .of_eq rfl⟩
  case h_3 => exact led_afterRecon h
  case h_4 => exact led_afterReconDone (h.resolve_right (bne_iff_ne.mp ha))
  case h_5 => exact led_approvalLoop h
  case h_6 => exact led_approvalLoop h
  case h_7 => exact led_approvalLoop h
  case h_8 => exact ⟨trivial, .of_eq rfl⟩
  case h_9 => exact led_loopHead h fun hlt => by simpa [hlt] using ha
  case h_10 =>
    exact (led_stayPaused (phase_applyControlSignal h)).of_kept
      (commanded_applyControlSignal s.runner).kept
  case h_11 => exact led_loopHead h fun hlt => by simpa [hlt] using ha
  case h_12 => exact led_startStep h
  case h_13 => exact ⟨h, .of_eq rfl⟩
  case h_14 => exact ⟨h, .of_eq rfl⟩
  case h_15 => exact led_afterStep h
  case h_16 => exact ⟨trivial, .of_eq rfl⟩

theorem phase_todoUpdate (r : Runner) (args : TodoUpdateArgs) :
    (todoUpdate r args).1.phase = r.phase := by
  rcases todoUpdate_eq r args with heq | ⟨plan, todo, plan', todo', -, -, -, -, heq⟩
  · rw [heq]
  · rw [heq]

theorem led_step (h : PhaseOk s) (ha : undisturbed s a = true)
    (hs : (machine cfg).step s a = some s') : Led s.runner s' := by
  have hbegun : s.point ≠ .idle := by
    intro hp
    unfold PhaseOk at h
    rw [hp] at h
    exact h
  rcases step_cases hs with ⟨-, hp, -⟩ | ⟨-, hp, -⟩ | ⟨f, hf, -, rfl⟩ |
    ⟨args, index, rfl, hp, rfl⟩ | ⟨answer, rfl, hs⟩
  · exact absurd hp hbegun
  · exact absurd hp hbegun
  · have hcommanded := hf.commanded s.runner
    exact ⟨h.command hcommanded, hcommanded.kept⟩
  · refine ⟨?_, .of_eq (phase_todoUpdate s.runner args)⟩
    unfold PhaseOk at h ⊢
    rw [hp] at h ⊢
    dsimp only at h ⊢
    rw [phase_todoUpdate]
    exact h
  · exact led_answered h ha hs

/-! ## Refused transitions -/

/-- The run has ended in a transition that the table does not have. -/
def Refused (s : State) : Prop := ∃ e, s.point = .raised e ∧ e.refusedTransition = true

theorem PhaseOk.not_refused (h : PhaseOk s) : ¬ Refused s := by
  rintro ⟨e, hp, he⟩
  unfold PhaseOk at h
  rw [hp] at h
  dsimp only at h
  rw [he] at h
  cases h

/-- An exception ends the run. -/
theorem Refused.step (h : Refused s) (hs : (machine cfg).step s a = some s') : Refused s' := by
  obtain ⟨e, hp, he⟩ := h
  rcases step_cases hs with ⟨-, hidle, -⟩ | ⟨-, hidle, -⟩ | ⟨f, -, -, rfl⟩ |
    ⟨args, index, -, hrunning, -⟩ | ⟨answer, -, hs⟩
  · rw [hp] at hidle
    cases hidle
  · rw [hp] at hidle
    cases hidle
  · exact ⟨e, hp, he⟩
  · rw [hp] at hrunning
    cases hrunning
  · unfold answered at hs
    rw [hp] at hs
    cases answer <;> simp [interrupt, hp] at hs

theorem refused_enter {target : PlanPhase} {wrap : RunError → RunError} {next : Runner → State}
    (htarget : target ∉ r.phase.targets)
    (hwrap : ∀ e, e.refusedTransition = true → (wrap e).refusedTransition = true) :
    Refused (r.enter target wrap next) := by
  rcases enter_cases r target wrap next with ⟨hsome, -⟩ | ⟨-, heq⟩
  · rw [transition, if_neg htarget] at hsome
    cases hsome
  · rw [heq]
    exact ⟨_, rfl, hwrap _ rfl⟩

/-- A pause that a cancelled run meets is refused. -/
theorem refused_loopHead (hlt : index < r.steps.length) (hpause : r.pausedAfterCancel = true) :
    Refused (loopHead index r) := by
  rw [Runner.pausedAfterCancel, Bool.and_eq_true, beq_iff_eq] at hpause
  unfold loopHead waitIfPaused
  rw [if_pos hlt]
  dsimp only
  rw [applyControlSignal_idem, if_pos hpause.2]
  refine refused_enter ?_ (fun e he => he)
  change PlanPhase.paused ∉ r.applyControlSignal.phase.targets
  rw [hpause.1]
  decide

theorem refused_of_disturbed (ha : undisturbed s a = false)
    (hs : (machine cfg).step s a = some s') : Refused s' := by
  unfold undisturbed at ha
  split at ha
  · rename_i plan hp
    have hs : answered cfg s .done = some s' := hs
    unfold answered at hs
    rw [hp] at hs
    dsimp only at hs
    rw [← Option.some.inj hs]
    refine refused_enter ?_ (fun e he => he)
    rw [bne_eq_false_iff_eq.mp ha]
    decide
  · rename_i hp
    have hs : answered cfg s .done = some s' := hs
    unfold answered at hs
    rw [hp] at hs
    dsimp only at hs
    rw [← Option.some.inj hs]
    simp only [Bool.not_eq_false', Bool.and_eq_true, decide_eq_true_eq] at ha
    exact refused_loopHead ha.1 ha.2
  · rename_i index hp
    have hs : answered cfg s .done = some s' := hs
    unfold answered at hs
    rw [hp] at hs
    dsimp only at hs
    rw [← Option.some.inj hs]
    simp only [Bool.not_eq_false', Bool.and_eq_true, decide_eq_true_eq] at ha
    exact refused_loopHead ha.1 ha.2
  · cases ha

/-! ## Runs -/

variable {acts : List Action}

theorem led_run (h : PhaseOk s)
    (hm : (machine cfg).Meets (fun s a => undisturbed s a = true) s acts)
    (hrun : (machine cfg).run s acts = some s') : Led s.runner s' := by
  induction acts generalizing s with
  | nil =>
    cases hrun
    exact ⟨h, .of_eq rfl⟩
  | cons a acts ih =>
    obtain ⟨u, hu, hrest⟩ := (machine cfg).run_cons_eq_some.mp hrun
    have hled := led_step h hm.1 hu
    exact (ih hled.ok (hm.2 u hu) hrest).of_kept hled.kept

theorem Refused.run (h : Refused s) (hrun : (machine cfg).run s acts = some s') : Refused s' :=
  (machine cfg).run_invariant (fun _ _ _ hs ht => hs.step ht) h hrun

theorem meets_of_not_refused (h : PhaseOk s) (hrun : (machine cfg).run s acts = some s')
    (hno : ¬ Refused s') :
    (machine cfg).Meets (fun s a => undisturbed s a = true) s acts := by
  induction acts generalizing s with
  | nil => trivial
  | cons a acts ih =>
    obtain ⟨u, hu, hrest⟩ := (machine cfg).run_cons_eq_some.mp hrun
    have ha : undisturbed s a = true := by
      by_contra hnot
      exact hno ((refused_of_disturbed (Bool.not_eq_true _ ▸ hnot) hu).run hrest)
    refine ⟨ha, fun t ht => ?_⟩
    rw [Option.mem_def, hu] at ht
    cases ht
    exact ih (led_step h ha hu).ok hrest

/-- What commands may not break in the run from `s` to `s'`. -/
structure ControlSafe (cfg : Config) (s : State) (acts : List Action) (s' : State) : Prop where
  /-- `PLAN_INVALID_TRANSITION` is not raised. -/
  notRefused : ¬ Refused s'
  /-- A terminal phase is not left. -/
  terminal : ∀ pre post u, acts = pre ++ post → (machine cfg).run s pre = some u →
    u.runner.phase.isTerminal = true → s'.runner.phase = u.runner.phase
  /-- A run that is cancelled in time ends as cancelled. -/
  cancelled : ∀ pre post u, acts = pre ++ .cancel :: post → (machine cfg).run s pre = some u →
    u.runner.phase.isTerminal = false → s'.runner.phase = .cancelled

/-- **Commands do not break a plan run** exactly when the run is not
cancelled during `on_recon_done`, and no pause follows a cancel during
`on_plan_approved` or at a step resumed from disk, with a step left. -/
theorem control_safe_iff (hstart : Started r s) (hrun : (machine cfg).run s acts = some s') :
    ControlSafe cfg s acts s' ↔
      (machine cfg).Meets (fun s a => undisturbed s a = true) s acts := by
  constructor
  · exact fun hsafe => meets_of_not_refused hstart.phaseOk hrun hsafe.notRefused
  · intro hm
    have hsplit : ∀ pre post u, acts = pre ++ post → (machine cfg).run s pre = some u →
        PhaseOk u ∧ Led u.runner s' := by
      rintro pre post u rfl hu
      obtain ⟨hpre, hpost⟩ := (machine cfg).meets_append.mp hm
      obtain ⟨v, hv, hrest⟩ := (machine cfg).run_append_eq_some.mp hrun
      obtain rfl : u = v := Option.some.inj (hu.symm.trans hv)
      have hu' := (led_run hstart.phaseOk hpre hu).ok
      exact ⟨hu', led_run hu' (hpost u hu) hrest⟩
    refine ⟨(led_run hstart.phaseOk hm hrun).ok.not_refused, ?_, ?_⟩
    · intro pre post u hacts hu
      exact (hsplit pre post u hacts hu).2.kept
    · rintro pre post u rfl hu hlive
      -- the phase is `cancelled` right behind the call, and is kept from there on
      obtain ⟨v, hv, hrest⟩ := (machine cfg).run_append_eq_some.mp hrun
      obtain rfl : u = v := Option.some.inj (hu.symm.trans hv)
      obtain ⟨w, hw, -⟩ := (machine cfg).run_cons_eq_some.mp hrest
      have hphase : w.runner.phase = .cancelled := by
        obtain ⟨-, rfl⟩ := command_eq_some (hw : command u Runner.cancel = some w)
        simp [Runner.cancel, hlive]
      have hsnoc : (machine cfg).run s (pre ++ [.cancel]) = some w :=
        (machine cfg).run_snoc_eq_some.mpr ⟨u, hu, hw⟩
      have hkept := (hsplit (pre ++ [.cancel]) post w (by simp) hsnoc).2.kept
      rw [← hphase]
      exact hkept (by rw [hphase]; rfl)

/-! ## A cancel in `on_recon_done` -/

def oneStep : ExecutionPlan where
  steps := [{ stepId := 1, title := "a", description := "" }]

/-- From the beginning of a run up to the notice of the recon's end. -/
def upToReconDone : List Action := ([.done, .planned oneStep] : List Answer).map .answer

/-- Cancelled during the approval, the run ends as cancelled. -/
theorem control_safe_in_approval :
    ∃ s', (machine {}).run (beginRun {}) (upToReconDone ++
        [.answer .done, .pause, .cancel, .pause, .answer .done]) = some s' ∧
      ControlSafe {} (beginRun {}) (upToReconDone ++
        [.answer .done, .pause, .cancel, .pause, .answer .done]) s' := by
  have hruns : ((machine {}).run (beginRun {}) (upToReconDone ++
      [.answer .done, .pause, .cancel, .pause, .answer .done])).isSome = true := by decide
  obtain ⟨s', hrun⟩ := Option.isSome_iff_exists.mp hruns
  have hm : (machine {}).Meets (fun s a => undisturbed s a = true) (beginRun {})
      (upToReconDone ++ [.answer .done, .pause, .cancel, .pause, .answer .done]) := by decide
  have hstart : Started {} (beginRun {}) := Or.inl rfl
  exact ⟨s', hrun, (control_safe_iff hstart hrun).mpr hm⟩

/-- Behind `on_recon_done` the run goes on to `planning` without asking
whether it is cancelled. -/
theorem cancel_in_recon_done_refused :
    ¬ ∀ (cfg : Config) (r : Runner) (s s' : State) (acts : List Action), Started r s →
      (machine cfg).run s acts = some s' → ControlSafe cfg s acts s' := by
  intro hclaim
  have hend : ((machine {}).run (beginRun {}) (upToReconDone ++ [.cancel, .answer .done])).map
      (·.point) = some (.raised (.invalidTransition .cancelled .planning)) := by decide
  obtain ⟨s', hrun, hpoint⟩ := Option.map_eq_some_iff.mp hend
  have hsafe := hclaim {} {} (beginRun {}) s' _ (Or.inl rfl) hrun
  exact hsafe.notRefused ⟨_, hpoint, rfl⟩

end NeuralHub.Plan
