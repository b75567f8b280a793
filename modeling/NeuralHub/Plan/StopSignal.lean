/-
NeuralHub.Plan.StopSignal — a stop in the one slot of a session.

Five requests write the slot, each over what stands in it. A poll reads
the slot and later deletes it, if it has taken a signal; a request may
come in between. `Poll.finish` is `apply_control_signal` or
`_apply_approval_signal` cut at the read: with nothing in between the two
halves make one poll of `Runner` (`finish_control`, `finish_approval`).

The ledger marks a stop that waits for the next poll, and one that was
written over or deleted before that poll began. The invariant is what the
mark says about the slot; a poll that began behind a stop cancels the run
unless the stop was lost by then (`stop_kept_iff`).
-/
import NeuralHub.Plan.Runner
import NeuralHub.Lib.Machine

namespace NeuralHub.Plan.StopSignal

open NeuralHub.Lib

/-! ## Polls -/

inductive PollKind
  /-- `apply_control_signal`, while steps are executed -/
  | control
  /-- `_apply_approval_signal`, while the approval is waited for -/
  | approval
  deriving DecidableEq, Repr

/-- A poll that has read the slot. -/
structure Poll where
  kind : PollKind
  read : ControlAction
  deriving DecidableEq, Repr

namespace Poll

/-- The signals that a poll takes; the others are left in the slot. -/
def takes (p : Poll) : Bool :=
  match p.kind, p.read with
  | .control, .stop | .control, .pause | .control, .resume => true
  | .approval, .approve | .approval, .reject | .approval, .stop => true
  | _, _ => false

def apply (p : Poll) (r : Runner) : Runner :=
  match p.kind, p.read with
  | .control, .stop => r.cancel
  | .control, .pause => r.requestPause
  | .control, .resume => r.requestResume
  | .approval, .approve => r.approve
  | .approval, .reject | .approval, .stop => r.reject
  | _, _ => r

/-- What the poll does behind the read; `clear` deletes whatever is there. -/
def finish (p : Poll) (r : Runner) : Runner :=
  if p.takes then { p.apply r with signal := .none } else r

end Poll

theorem finish_control (r : Runner) : Poll.finish ⟨.control, r.signal⟩ r = r.applyControlSignal := by
  cases h : r.signal <;> simp [Poll.finish, Poll.takes, Poll.apply, Runner.applyControlSignal, h]

theorem finish_approval (r : Runner) :
    Poll.finish ⟨.approval, r.signal⟩ r = r.applyApprovalSignal.1 := by
  cases h : r.signal <;>
    simp [Poll.finish, Poll.takes, Poll.apply, Runner.applyApprovalSignal, Runner.approve, h]

/-! ## The machine -/

structure State where
  runner : Runner
  poll : Option Poll := none
  deriving DecidableEq, Repr

inductive Action
  /-- `request_stop`, `request_pause`, `request_resume`, `request_approve`, `request_reject` -/
  | request (action : ControlAction)
  | read (kind : PollKind)
  | finish
  deriving DecidableEq, Repr

def step (s : State) (a : Action) : Option State :=
  match a with
  | .request action =>
      if action = .none then none
      else some { s with runner := { s.runner with signal := action } }
  | .read kind =>
      if s.poll = none then some { s with poll := some { kind, read := s.runner.signal } } else none
  | .finish => s.poll.map fun p => { runner := p.finish s.runner, poll := none }

def machine : Machine State Action := ⟨step⟩

/-- What has become of the stops since the last poll began: there is none,
one stands in the slot, or it was written over or deleted. -/
inductive Mark
  | none
  | waiting
  | lost
  deriving DecidableEq, Repr

structure Ledger where
  mark : Mark := .none
  /-- the mark at the read of the poll that is running -/
  polled : Mark := .none
  /-- a poll that began behind a stop has ended in a run that is not cancelled -/
  missed : Bool := false
  deriving DecidableEq, Repr

/-- A stop that waits is lost. -/
def Mark.lose : Mark → Mark
  | .waiting => .lost
  | mark => mark

def record (s : State) (a : Action) (t : State) (l : Ledger) : Ledger :=
  match a with
  | .request .stop => { l with mark := .waiting }
  | .request _ => { l with mark := l.mark.lose }
  | .read _ => { l with mark := .none, polled := l.mark }
  | .finish =>
      { mark := if s.poll.any Poll.takes then l.mark.lose else l.mark
        polled := .none
        missed := l.missed || (l.polled != .none && !t.runner.cancelled) }

def ledgered : Machine (State × Ledger) Action := machine.withHistory record

/-- When the stop was lost before the poll began, the run is cancelled
already, or the poll waits for the approval and has read a reject. -/
def keeps (x : State × Ledger) (a : Action) : Bool :=
  match a with
  | .finish =>
      x.2.polled != .lost || x.1.runner.cancelled ||
        x.1.poll == some { kind := .approval, read := .reject }
  | _ => true

/-! ## What the marks say -/

variable {s s' : State} {l l' : Ledger} {a : Action} {acts : List Action} {p : Poll} {r : Runner}

/-- The run can be cancelled, or is. -/
def Live (r : Runner) : Prop := r.phase.isTerminal = false ∨ r.phase = .cancelled

structure Inv (s : State) (l : Ledger) : Prop where
  live : Live s.runner
  waiting : l.mark = .waiting → s.runner.signal = .stop
  lost : l.mark = .lost → s.runner.signal ≠ .stop
  polledWaiting : ∀ p, s.poll = some p → l.polled = .waiting → p.read = .stop
  polledLost : ∀ p, s.poll = some p → l.polled = .lost → p.read ≠ .stop

theorem live_cancel (h : Live r) : Live r.cancel := by
  unfold Runner.cancel
  split
  · exact h
  · exact Or.inr rfl

theorem live_finish (h : Live r) : Live (p.finish r) := by
  have happly : Live (p.apply r) := by
    unfold Poll.apply
    split
    · exact live_cancel h
    all_goals exact h
  unfold Poll.finish
  split
  · exact happly
  · exact h

theorem cancelled_cancel (h : Live r) : r.cancel.cancelled = true := by
  unfold Runner.cancel
  split
  · rename_i hterminal
    rcases h with hlive | hphase
    · rw [hlive] at hterminal
      cases hterminal
    · simp [Runner.cancelled, hphase]
  · simp [Runner.cancelled]

/-- A poll cancels the run when it has read a stop, or a reject in front of
the approval. -/
theorem cancelled_finish (h : Live r) :
    (p.finish r).cancelled = true ↔
      r.cancelled = true ∨ p.read = .stop ∨ p = { kind := .approval, read := .reject } := by
  obtain ⟨kind, read⟩ := p
  have hcancel : ({ r.cancel with signal := .none } : Runner).cancelled = true := cancelled_cancel h
  have hreject : ({ r.reject with signal := .none } : Runner).cancelled = true := by
    simp [Runner.reject, Runner.cancelled]
  cases kind <;> cases read <;>
    simp [Poll.finish, Poll.takes, Poll.apply, hcancel, hreject] <;> rfl

/-! ## One step -/

theorem lose_ne_waiting (mark : Mark) : mark.lose ≠ .waiting := by
  cases mark <;> decide

/-- A poll that takes nothing leaves the slot alone. -/
theorem signal_finish (p : Poll) (r : Runner) :
    (p.finish r).signal = if p.takes then .none else r.signal := by
  unfold Poll.finish
  split <;> rfl

/-- A stop is written, another signal is, a poll begins, or one ends. -/
theorem step_cases (h : ledgered.step (s, l) a = some (s', l')) :
    (a = .request .stop ∧ s' = { s with runner := { s.runner with signal := .stop } } ∧
      l' = { l with mark := .waiting }) ∨
    (∃ action, a = .request action ∧ action ≠ .stop ∧
      s' = { s with runner := { s.runner with signal := action } } ∧
      l' = { l with mark := l.mark.lose }) ∨
    (∃ kind, a = .read kind ∧ s' = { s with poll := some { kind, read := s.runner.signal } } ∧
      l' = { l with mark := .none, polled := l.mark }) ∨
    (∃ p, a = .finish ∧ s.poll = some p ∧ s' = { runner := p.finish s.runner, poll := none } ∧
      l' = {
        mark := if p.takes then l.mark.lose else l.mark
        polled := .none
        missed := l.missed || (l.polled != .none && !(p.finish s.runner).cancelled) }) := by
  obtain ⟨hstep, hl⟩ := machine.step_withHistory.mp h
  cases a with
  | request action =>
    obtain ⟨-, heq⟩ := Option.ite_none_left_eq_some.mp (hstep : (if _ then _ else _) = _)
    have hs' := (Option.some.inj heq).symm
    by_cases hstop : action = .stop
    · subst hstop
      exact Or.inl ⟨rfl, hs', hl⟩
    · refine Or.inr (Or.inl ⟨action, rfl, hstop, hs', ?_⟩)
      rw [hl]
      cases action <;> first | rfl | exact absurd rfl hstop
  | read kind =>
    obtain ⟨-, heq⟩ := Option.ite_none_right_eq_some.mp (hstep : (if _ then _ else _) = _)
    exact Or.inr (Or.inr (Or.inl ⟨kind, rfl, (Option.some.inj heq).symm, hl⟩))
  | finish =>
    obtain ⟨p, hp, rfl⟩ := Option.map_eq_some_iff.mp (hstep : Option.map _ _ = _)
    refine Or.inr (Or.inr (Or.inr ⟨p, rfl, hp, rfl, ?_⟩))
    rw [hl, record, hp]
    rfl

theorem Inv.step (h : Inv s l) (hs : ledgered.step (s, l) a = some (s', l')) : Inv s' l' := by
  rcases step_cases hs with ⟨-, rfl, rfl⟩ | ⟨action, -, hstop, rfl, rfl⟩ |
    ⟨kind, -, rfl, rfl⟩ | ⟨p, -, hp, rfl, rfl⟩
  · exact ⟨h.live, fun _ => rfl, (fun hmark => by cases hmark), h.polledWaiting, h.polledLost⟩
  · exact ⟨h.live, fun hmark => absurd hmark (lose_ne_waiting l.mark), fun _ => hstop,
      h.polledWaiting, h.polledLost⟩
  · refine ⟨h.live, (fun hmark => by cases hmark), (fun hmark => by cases hmark), ?_, ?_⟩
    · rintro p hp hmark
      obtain rfl := Option.some.inj hp
      exact h.waiting hmark
    · rintro p hp hmark
      obtain rfl := Option.some.inj hp
      exact h.lost hmark
  · refine ⟨live_finish h.live, ?_, ?_, (fun q hq => by cases hq), (fun q hq => by cases hq)⟩
    · intro hmark
      dsimp only at hmark ⊢
      rw [signal_finish]
      split at hmark
      · exact absurd hmark (lose_ne_waiting l.mark)
      · rename_i htakes
        rw [if_neg htakes]
        exact h.waiting hmark
    · intro hmark
      dsimp only at hmark ⊢
      rw [signal_finish]
      split at hmark
      · rename_i htakes
        rw [if_pos htakes]
        decide
      · rename_i htakes
        rw [if_neg htakes]
        exact h.lost hmark

/-- A poll that began behind a stop misses it exactly when the stop was lost. -/
theorem missed_step (h : Inv s l) (hs : ledgered.step (s, l) a = some (s', l')) :
    l'.missed = false ↔ l.missed = false ∧ keeps (s, l) a = true := by
  rcases step_cases hs with ⟨rfl, -, rfl⟩ | ⟨action, rfl, -, -, rfl⟩ |
    ⟨kind, rfl, -, rfl⟩ | ⟨p, rfl, hp, -, rfl⟩
  · simp [keeps]
  · simp [keeps]
  · simp [keeps]
  · have hcancelled := cancelled_finish (p := p) h.live
    simp only [keeps, hp, Bool.or_eq_false_iff]
    refine and_congr_right fun _ => ?_
    cases hpolled : l.polled with
    | none => simp
    | waiting =>
      have htrue := hcancelled.mpr (Or.inr (Or.inl (h.polledWaiting p hp hpolled)))
      simp [htrue]
    | lost =>
      have hread := h.polledLost p hp hpolled
      rw [or_iff_right hread] at hcancelled
      simpa using hcancelled

/-! ## Runs -/

theorem missed_run (h : Inv s l) (hrun : ledgered.run (s, l) acts = some (s', l')) :
    l'.missed = false ↔
      l.missed = false ∧ ledgered.Meets (fun x a => keeps x a = true) (s, l) acts := by
  induction acts generalizing s l with
  | nil =>
    cases hrun
    simp
  | cons a acts ih =>
    obtain ⟨⟨t, k⟩, hstep, hrest⟩ := ledgered.run_cons_eq_some.mp hrun
    rw [ih (h.step hstep) hrest, missed_step h hstep, and_assoc, ledgered.meets_cons]
    refine and_congr_right fun _ => and_congr_right fun _ => ?_
    constructor
    · intro hm x hx
      rw [hstep] at hx
      cases hx
      exact hm
    · exact fun hm => hm (t, k) hstep

/-- **A stop is not lost**: every poll that begins behind a stop ends in a
cancelled run, exactly when no such poll finds the stop written over or
deleted; unless the run is cancelled already, or the poll waits for the
approval and has read a reject. -/
theorem stop_kept_iff (hlive : s.runner.phase.isTerminal = false)
    (hrun : ledgered.run (s, {}) acts = some (s', l')) :
    l'.missed = false ↔ ledgered.Meets (fun x a => keeps x a = true) (s, {}) acts := by
  have hinv : Inv s {} :=
    ⟨Or.inl hlive, (fun h => by cases h), (fun h => by cases h), (fun _ _ h => by cases h),
      (fun _ _ h => by cases h)⟩
  rw [missed_run hinv hrun]
  exact and_iff_right rfl

/-! ## A stop between the read and the clear of a pause -/

def executing : State := { runner := { phase := .executing } }

/-- A stop that overwrites a pause. -/
theorem stop_kept_behind_pause :
    ∃ s' l, ledgered.run (executing, {})
        [.request .pause, .request .stop, .read .control, .finish] = some (s', l) ∧
      s'.runner.phase = .cancelled ∧ l.missed = false := by
  have hend : (ledgered.run (executing, {})
      [.request .pause, .request .stop, .read .control, .finish]).map (·.1.runner.phase) =
        some .cancelled := by decide
  obtain ⟨⟨s', l⟩, hrun, hphase⟩ := Option.map_eq_some_iff.mp hend
  exact ⟨s', l, hrun, hphase, (stop_kept_iff (by decide) hrun).mpr (by decide)⟩

/-- The poll that has read the pause deletes the stop, and the next one
finds nothing. -/
theorem stop_cleared_unread :
    ¬ ∀ (s s' : State) (l : Ledger) (acts : List Action), s.runner.phase.isTerminal = false →
      ledgered.run (s, {}) acts = some (s', l) → l.missed = false := by
  intro hclaim
  have hend : (ledgered.run (executing, {}) [.request .pause, .read .control, .request .stop,
      .finish, .read .control, .finish]).map (·.2.missed) = some true := by decide
  obtain ⟨⟨s', l⟩, hrun, hmissed⟩ := Option.map_eq_some_iff.mp hend
  have hkept := hclaim executing s' l _ (by decide) hrun
  rw [hkept] at hmissed
  cases hmissed

end NeuralHub.Plan.StopSignal
