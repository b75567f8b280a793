/-
NeuralHub.Scheduler.Effects — what a step of the schedulers does to the
world that the processes share.

`Effect` lists it once: most steps leave executions, keys and rows alone,
or move one execution on to another phase; the others create an execution,
or take or give back the running key, or write a status, or end the
executions of a process that is killed. The invariants are proved along
this list. `timesPast_step` is about the rest of the state: a process
works with times that it has read, so they are past.
-/
import NeuralHub.Scheduler.Machine

namespace NeuralHub.Scheduler

open NeuralHub.Lib

/-! ## Phases -/

/-- The moves of an execution that leave everything else alone. -/
inductive Moves (now : Int) : Phase → Phase → Prop
  | skipped : Moves now .created .skipped
  | executed : Moves now .running (.recording now)
  | recordFailed {time : Int} : Moves now (.recording time) .releasing
  | releaseFailed : Moves now .releasing .ended
  | cancelled {phase : Phase} : Moves now phase phase.cancel

theorem Moves.held {now : Int} {phase phase' : Phase} (h : Moves now phase phase')
    (hheld : phase'.held = true) : phase.held = true := by
  cases h with
  | skipped => cases hheld
  | executed => rfl
  | recordFailed => rfl
  | releaseFailed => rfl
  | cancelled =>
    cases phase with
    | created => cases hheld
    | skipped => cases hheld
    | ended => cases hheld
    | _ => rfl

theorem Moves.started {now : Int} {phase phase' : Phase} (h : Moves now phase phase') :
    phase'.started = phase.started := by
  cases h with
  | cancelled => cases phase <;> rfl
  | _ => rfl

theorem Phase.held_kill (phase : Phase) : phase.kill.held = false := by
  cases phase <;> rfl

theorem Phase.started_kill (phase : Phase) : phase.kill.started = phase.started := by
  cases phase <;> rfl

/-! ## Effects -/

def Execution.kill (p : Nat) (e : Execution) : Execution :=
  if e.process = p then { e with phase := e.phase.kill } else e

inductive Effect (cfg : Config) (s : Sys) : Event → World → Prop
  | same {e : Event} : Effect cfg s e s.toWorld
  | tick {d : Nat} : Effect cfg s (.tick d) { s.toWorld with now := s.now + d }
  | manual {p : Nat} {taskId : String} :
      Effect cfg s (.runTask p taskId) (s.toWorld.create p taskId .manual)
  | triggered {p : Nat} {now : Int} {task : ScheduledTask} {rest : List ScheduledTask} {redis : Redis}
      (hloop : (s.processes p).loop = some (.triggering now task rest))
      (hredis : s.toWorld.acquireTrigger cfg p task.id (minuteStart now) = some redis) :
      Effect cfg s (.acquireTrigger p)
        ({ s.toWorld with redis }.create p task.id (.schedule (minuteStart now)))
  | recovering {p : Nat} {now occurrence : Int} {task : ScheduledTask} {rest : List ScheduledTask}
      (hrecovery : (s.processes p).recovery = some (.scanning now (task :: rest)))
      (hmissed : missedOccurrence (cfg.schedules task.id) task now = some occurrence) :
      Effect cfg s (.recoverNext p) (s.toWorld.create p task.id (.missedRecovery occurrence))
  | moved {e : Event} {k : Nat} {x : Execution} {phase : Phase} (hx : s.executions[k]? = some x)
      (hmoves : Moves s.now x.phase phase) :
      Effect cfg s e (s.toWorld.setExecution k { x with phase })
  | acquired {k : Nat} {x : Execution} {redis : Redis} (hx : s.executions[k]? = some x)
      (hcreated : x.phase = .created) (hredis : s.toWorld.acquireRunning x = some redis) :
      Effect cfg s (.acquireRunning k)
        ({ s.toWorld with redis }.setExecution k { x with phase := .running, acquiredAt := s.now })
  | recorded {k : Nat} {x : Execution} {time : Int} (hx : s.executions[k]? = some x)
      (hrecording : x.phase = .recording time) :
      Effect cfg s (.recorded k)
        ({ s.toWorld with tasks := updateRunStatus s.tasks x.taskId time }.setExecution k
          { x with phase := .releasing, recorded := true })
  | released {k : Nat} {x : Execution} (hx : s.executions[k]? = some x)
      (hreleasing : x.phase = .releasing) :
      Effect cfg s (.released k)
        ({ s.toWorld with redis := s.redis.del (.running x.taskId) }.setExecution k
          { x with phase := .ended })
  | killed {p : Nat} :
      Effect cfg s (.killed p) { s.toWorld with executions := s.executions.map (Execution.kill p) }

variable {cfg : Config} {s t : Sys}

theorem effect_processStep {e : Event} (h : processStep cfg s e = some t) :
    Effect cfg s e t.toWorld := by
  unfold processStep at h
  split at h
  · split at h
    · exact Option.some.inj h ▸ .same
    · cases h
  · split at h
    · cases h
    · dsimp only at h
      split at h
      · split at h
        · rename_i hx
          exact Option.some.inj h ▸ .moved hx .cancelled
        · exact Option.some.inj h ▸ .same
      · exact Option.some.inj h ▸ .same
  · exact Option.some.inj h ▸ .killed
  · split at h
    · exact Option.some.inj h ▸ .same
    · cases h
  · split at h
    · exact Option.some.inj h ▸ .same
    · cases h
  · split at h
    · split at h
      · exact Option.some.inj h ▸ .same
      · exact Option.some.inj h ▸ .same
    · cases h
  · split at h
    · rename_i hloop
      split at h
      · exact Option.some.inj h ▸ .same
      · rename_i hredis
        exact Option.some.inj h ▸ .triggered hloop hredis
    · cases h
  · split at h
    · exact Option.some.inj h ▸ .same
    · exact Option.some.inj h ▸ .same
    · cases h
  · split at h
    · exact Option.some.inj h ▸ .same
    · cases h
  · split at h
    · exact Option.some.inj h ▸ .same
    · cases h
  · split at h
    · exact Option.some.inj h ▸ .same
    · cases h
  · split at h
    · rename_i hrecovery
      split at h
      · exact Option.some.inj h ▸ .same
      · rename_i hmissed
        exact Option.some.inj h ▸ .recovering hrecovery hmissed
    · cases h
  · split at h
    · split at h
      · split at h
        · exact Option.some.inj h ▸ .same
        · cases h
      · cases h
    · cases h
  · split at h
    · cases h
    · exact Option.some.inj h ▸ .same
    · cases h
  · cases h

theorem acquireRunning_executionStep {j k : Nat} {x : Execution}
    (h : executionStep s k x (.acquireRunning j) = some t) :
    x.phase = .created ∧
      (s.toWorld.acquireRunning x = none ∧
          t.toWorld = s.toWorld.setExecution k { x with phase := .skipped } ∨
        ∃ redis, s.toWorld.acquireRunning x = some redis ∧
          t.toWorld = { s.toWorld with redis }.setExecution k
            { x with phase := .running, acquiredAt := s.now }) := by
  obtain ⟨hcreated, hstep⟩ := Option.ite_none_right_eq_some.mp h
  refine ⟨hcreated, ?_⟩
  split at hstep
  · rename_i hredis
    exact Or.inl ⟨hredis, Option.some.inj hstep ▸ rfl⟩
  · rename_i redis hredis
    exact Or.inr ⟨redis, hredis, Option.some.inj hstep ▸ rfl⟩

theorem effect_executionStep {e : Event} {k : Nat} {x : Execution} (hx : s.executions[k]? = some x)
    (he : e.execution = some k) (h : executionStep s k x e = some t) : Effect cfg s e t.toWorld := by
  cases e with
  | acquireRunning j =>
    obtain rfl : j = k := Option.some.inj he
    obtain ⟨hcreated, ⟨-, hworld⟩ | ⟨redis, hredis, hworld⟩⟩ := acquireRunning_executionStep h
    · exact hworld ▸ .moved hx (hcreated ▸ .skipped)
    · exact hworld ▸ .acquired hx hcreated hredis
  | acquireFailed j =>
    obtain ⟨hcreated, heq⟩ := Option.ite_none_right_eq_some.mp h
    exact Option.some.inj heq ▸ .moved hx (hcreated ▸ .skipped)
  | executed j =>
    obtain ⟨hrunning, heq⟩ := Option.ite_none_right_eq_some.mp h
    exact Option.some.inj heq ▸ .moved hx (hrunning ▸ .executed)
  | recorded j =>
    obtain rfl : j = k := Option.some.inj he
    cases hphase : x.phase with
    | recording time =>
      simp only [executionStep, hphase, Option.some.injEq] at h
      exact h ▸ .recorded hx hphase
    | _ => simp [executionStep, hphase] at h
  | recordFailed j =>
    cases hphase : x.phase with
    | recording time =>
      simp only [executionStep, hphase, Option.some.injEq] at h
      exact h ▸ .moved hx (hphase ▸ .recordFailed)
    | _ => simp [executionStep, hphase] at h
  | released j =>
    obtain rfl : j = k := Option.some.inj he
    obtain ⟨hreleasing, heq⟩ := Option.ite_none_right_eq_some.mp h
    exact Option.some.inj heq ▸ .released hx hreleasing
  | releaseFailed j =>
    obtain ⟨hreleasing, heq⟩ := Option.ite_none_right_eq_some.mp h
    exact Option.some.inj heq ▸ .moved hx (hreleasing ▸ .releaseFailed)
  | cancelled j => exact Option.some.inj h ▸ .moved hx .cancelled
  | _ => cases he

theorem effect_of_step {e : Event} (h : (machine cfg).step s e = some t) :
    Effect cfg s e t.toWorld := by
  have h : step cfg s e = some t := h
  unfold step at h
  split at h
  · exact Option.some.inj h ▸ .tick
  · exact Option.some.inj h ▸ .manual
  · split at h
    · exact effect_processStep h
    · rename_i hk
      obtain ⟨x, hx, hstep⟩ := Option.bind_eq_some_iff.mp h
      exact effect_executionStep hx hk hstep

/-! ## Times that were read -/

def LoopState.time : LoopState → Option Int
  | .sleeping => none
  | .begun now | .checking now _ | .triggering now _ _ => some now

def RecoveryState.time : RecoveryState → Option Int
  | .created => none
  | .begun now | .scanning now _ | .executing now _ _ => some now

/-- The times that a process works with are past. -/
def Process.Past (now : Int) (process : Process) : Prop :=
  (∀ loop ∈ process.loop, ∀ time ∈ loop.time, time ≤ now) ∧
    ∀ recovery ∈ process.recovery, ∀ time ∈ recovery.time, time ≤ now

def TimesPast (s : Sys) : Prop := ∀ p, (s.processes p).Past s.now

namespace TimesPast

theorem toWorld (h : TimesPast s) {w : World} (hnow : s.now ≤ w.now) :
    TimesPast { s with toWorld := w } := by
  intro p
  obtain ⟨hloop, hrecovery⟩ := h p
  constructor
  · exact fun loop hmem time htime => Int.le_trans (hloop loop hmem time htime) hnow
  · exact fun recovery hmem time htime => Int.le_trans (hrecovery recovery hmem time htime) hnow

theorem setProcess (h : TimesPast s) (p : Nat) {process : Process} (hpast : process.Past s.now) :
    TimesPast (s.setProcess p process) := by
  intro q
  show (Function.update s.processes p process q).Past s.now
  by_cases hq : q = p
  · subst hq
    rw [Function.update_self]
    exact hpast
  · rw [Function.update_of_ne hq]
    exact h q

theorem keepTasks (h : TimesPast s) (p : Nat) (tasks : Tasks) : TimesPast (s.keepTasks p tasks) :=
  h.setProcess p (h p)

theorem setLoop (h : TimesPast s) (p : Nat) {loop : LoopState}
    (htime : ∀ time ∈ loop.time, time ≤ s.now) : TimesPast (s.setLoop p loop) := by
  refine h.setProcess p ⟨fun loop' hmem => ?_, (h p).2⟩
  obtain rfl := Option.some.inj hmem
  exact htime

theorem setRecovery (h : TimesPast s) (p : Nat) {recovery : Option RecoveryState}
    (htime : ∀ state ∈ recovery, ∀ time ∈ state.time, time ≤ s.now) :
    TimesPast (s.setRecovery p recovery) := h.setProcess p ⟨(h p).1, htime⟩

/-- A loop that goes on works with the time it had. -/
theorem nextLoop (h : TimesPast s) (p : Nat) {loop loop' : LoopState}
    (hloop : (s.processes p).loop = some loop) (htime : loop'.time = loop.time) :
    TimesPast (s.setLoop p loop') :=
  h.setLoop p (htime ▸ (h p).1 loop hloop)

theorem nextRecovery (h : TimesPast s) (p : Nat) {recovery recovery' : RecoveryState}
    (hrecovery : (s.processes p).recovery = some recovery) (htime : recovery'.time = recovery.time) :
    TimesPast (s.setRecovery p (some recovery')) := by
  refine h.setRecovery p fun state hmem => ?_
  obtain rfl := Option.some.inj hmem
  exact htime ▸ (h p).2 recovery hrecovery

theorem idle (h : TimesPast s) (p : Nat) (tasks : Option Tasks) :
    TimesPast (s.setProcess p { tasks }) := by
  refine h.setProcess p ⟨fun loop hmem => ?_, fun recovery hmem => ?_⟩
  · cases hmem
  · cases hmem

end TimesPast

theorem timesPast_processStep {e : Event} (h : TimesPast s) (hstep : processStep cfg s e = some t) :
    TimesPast t := by
  unfold processStep at hstep
  split at hstep
  · rename_i p
    split at hstep
    · refine Option.some.inj hstep ▸ h.setProcess p ⟨fun loop hmem => ?_, fun recovery hmem => ?_⟩
      · obtain rfl := Option.some.inj hmem
        exact fun _ htime => by cases htime
      · obtain rfl := Option.some.inj hmem
        exact fun _ htime => by cases htime
    · cases hstep
  · rename_i p
    have hidle := h.idle p (s.processes p).tasks
    split at hstep
    · cases hstep
    · dsimp only at hstep
      split at hstep
      · split at hstep
        · exact Option.some.inj hstep ▸ hidle.toWorld (Int.le_refl _)
        · exact Option.some.inj hstep ▸ hidle
      · exact Option.some.inj hstep ▸ hidle
  · exact Option.some.inj hstep ▸ (h.idle _ none).toWorld (Int.le_refl _)
  · split at hstep
    · refine Option.some.inj hstep ▸ h.setLoop _ fun time htime => ?_
      exact Int.le_of_eq (Option.some.inj htime).symm
    · cases hstep
  · split at hstep
    · rename_i hloop
      have hpast := (h _).1 _ hloop
      exact Option.some.inj hstep ▸ (h.keepTasks _ _).setLoop _ fun time htime => hpast time htime
    · cases hstep
  · split at hstep
    · rename_i hloop
      split at hstep
      · exact Option.some.inj hstep ▸ h.nextLoop _ hloop rfl
      · exact Option.some.inj hstep ▸ h.nextLoop _ hloop rfl
    · cases hstep
  · rename_i p
    split at hstep
    · rename_i now task rest hloop
      have hnext : TimesPast (s.setLoop p (.checking now rest)) := h.nextLoop p hloop rfl
      split at hstep
      · exact Option.some.inj hstep ▸ hnext
      · exact Option.some.inj hstep ▸ hnext.toWorld (Int.le_refl _)
    · cases hstep
  · split at hstep
    · rename_i hloop
      exact Option.some.inj hstep ▸ h.nextLoop _ hloop rfl
    · rename_i hloop
      exact Option.some.inj hstep ▸ h.nextLoop _ hloop rfl
    · cases hstep
  · split at hstep
    · exact Option.some.inj hstep ▸ h.setLoop _ fun _ htime => by cases htime
    · cases hstep
  · split at hstep
    · refine Option.some.inj hstep ▸ h.setRecovery _ fun state hmem time htime => ?_
      obtain rfl := Option.some.inj hmem
      exact Int.le_of_eq (Option.some.inj htime).symm
    · cases hstep
  · split at hstep
    · rename_i hrecovery
      have hpast := (h _).2 _ hrecovery
      refine Option.some.inj hstep ▸ (h.keepTasks _ _).setRecovery _ fun state hmem time htime => ?_
      obtain rfl := Option.some.inj hmem
      exact hpast time htime
    · cases hstep
  · rename_i p
    split at hstep
    · rename_i now task rest hrecovery
      split at hstep
      · exact Option.some.inj hstep ▸ h.nextRecovery p hrecovery rfl
      · have hnext : TimesPast (s.setRecovery p (some (.executing now s.executions.length rest))) :=
          h.nextRecovery p hrecovery rfl
        exact Option.some.inj hstep ▸ hnext.toWorld (Int.le_refl _)
    · cases hstep
  · split at hstep
    · rename_i hrecovery
      split at hstep
      · split at hstep
        · exact Option.some.inj hstep ▸ h.nextRecovery _ hrecovery rfl
        · cases hstep
      · cases hstep
    · cases hstep
  · split at hstep
    · cases hstep
    · exact Option.some.inj hstep ▸ h.setRecovery _ fun _ hmem => by cases hmem
    · cases hstep
  · cases hstep

theorem timesPast_executionStep {e : Event} {k : Nat} {x : Execution} (h : TimesPast s)
    (hstep : executionStep s k x e = some t) : TimesPast t := by
  unfold executionStep at hstep
  split at hstep
  · obtain ⟨-, hstep⟩ := Option.ite_none_right_eq_some.mp hstep
    split at hstep
    · exact Option.some.inj hstep ▸ h.toWorld (Int.le_refl _)
    · exact Option.some.inj hstep ▸ h.toWorld (Int.le_refl _)
  · obtain ⟨-, hstep⟩ := Option.ite_none_right_eq_some.mp hstep
    exact Option.some.inj hstep ▸ h.toWorld (Int.le_refl _)
  · obtain ⟨-, hstep⟩ := Option.ite_none_right_eq_some.mp hstep
    exact Option.some.inj hstep ▸ h.toWorld (Int.le_refl _)
  · split at hstep
    · exact Option.some.inj hstep ▸
        ((h.toWorld (Int.le_refl _)).keepTasks _ _).toWorld (Int.le_refl _)
    · cases hstep
  · split at hstep
    · exact Option.some.inj hstep ▸ h.toWorld (Int.le_refl _)
    · cases hstep
  · obtain ⟨-, hstep⟩ := Option.ite_none_right_eq_some.mp hstep
    exact Option.some.inj hstep ▸ h.toWorld (Int.le_refl _)
  · obtain ⟨-, hstep⟩ := Option.ite_none_right_eq_some.mp hstep
    exact Option.some.inj hstep ▸ h.toWorld (Int.le_refl _)
  · exact Option.some.inj hstep ▸ h.toWorld (Int.le_refl _)
  · cases hstep

theorem timesPast_step {e : Event} (h : TimesPast s) (hstep : (machine cfg).step s e = some t) :
    TimesPast t := by
  have hstep : step cfg s e = some t := hstep
  unfold step at hstep
  split at hstep
  · exact Option.some.inj hstep ▸ h.toWorld (Int.le_add_of_nonneg_right (Int.natCast_nonneg _))
  · exact Option.some.inj hstep ▸ h.toWorld (Int.le_refl _)
  · split at hstep
    · exact timesPast_processStep h hstep
    · obtain ⟨x, -, hstep⟩ := Option.bind_eq_some_iff.mp hstep
      exact timesPast_executionStep h hstep

end NeuralHub.Scheduler
