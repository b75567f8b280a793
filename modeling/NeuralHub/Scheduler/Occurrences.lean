/-
NeuralHub.Scheduler.Occurrences — an occurrence of a task is executed at
most once, as long as the loop is on time and a recovery knows of what
was run.

Two triggers for one minute exclude each other by the trigger key. A
recovery takes no such key: it goes by the time of the last run, as the
process has read it. `decidesOnce` says when that is enough. A trigger
comes within its minute and while its key would still be there. A recovery
comes when that minute is over, and only if the stored time of the last
run is before the occurrence and no execution of it has ended without a
status. And a status never takes the time of the last run back.

What was started for an occurrence is then either still running, so that
the running key keeps everything else away (`LockSafe`), or it is recorded
with a time behind the occurrence (`Tracked.recorded`).
-/
import NeuralHub.Scheduler.RunningLock

namespace NeuralHub.Scheduler

open NeuralHub.Lib

/-- For an occurrence of a task, at most one execution has acquired the task. -/
def StartedOnce (w : World) : Prop :=
  ∀ (i j : Nat) (x y : Execution), w.executions[i]? = some x → w.executions[j]? = some y →
    x.phase.started = true → y.phase.started = true → x.taskId = y.taskId →
    ∀ o, x.triggerType.occurrence = some o → y.triggerType.occurrence = some o → i = j

/-- The task is stored, and was not run since. -/
def notRunSince (tasks : Tasks) (taskId : String) (o : Int) : Bool :=
  (tasks.find taskId).any fun task => task.lastRunAt.all fun last => decide (last < o)

/-- The execution is made within its minute, or it makes up for an occurrence that was missed. -/
def startsOnce (s : Sys) (x : Execution) : Prop :=
  match x.triggerType with
  | .schedule o => s.now < o + minute
  | .missedRecovery o => o + minute ≤ s.now ∧ notRunSince s.tasks x.taskId o = true ∧
      ∀ y ∈ s.executions, y.taskId = x.taskId → y.triggerType.occurrence = some o →
        y.phase = .ended → y.recorded = true
  | .manual => True

/-- The status does not take the time of the last run back. -/
def goesForward (tasks : Tasks) (x : Execution) : Prop :=
  match x.phase with
  | .recording time => ∀ task ∈ tasks.find x.taskId, ∀ last ∈ task.lastRunAt, last ≤ time
  | _ => True

/-- The condition, see the head of the module. -/
def decidesOnce (cfg : Config) (s : Sys) (e : Event) : Prop :=
  match e with
  | .acquireTrigger p => ∀ loop ∈ (s.processes p).loop, ∀ now ∈ loop.time,
      s.now < minuteStart now + triggerTtl cfg.checkInterval
  | .acquireRunning k => ∀ x ∈ s.executions[k]?,
      s.redis.alive s.now (.running x.taskId) = false → startsOnce s x
  | .recorded k => ∀ x ∈ s.executions[k]?, goesForward s.tasks x
  | _ => True

instance (s : Sys) (x : Execution) : Decidable (startsOnce s x) := by
  unfold startsOnce
  split <;> infer_instance

instance (tasks : Tasks) (x : Execution) : Decidable (goesForward tasks x) := by
  unfold goesForward
  split <;> infer_instance

instance (cfg : Config) (s : Sys) (e : Event) : Decidable (decidesOnce cfg s e) := by
  apply e.casesOn (motive := fun e => Decidable (decidesOnce cfg s e)) <;> intros <;>
    unfold decidesOnce <;> infer_instance

/-! ## The invariant -/

/-- If the task is stored, it was run, and not before `o`. -/
def RunSince (tasks : Tasks) (taskId : String) (o : Int) : Prop :=
  ∀ task, tasks.find taskId = some task → ∃ last, task.lastRunAt = some last ∧ o ≤ last

/-- What is known of an execution for the occurrence `o`. -/
structure Tracked (cfg : Config) (w : World) (x : Execution) (o : Int) : Prop where
  due : o ≤ w.now
  acquired : x.phase.started = true → x.acquiredAt ≤ w.now
  late : x.triggerType = .missedRecovery o → x.phase.started = true → o + minute ≤ x.acquiredAt
  recording : ∀ time, x.phase = .recording time → o ≤ time
  triggered : x.triggerType = .schedule o →
    ∃ time, w.redis.expiry (.trigger x.taskId ((cfg.schedules x.taskId).minuteText o)) = some time ∧
      o + triggerTtl cfg.checkInterval ≤ time
  recorded : x.recorded = true → RunSince w.tasks x.taskId o

structure OccurrenceSafe (cfg : Config) (w : World) : Prop where
  tracked : ∀ (i : Nat) (x : Execution) (o : Int), w.executions[i]? = some x →
    x.triggerType.occurrence = some o → Tracked cfg w x o
  triggeredOnce : ∀ (i j : Nat) (x y : Execution) (o : Int), w.executions[i]? = some x →
    w.executions[j]? = some y → x.triggerType = .schedule o → y.triggerType = .schedule o →
    x.taskId = y.taskId → i = j
  startedOnce : StartedOnce w

variable {cfg : Config} {w w' : World}

/-! ## The time of the last run -/

variable {tasks : Tasks} {taskId : String} {o time : Int}

theorem RunSince.not_notRunSince (h : RunSince tasks taskId o) : notRunSince tasks taskId o = false := by
  unfold notRunSince
  cases hfind : tasks.find taskId with
  | none => rfl
  | some task =>
    obtain ⟨last, hlast, hle⟩ := h task hfind
    rw [Option.any_some, hlast, Option.all_some]
    exact decide_eq_false (Int.not_lt.mpr hle)

theorem runSince_updateRunStatus_self (hle : o ≤ time) :
    RunSince (updateRunStatus tasks taskId time) taskId o := by
  intro task hfind
  rw [find_updateRunStatus_self] at hfind
  obtain ⟨old, -, rfl⟩ := Option.map_eq_some_iff.mp hfind
  exact ⟨time, rfl, hle⟩

/-- A status that does not take the time back. -/
theorem RunSince.updateRunStatus {taskId' : String} (h : RunSince tasks taskId' o)
    (hlast : ∀ task ∈ tasks.find taskId, ∀ last ∈ task.lastRunAt, last ≤ time) :
    RunSince (updateRunStatus tasks taskId time) taskId' o := by
  intro task hfind
  by_cases hsame : taskId' = taskId
  · subst hsame
    rw [find_updateRunStatus_self] at hfind
    obtain ⟨old, hold, rfl⟩ := Option.map_eq_some_iff.mp hfind
    obtain ⟨last, hlastRun, hle⟩ := h old hold
    exact ⟨time, rfl, Int.le_trans hle (hlast old hold last hlastRun)⟩
  · rw [find_updateRunStatus_of_ne hsame] at hfind
    exact h task hfind

/-! ## Steps that create and start nothing -/

/-- `x'` is `x`, further on; if it is recorded now, the row says so. -/
structure Follows (w w' : World) (x x' : Execution) : Prop where
  taskId : x'.taskId = x.taskId
  triggerType : x'.triggerType = x.triggerType
  acquiredAt : x'.acquiredAt = x.acquiredAt
  started : x'.phase.started = x.phase.started
  recording : ∀ time, x'.phase = .recording time → x.phase = .recording time ∨ time = w.now
  recorded : x'.recorded = true → x.recorded = true ∨
    ∀ o, x.triggerType.occurrence = some o → RunSince w'.tasks x.taskId o

theorem Follows.refl (w w' : World) (x : Execution) : Follows w w' x x :=
  ⟨rfl, rfl, rfl, rfl, fun _ h => Or.inl h, Or.inl⟩

/-- The executions of `w'` are those of `w`, further on. -/
def Continues (w w' : World) : Prop :=
  ∀ (i : Nat) (x' : Execution), w'.executions[i]? = some x' →
    ∃ x, w.executions[i]? = some x ∧ Follows w w' x x'

/-- Time goes on, also that of the last runs, and no trigger key comes to expire earlier. -/
structure Extends (w w' : World) : Prop where
  now : w.now ≤ w'.now
  tasks : ∀ taskId o, RunSince w.tasks taskId o → RunSince w'.tasks taskId o
  keys : ∀ taskId text time, w.redis.expiry (.trigger taskId text) = some time →
    ∃ time', w'.redis.expiry (.trigger taskId text) = some time' ∧ time ≤ time'

theorem Extends.of_eq (hnow : w.now ≤ w'.now) (htasks : w'.tasks = w.tasks)
    (hredis : w'.redis = w.redis) : Extends w w' where
  now := hnow
  tasks := fun _ _ h => htasks ▸ h
  keys := fun _ _ time htime => ⟨time, hredis ▸ htime, Int.le_refl _⟩

theorem Tracked.of_follows {x x' : Execution} (h : Tracked cfg w x o)
    (ho : x.triggerType.occurrence = some o) (hextends : Extends w w') (hx : Follows w w' x x') :
    Tracked cfg w' x' o where
  due := Int.le_trans h.due hextends.now
  acquired := by
    intro hstarted
    rw [hx.started] at hstarted
    rw [hx.acquiredAt]
    exact Int.le_trans (h.acquired hstarted) hextends.now
  late := by
    intro htype hstarted
    rw [hx.started] at hstarted
    rw [hx.triggerType] at htype
    rw [hx.acquiredAt]
    exact h.late htype hstarted
  recording := by
    intro time htime
    rcases hx.recording time htime with hold | rfl
    · exact h.recording time hold
    · exact h.due
  triggered := by
    intro htype
    rw [hx.triggerType] at htype
    obtain ⟨time, htime, hle⟩ := h.triggered htype
    obtain ⟨time', htime', hle'⟩ := hextends.keys _ _ _ htime
    rw [hx.taskId]
    exact ⟨time', htime', Int.le_trans hle hle'⟩
  recorded := by
    intro hrecorded
    rw [hx.taskId]
    rcases hx.recorded hrecorded with hold | hnow
    · exact hextends.tasks _ _ (h.recorded hold)
    · exact hnow o ho

theorem OccurrenceSafe.of_continues (h : OccurrenceSafe cfg w) (hextends : Extends w w')
    (hcontinues : Continues w w') : OccurrenceSafe cfg w' where
  tracked := by
    intro i x' o hx' ho
    obtain ⟨x, hx, hfollows⟩ := hcontinues i x' hx'
    rw [hfollows.triggerType] at ho
    exact (h.tracked i x o hx ho).of_follows ho hextends hfollows
  triggeredOnce := by
    intro i j x' y' o hx' hy' htypex htypey htask
    obtain ⟨x, hx, hfx⟩ := hcontinues i x' hx'
    obtain ⟨y, hy, hfy⟩ := hcontinues j y' hy'
    rw [hfx.triggerType] at htypex
    rw [hfy.triggerType] at htypey
    rw [hfx.taskId, hfy.taskId] at htask
    exact h.triggeredOnce i j x y o hx hy htypex htypey htask
  startedOnce := by
    intro i j x' y' hx' hy' hstartx hstarty htask o hox hoy
    obtain ⟨x, hx, hfx⟩ := hcontinues i x' hx'
    obtain ⟨y, hy, hfy⟩ := hcontinues j y' hy'
    rw [hfx.started] at hstartx
    rw [hfy.started] at hstarty
    rw [hfx.taskId, hfy.taskId] at htask
    rw [hfx.triggerType] at hox
    rw [hfy.triggerType] at hoy
    exact h.startedOnce i j x y hx hy hstartx hstarty htask o hox hoy

theorem continues_of_executions (h : w'.executions = w.executions) : Continues w w' := by
  intro i x hx
  rw [h] at hx
  exact ⟨x, hx, Follows.refl w w' x⟩

theorem continues_setExecution {k : Nat} {x x' : Execution} (hx : w.executions[k]? = some x)
    (hcontinued : w'.executions = (w.setExecution k x').executions) (hfollows : Follows w w' x x') :
    Continues w w' := by
  intro i y hy
  rw [hcontinued] at hy
  rcases (getElem?_setExecution hx).mp hy with ⟨rfl, rfl⟩ | ⟨-, hold⟩
  · exact ⟨x, hx, hfollows⟩
  · exact ⟨y, hold, Follows.refl w w' y⟩

theorem Moves.follows {x : Execution} {phase : Phase} (h : Moves w.now x.phase phase) :
    Follows w w' x { x with phase } where
  taskId := rfl
  triggerType := rfl
  acquiredAt := rfl
  recorded := Or.inl
  started := h.started
  recording := by
    intro time htime
    have htime : phase = .recording time := htime
    subst htime
    generalize hphase : x.phase = phase at h ⊢
    generalize hto : Phase.recording time = phase' at h
    cases h with
    | executed => exact Or.inr (Phase.recording.inj hto)
    | cancelled => cases phase <;> cases hto
    | _ => cases hto

theorem continues_killed (w : World) (p : Nat) :
    Continues w { w with executions := w.executions.map (Execution.kill p) } := by
  intro i x' hx'
  have hx' : (w.executions.map (Execution.kill p))[i]? = some x' := hx'
  rw [List.getElem?_map] at hx'
  obtain ⟨x, hx, rfl⟩ := Option.map_eq_some_iff.mp hx'
  refine ⟨x, hx, ?_⟩
  unfold Execution.kill
  split
  · refine ⟨rfl, rfl, rfl, Phase.started_kill _, fun time htime => ?_, Or.inl⟩
    have htime : x.phase.kill = .recording time := htime
    generalize x.phase = phase at htime
    cases phase <;> cases htime
  · exact Follows.refl _ _ x

/-! ## Creating, starting and recording -/

theorem getElem?_create {p : Nat} {taskId : String} {triggerType : TriggerType} {i : Nat}
    {x : Execution} : (w.create p taskId triggerType).executions[i]? = some x ↔
      w.executions[i]? = some x ∨
        i = w.executions.length ∧ x = { process := p, taskId, triggerType } := by
  show (w.executions ++ [_])[i]? = some x ↔ _
  rw [List.getElem?_append]
  split
  · rename_i hlt
    constructor
    · exact Or.inl
    · rintro (hold | ⟨rfl, -⟩)
      · exact hold
      · exact absurd hlt (Nat.lt_irrefl _)
  · rename_i hge
    rw [List.getElem?_singleton]
    constructor
    · intro h
      split at h
      · exact Or.inr ⟨by omega, (Option.some.inj h).symm⟩
      · cases h
    · rintro (hold | ⟨rfl, rfl⟩)
      · exact absurd (List.getElem?_eq_some_iff.mp hold).1 hge
      · simp

/-- A new execution has not started; if it was triggered, it is the first for its minute. -/
theorem OccurrenceSafe.create (h : OccurrenceSafe cfg w) {p : Nat} {taskId : String}
    {triggerType : TriggerType} (hdue : ∀ o, triggerType.occurrence = some o → o ≤ w.now)
    (hkey : ∀ o, triggerType = .schedule o →
      ∃ time, w.redis.expiry (.trigger taskId ((cfg.schedules taskId).minuteText o)) = some time ∧
        o + triggerTtl cfg.checkInterval ≤ time)
    (hfirst : ∀ o, triggerType = .schedule o → ∀ x ∈ w.executions, x.taskId = taskId →
      x.triggerType ≠ .schedule o) :
    OccurrenceSafe cfg (w.create p taskId triggerType) where
  tracked := by
    intro i x o hx ho
    rcases getElem?_create.mp hx with hold | ⟨-, rfl⟩
    · obtain ⟨hxdue, hacquired, hlate, hrecording, htriggered, hrecorded⟩ := h.tracked i x o hold ho
      exact ⟨hxdue, hacquired, hlate, hrecording, htriggered, hrecorded⟩
    · refine ⟨hdue o ho, ?_, ?_, ?_, hkey o, ?_⟩
      · exact fun hstarted => by cases hstarted
      · exact fun _ hstarted => by cases hstarted
      · exact fun _ hrecording => by cases hrecording
      · exact fun hrecorded => by cases hrecorded
  triggeredOnce := by
    intro i j x y o hx hy htypex htypey htask
    rcases getElem?_create.mp hx with hxold | ⟨hi, rfl⟩
    · rcases getElem?_create.mp hy with hyold | ⟨-, rfl⟩
      · exact h.triggeredOnce i j x y o hxold hyold htypex htypey htask
      · exact absurd htypex (hfirst o htypey x (List.mem_of_getElem? hxold) htask)
    · rcases getElem?_create.mp hy with hyold | ⟨hj, rfl⟩
      · exact absurd htypey (hfirst o htypex y (List.mem_of_getElem? hyold) htask.symm)
      · exact hi.trans hj.symm
  startedOnce := by
    intro i j x y hx hy hstartx hstarty htask
    rcases getElem?_create.mp hx with hxold | ⟨-, rfl⟩
    · rcases getElem?_create.mp hy with hyold | ⟨-, rfl⟩
      · exact h.startedOnce i j x y hxold hyold hstartx hstarty htask
      · cases hstarty
    · cases hstartx

/-- An execution starts when no other has started for its occurrence. -/
theorem OccurrenceSafe.acquire (h : OccurrenceSafe cfg w) {k : Nat} {x : Execution}
    (hx : w.executions[k]? = some x)
    (hlate : ∀ o, x.triggerType = .missedRecovery o → o + minute ≤ w.now)
    (hfirst : ∀ o, x.triggerType.occurrence = some o → ∀ y ∈ w.executions, y.taskId = x.taskId →
      y.triggerType.occurrence = some o → y.phase.started = false) :
    OccurrenceSafe cfg (w.setExecution k { x with phase := .running, acquiredAt := w.now }) where
  tracked := by
    intro i y o hy ho
    rcases (getElem?_setExecution hx).mp hy with ⟨-, rfl⟩ | ⟨-, hold⟩
    · have htracked := h.tracked k x o hx ho
      refine ⟨htracked.due, fun _ => Int.le_refl _, fun htype _ => hlate o htype, ?_,
        htracked.triggered, htracked.recorded⟩
      exact fun _ hrecording => by cases hrecording
    · obtain ⟨hdue, hacquired, hylate, hrecording, htriggered, hrecorded⟩ := h.tracked i y o hold ho
      exact ⟨hdue, hacquired, hylate, hrecording, htriggered, hrecorded⟩
  triggeredOnce := by
    intro i j y z o hy hz htypey htypez htask
    rcases (getElem?_setExecution hx).mp hy with ⟨rfl, rfl⟩ | ⟨-, hyold⟩
    · rcases (getElem?_setExecution hx).mp hz with ⟨rfl, -⟩ | ⟨-, hzold⟩
      · rfl
      · exact h.triggeredOnce i j x z o hx hzold htypey htypez htask
    · rcases (getElem?_setExecution hx).mp hz with ⟨rfl, rfl⟩ | ⟨-, hzold⟩
      · exact h.triggeredOnce i j y x o hyold hx htypey htypez htask
      · exact h.triggeredOnce i j y z o hyold hzold htypey htypez htask
  startedOnce := by
    intro i j y z hy hz hstarty hstartz htask o hoy hoz
    rcases (getElem?_setExecution hx).mp hy with ⟨rfl, rfl⟩ | ⟨-, hyold⟩
    · rcases (getElem?_setExecution hx).mp hz with ⟨rfl, -⟩ | ⟨-, hzold⟩
      · rfl
      · rw [hfirst o hoy z (List.mem_of_getElem? hzold) htask.symm hoz] at hstartz
        cases hstartz
    · rcases (getElem?_setExecution hx).mp hz with ⟨rfl, rfl⟩ | ⟨-, hzold⟩
      · rw [hfirst o hoz y (List.mem_of_getElem? hyold) htask hoy] at hstarty
        cases hstarty
      · exact h.startedOnce i j y z hyold hzold hstarty hstartz htask o hoy hoz

/-- A status is written, with a time that is not before the last one. -/
theorem OccurrenceSafe.record (h : OccurrenceSafe cfg w) {k : Nat} {x : Execution}
    (hx : w.executions[k]? = some x) (hrecording : x.phase = .recording time)
    (hlast : ∀ task ∈ w.tasks.find x.taskId, ∀ last ∈ task.lastRunAt, last ≤ time) :
    OccurrenceSafe cfg ({ w with tasks := updateRunStatus w.tasks x.taskId time }.setExecution k
      { x with phase := .releasing, recorded := true }) := by
  refine h.of_continues ⟨Int.le_refl _, fun _ _ hsince => hsince.updateRunStatus hlast,
    fun _ _ time htime => ⟨time, htime, Int.le_refl _⟩⟩ (continues_setExecution hx rfl ?_)
  refine ⟨rfl, rfl, rfl, ?_, fun time hreleasing => ?_, fun _ => Or.inr fun o ho => ?_⟩
  · rw [hrecording]
    rfl
  · cases hreleasing
  · exact runSince_updateRunStatus_self ((h.tracked k x o hx ho).recording time hrecording)

/-! ## Runs -/

theorem missedOccurrence_lt {schedule : Schedule} {task : ScheduledTask} {now : Int}
    (h : missedOccurrence schedule task now = some o) : o < now := by
  unfold missedOccurrence at h
  split at h
  · cases h
  · obtain ⟨⟨-, hmissed⟩, heq⟩ := Option.ite_none_right_eq_some.mp h
    exact Option.some.inj heq ▸ hmissed

theorem Phase.ended_of_started {phase : Phase} (hstarted : phase.started = true)
    (hheld : phase.held = false) : phase = .ended := by
  cases phase with
  | ended => rfl
  | created => cases hstarted
  | skipped => cases hstarted
  | running => cases hheld
  | recording time => cases hheld
  | releasing => cases hheld

variable {s t : Sys} {e : Event}

/-- An execution that gets the running key is the first for its occurrence. -/
theorem first_of_decidesOnce (h : OccurrenceSafe cfg s.toWorld) (hlock : LockSafe s.toWorld) {k : Nat}
    {x : Execution} {redis : Redis} (hx : s.executions[k]? = some x) (hcreated : x.phase = .created)
    (hredis : s.toWorld.acquireRunning x = some redis) (htime : inTime s (.acquireRunning k))
    (honce : decidesOnce cfg s (.acquireRunning k)) (ho : x.triggerType.occurrence = some o)
    {y : Execution} (hy : y ∈ s.executions) (htask : y.taskId = x.taskId)
    (hoy : y.triggerType.occurrence = some o) : y.phase.started = false := by
  by_contra hstarted
  rw [Bool.not_eq_false] at hstarted
  obtain ⟨i, hi⟩ := List.mem_iff_getElem?.mp hy
  have hfree := (ExpiringKeys.setNx_eq_some_iff.mp hredis).1
  have hdecided : startsOnce s x := honce x hx hfree
  have htracked := h.tracked i y o hi hoy
  cases htype : x.triggerType with
  | manual =>
    rw [htype] at ho
    cases ho
  | schedule o' =>
    rw [htype] at ho
    rw [startsOnce, htype] at hdecided
    obtain rfl : o' = o := Option.some.inj ho
    -- a trigger of the same minute is this one; a recovery would have come later
    cases htypey : y.triggerType with
    | manual =>
      rw [htypey] at hoy
      cases hoy
    | schedule o =>
      rw [htypey] at hoy
      obtain rfl : o = o' := Option.some.inj hoy
      obtain rfl := h.triggeredOnce i k y x o hi hx htypey htype htask
      obtain rfl : x = y := Option.some.inj (hx.symm.trans hi)
      rw [hcreated] at hstarted
      cases hstarted
    | missedRecovery o =>
      rw [htypey] at hoy
      obtain rfl : o = o' := Option.some.inj hoy
      have hlate := htracked.late htypey hstarted
      have hacquired := htracked.acquired hstarted
      have hearly : s.now < o + minute := hdecided
      omega
  | missedRecovery o' =>
    rw [htype] at ho
    rw [startsOnce, htype] at hdecided
    obtain rfl : o' = o := Option.some.inj ho
    obtain ⟨-, hnotrun, hended⟩ := hdecided
    -- what was started is running, or its end is recorded
    cases hheld : y.phase.held with
    | true => exact (hlock.acquire hx hredis (htime x hx)).1 y hy hheld htask
    | false =>
      have hrecorded := hended y hy htask hoy (Phase.ended_of_started hstarted hheld)
      have hsince := (htracked.recorded hrecorded).not_notRunSince
      rw [htask, hnotrun] at hsince
      cases hsince

theorem occurrenceSafe_step (h : OccurrenceSafe cfg s.toWorld) (hlock : LockSafe s.toWorld)
    (hpast : TimesPast s) (htime : inTime s e) (honce : decidesOnce cfg s e)
    (hstep : (machine cfg).step s e = some t) : OccurrenceSafe cfg t.toWorld := by
  have heffect := effect_of_step hstep
  generalize t.toWorld = w at heffect ⊢
  cases heffect with
  | same => exact h
  | tick =>
    refine h.of_continues (.of_eq ?_ rfl rfl) (continues_of_executions rfl)
    exact Int.le_add_of_nonneg_right (Int.natCast_nonneg _)
  | manual =>
    refine h.create (fun o ho => ?_) (fun o htype => ?_) (fun o htype => ?_)
    · cases ho
    · cases htype
    · cases htype
  | @triggered p now task rest redis hloop hredis =>
    have hset : OccurrenceSafe cfg { s.toWorld with redis } := by
      refine h.of_continues ⟨Int.le_refl _, fun _ _ hsince => hsince, fun _ _ _ hexpiry => ?_⟩
        (continues_of_executions rfl)
      exact ExpiringKeys.expiry_setNx_le hredis (triggerTtl_nonneg _) hexpiry
    have hbegun : minuteStart now ≤ s.now :=
      Int.le_trans (minuteStart_le now) ((hpast p).1 _ hloop now rfl)
    refine hset.create (fun o ho => ?_) (fun o htype => ?_) (fun o htype x hx htask htypex => ?_)
    · exact Option.some.inj ho ▸ hbegun
    · obtain rfl := TriggerType.schedule.inj htype
      refine ⟨_, (ExpiringKeys.expiry_setNx hredis _).trans (if_pos rfl), ?_⟩
      exact Int.add_le_add_right hbegun _
    · obtain rfl := TriggerType.schedule.inj htype
      obtain ⟨i, hi⟩ := List.mem_iff_getElem?.mp hx
      obtain ⟨time, hexpiry, hle⟩ := (h.tracked i x _ hi (by rw [htypex]; rfl)).triggered htypex
      have hearly := honce _ hloop now rfl
      have halive := ExpiringKeys.alive_of_expiry hexpiry (Int.lt_of_lt_of_le hearly hle)
      rw [htask, (ExpiringKeys.setNx_eq_some_iff.mp hredis).1] at halive
      cases halive
  | @recovering p now occurrence task rest hrecovery hmissed =>
    refine h.create (fun o ho => ?_) (fun o htype => ?_) (fun o htype => ?_)
    · obtain rfl := Option.some.inj ho
      have hread := (hpast p).2 _ hrecovery now rfl
      exact Int.le_trans (Int.le_of_lt (missedOccurrence_lt hmissed)) hread
    · cases htype
    · cases htype
  | moved hx hmoves =>
    exact h.of_continues (.of_eq (Int.le_refl _) rfl rfl) (continues_setExecution hx rfl hmoves.follows)
  | @acquired k x redis hx hcreated hredis =>
    have hset : OccurrenceSafe cfg { s.toWorld with redis } := by
      refine h.of_continues ⟨Int.le_refl _, fun _ _ hsince => hsince, fun _ _ time hexpiry => ?_⟩
        (continues_of_executions rfl)
      exact ⟨time, ((ExpiringKeys.expiry_setNx hredis _).trans (if_neg (by simp))).trans hexpiry,
        Int.le_refl _⟩
    refine hset.acquire hx (fun o htype => ?_) fun o ho y hy htask hoy => ?_
    · have hdecided : startsOnce s x := honce x hx (ExpiringKeys.setNx_eq_some_iff.mp hredis).1
      rw [startsOnce, htype] at hdecided
      exact hdecided.1
    · exact first_of_decidesOnce h hlock hx hcreated hredis htime honce ho hy htask hoy
  | @recorded k x time hx hrecording =>
    have hforward : goesForward s.tasks x := honce x hx
    rw [goesForward, hrecording] at hforward
    exact h.record hx hrecording hforward
  | released hx hreleasing =>
    refine h.of_continues ⟨Int.le_refl _, fun _ _ hsince => hsince, fun _ _ time hexpiry => ?_⟩
      (continues_setExecution hx rfl (Moves.follows (hreleasing ▸ .releaseFailed)))
    exact ⟨time, (ExpiringKeys.expiry_del_of_ne (by simp)).trans hexpiry, Int.le_refl _⟩
  | killed =>
    exact h.of_continues (.of_eq (Int.le_refl _) rfl rfl) (continues_killed _ _)

/-- A process makes up for the first hour, and its loop triggers the second. Another process is
started then and finds the second hour missed; it does not get the task. -/
def secondHour : List Event :=
  [.start 0, .recoveryBegin 0, .recoveryList 0, .recoverNext 0, .acquireRunning 0, .tick 1000000,
    .executed 0, .recorded 0, .released 0, .recoverDone 0, .recoveryEnd 0, .tick 3504000000,
    .loopBegin 0, .loopList 0, .checkRunning 0, .acquireTrigger 0, .acquireRunning 1,
    .start 1, .recoveryBegin 1, .recoveryList 1, .recoverNext 1, .acquireRunning 2]

/-- A process is started within the minute. Its loop finds the task running, and is back half a
minute after the recovery. -/
def withinTheMinute : List Event :=
  [.start 0, .recoveryBegin 0, .recoveryList 0, .recoverNext 0, .acquireRunning 0,
    .loopBegin 0, .loopList 0, .checkRunning 0, .loopEnd 0, .tick 1000000,
    .executed 0, .recorded 0, .released 0, .recoverDone 0, .recoveryEnd 0, .tick 30000000,
    .loopBegin 0, .loopList 0, .checkRunning 0, .acquireTrigger 0, .acquireRunning 1]

end NeuralHub.Scheduler
