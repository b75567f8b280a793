/-
NeuralHub.Scheduler.RunningLock — executions of one task exclude each
other as long as none of them outlives its running key.

The key expires 600 seconds after it was set; that is also the timeout of
the executor, and behind the timeout come its cancellation and the write
of the status. The release deletes the key, whoever has set it. As long
as there is one execution at a time, the key of a task that is held is
the one that its execution has set (`Locked`), so the next acquire fails
if it comes in time, and if it comes later there are two at once:
`exclusive_iff_inTime`.
-/
import NeuralHub.Scheduler.Effects

namespace NeuralHub.Scheduler

open NeuralHub.Lib

/-- At most one execution of a task is between its acquire and its release. -/
def Exclusive (w : World) : Prop :=
  ∀ (i j : Nat) (x y : Execution), w.executions[i]? = some x → w.executions[j]? = some y →
    x.phase.held = true → y.phase.held = true → x.taskId = y.taskId → i = j

/-- A task is not acquired while an execution of it has the key for 600 seconds or longer. -/
def inTime (s : Sys) (e : Event) : Prop :=
  match e with
  | .acquireRunning k => ∀ x ∈ s.executions[k]?, ∀ y ∈ s.executions, y.taskId = x.taskId →
      y.phase.held = true → s.now < y.acquiredAt + runningTtl
  | _ => True

instance (s : Sys) (e : Event) : Decidable (inTime s e) := by
  unfold inTime
  split <;> infer_instance

/-! ## The invariant -/

/-- The running key of a task that is held is the one that its execution has set. -/
def Locked (w : World) : Prop :=
  ∀ (i : Nat) (x : Execution), w.executions[i]? = some x → x.phase.held = true →
    w.redis.expiry (.running x.taskId) = some (x.acquiredAt + runningTtl)

structure LockSafe (w : World) : Prop where
  exclusive : Exclusive w
  locked : Locked w

/-- What is held in `w'` is held in `w`, by the same execution. -/
def HeldWithin (w w' : World) : Prop :=
  ∀ (i : Nat) (x' : Execution), w'.executions[i]? = some x' → x'.phase.held = true →
    ∃ x, w.executions[i]? = some x ∧ x.phase.held = true ∧ x.taskId = x'.taskId ∧
      x.acquiredAt = x'.acquiredAt

variable {w w' : World}

theorem Exclusive.of_heldWithin (h : Exclusive w) (hwithin : HeldWithin w w') : Exclusive w' := by
  intro i j x' y' hx' hy' hheldx hheldy htask
  obtain ⟨x, hx, hxheld, hxtask, -⟩ := hwithin i x' hx' hheldx
  obtain ⟨y, hy, hyheld, hytask, -⟩ := hwithin j y' hy' hheldy
  exact h i j x y hx hy hxheld hyheld (by rw [hxtask, hytask, htask])

/-- Steps that acquire nothing and leave the running keys alone. -/
theorem LockSafe.of_heldWithin (h : LockSafe w) (hwithin : HeldWithin w w')
    (hkeys : ∀ taskId, w'.redis.expiry (.running taskId) = w.redis.expiry (.running taskId)) :
    LockSafe w' where
  exclusive := h.exclusive.of_heldWithin hwithin
  locked := by
    intro i x' hx' hheld
    obtain ⟨x, hx, hxheld, htask, hacquired⟩ := hwithin i x' hx' hheld
    rw [hkeys, ← htask, ← hacquired]
    exact h.locked i x hx hxheld

theorem heldWithin_of_executions (h : w'.executions = w.executions) : HeldWithin w w' := by
  intro i x hx hheld
  rw [h] at hx
  exact ⟨x, hx, hheld, rfl, rfl⟩

theorem heldWithin_create (w : World) (p : Nat) (taskId : String) (triggerType : TriggerType) :
    HeldWithin w (w.create p taskId triggerType) := by
  intro i x hx hheld
  have hx : (w.executions ++ [{ process := p, taskId, triggerType }])[i]? = some x := hx
  rw [List.getElem?_append] at hx
  split at hx
  · exact ⟨x, hx, hheld, rfl, rfl⟩
  · obtain rfl := List.mem_singleton.mp (List.mem_of_getElem? hx)
    cases hheld

theorem getElem?_setExecution {k i : Nat} {x x' y : Execution} (hx : w.executions[k]? = some x) :
    (w.setExecution k x').executions[i]? = some y ↔
      i = k ∧ y = x' ∨ i ≠ k ∧ w.executions[i]? = some y := by
  have hk : k < w.executions.length := (List.getElem?_eq_some_iff.mp hx).1
  show (w.executions.set k x')[i]? = some y ↔ _
  rw [List.getElem?_set]
  by_cases hik : k = i
  · subst hik
    rw [if_pos rfl, if_pos hk]
    simp [eq_comm]
  · rw [if_neg hik]
    simp [Ne.symm hik]

/-- An execution that moves on holds nothing that it did not hold before. -/
theorem heldWithin_setExecution {k : Nat} {x x' : Execution} (hx : w.executions[k]? = some x)
    (hheld : x'.phase.held = true → x.phase.held = true) (htask : x.taskId = x'.taskId)
    (hacquired : x.acquiredAt = x'.acquiredAt) : HeldWithin w (w.setExecution k x') := by
  intro i y hy hyheld
  rcases (getElem?_setExecution hx).mp hy with ⟨rfl, rfl⟩ | ⟨-, hold⟩
  · exact ⟨x, hx, hheld hyheld, htask, hacquired⟩
  · exact ⟨y, hold, hyheld, rfl, rfl⟩

theorem heldWithin_killed (w : World) (p : Nat) :
    HeldWithin w { w with executions := w.executions.map (Execution.kill p) } := by
  intro i x' hx' hheld
  have hx' : (w.executions.map (Execution.kill p))[i]? = some x' := hx'
  rw [List.getElem?_map] at hx'
  obtain ⟨x, hx, rfl⟩ := Option.map_eq_some_iff.mp hx'
  unfold Execution.kill at hheld ⊢
  split at hheld
  · rw [Phase.held_kill] at hheld
    cases hheld
  · rename_i hother
    rw [if_neg hother]
    exact ⟨x, hx, hheld, rfl, rfl⟩

/-- Whoever holds the task has the key, unless it has expired. -/
theorem LockSafe.alive (h : LockSafe w) {i : Nat} {x : Execution} (hx : w.executions[i]? = some x)
    (hheld : x.phase.held = true) :
    w.redis.alive w.now (.running x.taskId) = true ↔ w.now < x.acquiredAt + runningTtl := by
  rw [ExpiringKeys.alive_iff, h.locked i x hx hheld]
  constructor
  · rintro ⟨time, htime, hlt⟩
    exact Option.some.inj htime ▸ hlt
  · exact fun hlt => ⟨_, rfl, hlt⟩

/-! ## Acquire and release -/

/-- The key of a task is free, so nobody holds the task. -/
theorem LockSafe.acquire (h : LockSafe w) {k : Nat} {x : Execution} {redis : Redis}
    (hx : w.executions[k]? = some x) (hredis : w.acquireRunning x = some redis)
    (htime : ∀ y ∈ w.executions, y.taskId = x.taskId → y.phase.held = true →
      w.now < y.acquiredAt + runningTtl) :
    (∀ y ∈ w.executions, y.phase.held = true → y.taskId ≠ x.taskId) ∧
      LockSafe ({ w with redis }.setExecution k { x with phase := .running, acquiredAt := w.now }) := by
  have hfree := (ExpiringKeys.setNx_eq_some_iff.mp hredis).1
  have hother : ∀ y ∈ w.executions, y.phase.held = true → y.taskId ≠ x.taskId := by
    intro y hy hheld htask
    obtain ⟨i, hi⟩ := List.mem_iff_getElem?.mp hy
    have halive := (h.alive hi hheld).mpr (htime y hy htask hheld)
    rw [htask, hfree] at halive
    cases halive
  refine ⟨hother, ?_, ?_⟩
  · intro i j y z hy hz hyheld hzheld htask
    rcases (getElem?_setExecution hx).mp hy with ⟨rfl, rfl⟩ | ⟨-, hyold⟩
    · rcases (getElem?_setExecution hx).mp hz with ⟨rfl, -⟩ | ⟨-, hzold⟩
      · rfl
      · exact absurd htask.symm (hother z (List.mem_of_getElem? hzold) hzheld)
    · rcases (getElem?_setExecution hx).mp hz with ⟨rfl, rfl⟩ | ⟨-, hzold⟩
      · exact absurd htask (hother y (List.mem_of_getElem? hyold) hyheld)
      · exact h.exclusive i j y z hyold hzold hyheld hzheld htask
  · intro i y hy hheld
    show redis.expiry (.running y.taskId) = _
    rw [ExpiringKeys.expiry_setNx hredis]
    rcases (getElem?_setExecution hx).mp hy with ⟨rfl, rfl⟩ | ⟨-, hy⟩
    · exact if_pos rfl
    · rw [if_neg fun hkey => hother y (List.mem_of_getElem? hy) hheld (RedisKey.running.inj hkey)]
      exact h.locked i y hy hheld

/-- The release deletes the key of its own execution. -/
theorem LockSafe.release (h : LockSafe w) {k : Nat} {x : Execution} (hx : w.executions[k]? = some x)
    (hheld : x.phase.held = true) :
    LockSafe ({ w with redis := w.redis.del (.running x.taskId) }.setExecution k
      { x with phase := .ended }) where
  exclusive := by
    refine h.exclusive.of_heldWithin (heldWithin_setExecution hx (fun hended => ?_) rfl rfl)
    cases hended
  locked := by
    intro i y hy hyheld
    rcases (getElem?_setExecution hx).mp hy with ⟨rfl, rfl⟩ | ⟨hik, hy⟩
    · cases hyheld
    · show (w.redis.del (.running x.taskId)).expiry (.running y.taskId) = _
      rw [ExpiringKeys.expiry_del_of_ne]
      · exact h.locked i y hy hyheld
      · intro hkey
        exact hik (h.exclusive i k y x hy hx hyheld hheld (RedisKey.running.inj hkey))

variable {cfg : Config} {s t : Sys} {e : Event}

theorem lockSafe_step (h : LockSafe s.toWorld) (htime : inTime s e)
    (hstep : (machine cfg).step s e = some t) : LockSafe t.toWorld := by
  have heffect := effect_of_step hstep
  generalize t.toWorld = w at heffect ⊢
  cases heffect with
  | same => exact h
  | tick => exact h.of_heldWithin (heldWithin_of_executions rfl) fun _ => rfl
  | manual => exact h.of_heldWithin (heldWithin_create _ _ _ _) fun _ => rfl
  | triggered hloop hredis =>
    refine h.of_heldWithin (heldWithin_create _ _ _ _) fun taskId => ?_
    exact (ExpiringKeys.expiry_setNx hredis _).trans (if_neg (by simp))
  | recovering => exact h.of_heldWithin (heldWithin_create _ _ _ _) fun _ => rfl
  | moved hx hmoves =>
    exact h.of_heldWithin (heldWithin_setExecution hx hmoves.held rfl rfl) fun _ => rfl
  | @acquired k x redis hx hcreated hredis => exact (h.acquire hx hredis (htime x hx)).2
  | recorded hx hrecording =>
    refine h.of_heldWithin (heldWithin_setExecution hx (fun _ => ?_) rfl rfl) fun _ => rfl
    rw [hrecording]
    rfl
  | released hx hreleasing =>
    refine h.release hx ?_
    rw [hreleasing]
    rfl
  | killed => exact h.of_heldWithin (heldWithin_killed _ _) fun _ => rfl

/-- An acquire that comes too late succeeds while the task is held. -/
theorem not_exclusive_step (h : LockSafe s.toWorld) (hlate : ¬inTime s e)
    (hstep : (machine cfg).step s e = some t) : ¬Exclusive t.toWorld := by
  unfold inTime at hlate
  split at hlate
  · rename_i k
    simp only [not_forall, Int.not_lt] at hlate
    obtain ⟨x', hx', y, hy, htask, hheld, hexpired⟩ := hlate
    obtain ⟨x, hx, hstep⟩ := Option.bind_eq_some_iff.mp
      (show (s.executions[k]?.bind fun x => executionStep s k x (.acquireRunning k)) = some t from hstep)
    obtain ⟨hcreated, houtcome⟩ := acquireRunning_executionStep hstep
    obtain rfl : x = x' := Option.some.inj (hx.symm.trans hx')
    obtain ⟨i, hi⟩ := List.mem_iff_getElem?.mp hy
    have hfree : s.redis.alive s.now (.running x.taskId) = false := by
      rw [← htask, ← Bool.not_eq_true, h.alive hi hheld]
      omega
    have hik : i ≠ k := by
      rintro rfl
      obtain rfl : x = y := Option.some.inj (hx.symm.trans hi)
      rw [hcreated] at hheld
      cases hheld
    rcases houtcome with ⟨hnone, -⟩ | ⟨redis, hredis, hworld⟩
    · have hsome : s.toWorld.acquireRunning x ≠ none := by
        unfold World.acquireRunning ExpiringKeys.setNx
        rw [hfree]
        simp
      exact absurd hnone hsome
    · rw [hworld]
      intro hexclusive
      refine hik (hexclusive i k y { x with phase := .running, acquiredAt := s.now } ?_ ?_ hheld rfl
        htask)
      · exact (getElem?_setExecution hx).mpr (Or.inr ⟨hik, hi⟩)
      · exact (getElem?_setExecution hx).mpr (Or.inl ⟨rfl, rfl⟩)
  · exact absurd trivial hlate

/-- In a run that begins without executions, no task is ever executed twice at a time if and only
if every acquire is in time. -/
theorem exclusive_iff_inTime {as : List Event} (hnew : s.executions = [])
    (hrun : (machine cfg).run s as = some t) :
    (machine cfg).Always (fun s => Exclusive s.toWorld) s as ↔ (machine cfg).Meets inTime s as := by
  have hinit : LockSafe s.toWorld := by
    constructor
    · intro i j x y hx
      rw [hnew] at hx
      cases hx
    · intro i x hx
      rw [hnew] at hx
      cases hx
  exact (machine cfg).always_iff_meets (fun _ h => h.exclusive)
    (fun _ _ _ h htime hstep => lockSafe_step h htime hstep)
    (fun _ _ _ h hlate hstep => not_exclusive_step h hlate hstep) hinit hrun

/-- Two processes run the task, one after the other; the second has to try twice. -/
theorem exclusive_oneAfterTheOther : ∃ t,
    (machine hourlyConfig).run (hourlySys 0 0)
        [.runTask 0 "report", .acquireRunning 0, .runTask 1 "report", .acquireRunning 1,
          .tick 300000000, .executed 0, .recorded 0, .released 0,
          .runTask 1 "report", .acquireRunning 2] = some t ∧
      (machine hourlyConfig).Always (fun s => Exclusive s.toWorld) (hourlySys 0 0)
        [.runTask 0 "report", .acquireRunning 0, .runTask 1 "report", .acquireRunning 1,
          .tick 300000000, .executed 0, .recorded 0, .released 0,
          .runTask 1 "report", .acquireRunning 2] ∧
      t.executions.map (·.phase) = [.ended, .skipped, .running] := by
  obtain ⟨t, hrun, hphases⟩ := Option.map_eq_some_iff.mp
    (show ((machine hourlyConfig).run (hourlySys 0 0)
        [.runTask 0 "report", .acquireRunning 0, .runTask 1 "report", .acquireRunning 1,
          .tick 300000000, .executed 0, .recorded 0, .released 0,
          .runTask 1 "report", .acquireRunning 2]).map (fun t => t.executions.map (·.phase)) =
      some [.ended, .skipped, .running] by decide)
  exact ⟨t, hrun, (exclusive_iff_inTime rfl hrun).mpr (by decide), hphases⟩

/-- The executor is ended by its timeout, and before the status is written another process
acquires the task, whose key has expired. -/
theorem executed_twice : ∃ t,
    (machine hourlyConfig).run (hourlySys 0 0)
        [.runTask 0 "report", .acquireRunning 0, .tick 600000000, .executed 0,
          .runTask 1 "report", .acquireRunning 1] = some t ∧ ¬Exclusive t.toWorld := by
  obtain ⟨t, hrun, hexecutions⟩ := Option.map_eq_some_iff.mp
    (show ((machine hourlyConfig).run (hourlySys 0 0)
        [.runTask 0 "report", .acquireRunning 0, .tick 600000000, .executed 0,
          .runTask 1 "report", .acquireRunning 1]).map (·.executions) =
      some [⟨0, "report", .manual, .recording 600000000, 0, false⟩,
        ⟨1, "report", .manual, .running, 600000000, false⟩] by decide)
  refine ⟨t, hrun, fun hexclusive => ?_⟩
  have hfirst := congrArg (fun executions : List Execution => executions[0]?) hexecutions
  have hsecond := congrArg (fun executions : List Execution => executions[1]?) hexecutions
  have hsame : (0 : Nat) = 1 := hexclusive 0 1 _ _ hfirst hsecond rfl rfl rfl
  cases hsame

end NeuralHub.Scheduler
