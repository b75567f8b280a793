/-
NeuralHub.TaskQueue.WaitTimeout — does a worker's result survive the
waiters that gave the task up?

`wait_for_task_payloads` polls, and after its timeout fails what is still
open with `WAIT_TIMEOUT_ERROR`. A worker that finishes later may still
complete such a task, if the error is that one and the worker id in it is
its own. `LateComplete` (one for each back end) is the situation: `w`'s
claim returns `t`; then only heartbeats and waiters write `t`; then `w`
completes it; then again only heartbeats and waiters.

Over the database each test is in the transaction that writes, and the
result always survives. Over Redis alone `fail` is a `GET`, a test and a
`SET`. Two orders lose the result: a waiter that tested before the claim
and writes after it puts the empty worker id back, and a waiter that
tested before the completion and writes after it puts FAILED over the
result (`redis_waiter_discards_result`). `waiterSeesSnapshot` rules out
both, and `wait_timeout_keeps_result` says that nothing else goes wrong.
-/
import NeuralHub.TaskQueue.PersistedTheorems
import NeuralHub.TaskQueue.RedisQueueTheorems

namespace NeuralHub.TaskQueue

open NeuralHub.Lib

variable {δ : Type}

/-- `w` still has the task: it is running, or a waiter has given it up. -/
def TaskPayload.openTo (p : TaskPayload δ) (w : String) : Prop :=
  p.workerId = w ∧ (p.status = .running ∨ (p.status = .failed ∧ p.error = waitTimeoutError))

/-- Task `t` in `rows` is SUCCEEDED with result `r`. -/
def Succeeded (rows : Rows δ) (t : String) (r : δ) : Prop :=
  ∃ q, rows.find t = some q ∧ q.status = .succeeded ∧ q.result = some r

/-- Task `t` in `rows` is still open to `w`. -/
def OpenTo (rows : Rows δ) (t w : String) : Prop := ∃ p, rows.find t = some p ∧ p.openTo w

/-! ## Over the database -/

namespace Persisted

/-- A step that writes task `t` is a heartbeat's or a waiter's. -/
def onlyWaiters (t : String) (s : Sys δ) : Action δ → Bool
  | .tick _ => true
  | .op i o =>
      match s.points i, o with
      | .idle _, .submit spec => spec.taskId ≠ t
      | .idle _, .complete t' _ _ => t' ≠ t
      | .idle _, .fail t' _ _ => t' ≠ t
      | .claimRow _ t', _ => t' ≠ t
      | .cancelSave p, .next => p.taskId ≠ t
      | .recoverEach (p :: _) _, .next => p.taskId ≠ t
      | _, _ => true

/-- `w` claims `t` and later completes it; in between and afterwards only
heartbeats and waiters write `t`. -/
structure LateComplete (ns t w : String) (r : δ) (i j : Nat) (mid post : List (Action δ))
    (s₀ s₁ s₂ s₃ s₄ : Sys δ) : Prop where
  popped : s₀.points i = .claimRow w t
  claimed : step ns s₀ (.op i .next) = some s₁
  returned : ∃ p, s₁.points i = .idle (.task (some p))
  working : (machine ns).run s₁ mid = some s₂
  waiting : (machine ns).Meets (fun s a => onlyWaiters t s a = true) s₁ mid
  completed : step ns s₂ (.op j (.complete t r w)) = some s₃
  later : (machine ns).run s₃ post = some s₄
  waitingLater : (machine ns).Meets (fun s a => onlyWaiters t s a = true) s₃ post

theorem find_complete_of_ne {rows : Rows δ} {t t' w : String} {r : δ} (h : t' ≠ t) :
    (rows.complete t' r w).1.find t = rows.find t := by
  unfold Rows.complete
  split
  · rename_i p hp
    split
    · refine Table.find_put_of_ne rows fun he => h ?_
      rw [he, TaskPayload.taskId_succeeded, Table.key_of_find hp]
    · rfl
  · rfl

theorem find_fail (rows : Rows δ) (t t' e w : String) :
    (rows.fail t' e w).1.find t = rows.find t ∨
      ∃ p, rows.find t = some p ∧ p.canFail w = true ∧ t' = t ∧
        (rows.fail t' e w).1.find t = some (p.failed e) := by
  unfold Rows.fail
  split
  · rename_i p hp
    split
    · rename_i hcan
      have hid : p.taskId = t' := Table.key_of_find hp
      dsimp only
      rw [Table.find_put]
      split
      · rename_i ht
        rw [TaskPayload.taskId_failed, hid] at ht
        subst ht
        exact Or.inr ⟨p, hp, hcan, rfl, rfl⟩
      · exact Or.inl rfl
    · exact Or.inl rfl
  · exact Or.inl rfl

theorem find_renewLease (rows : Rows δ) (t t' : String) (extra now : Int) :
    (rows.renewLease t' extra now).find t = rows.find t ∨
      ∃ p, rows.find t = some p ∧ p.status = .running ∧
        (rows.renewLease t' extra now).find t = some (p.renewed (now + extra)) := by
  unfold Rows.renewLease
  split
  · rename_i p hp
    split
    · rename_i hrun
      rw [Table.find_put]
      split
      · rename_i ht
        rw [TaskPayload.taskId_renewed, Table.key_of_find hp] at ht
        subst ht
        exact Or.inr ⟨p, hp, hrun, rfl⟩
      · exact Or.inl rfl
    · exact Or.inl rfl
  · exact Or.inl rfl

theorem find_claim_of_ne {rows : Rows δ} {t t' w : String} {now : Int} (h : t' ≠ t) :
    (rows.claim t' w now).1.find t = rows.find t := by
  unfold Rows.claim
  split
  · rename_i p hp
    split
    · refine Table.find_put_of_ne rows fun he => h ?_
      rw [he, TaskPayload.taskId_claimed, Table.key_of_find hp]
    · rfl
  · rfl

/-- What heartbeats and waiters can do to the row of `t`: nothing, renew a
running row, or fail an active one with the waiters' error. -/
theorem find_of_onlyWaiters {ns t : String} {i : Nat} {s s' : Sys δ} {o : Op δ}
    {p : TaskPayload δ} (hp : s.rows.find t = some p)
    (hw : onlyWaiters t s (.op i o) = true) (hstep : step ns s (.op i o) = some s') :
    s'.rows.find t = some p ∨
      (p.status = .running ∧ ∃ l, s'.rows.find t = some (p.renewed l)) ∨
      (p.active = true ∧ s'.rows.find t = some (p.failed waitTimeoutError)) := by
  obtain ⟨pt, hpt, _⟩ := step_op hstep
  rw [stepPoint_rowsAfter hpt, ← hp]
  simp only [onlyWaiters] at hw
  generalize s.points i = here at hw ⊢
  unfold rowsAfter
  split
  · left
    exact Table.find_put_of_ne _ fun he => (of_decide_eq_true hw) he.symm
  · exact Or.inl (find_complete_of_ne (of_decide_eq_true hw))
  · rcases find_fail s.rows t _ _ _ with h | ⟨_, _, _, ht, _⟩
    · exact Or.inl h
    · exact absurd ht (of_decide_eq_true hw)
  · rename_i extra
    rcases find_renewLease s.rows t _ extra s.now with h | ⟨q, hq, hrun, h⟩
    · exact Or.inl h
    · rw [hp] at hq
      cases hq
      exact Or.inr (Or.inl ⟨hrun, _, h⟩)
  · split
    · exact Or.inl rfl
    · rename_i hconf
      left
      rw [hp, find_putAll_of_insert (by simpa using hconf) hp]
  · split
    · exact Or.inl (find_claim_of_ne (of_decide_eq_true hw))
    · exact Or.inl rfl
  · split
    · exact Or.inl (find_claim_of_ne (of_decide_eq_true hw))
    · exact Or.inl rfl
  · left
    exact Table.find_put_of_ne _ fun he => (of_decide_eq_true hw) he.symm
  · split
    · left
      exact Table.find_put_of_ne _ fun he => (of_decide_eq_true hw) he.symm
    · rcases find_fail s.rows t _ _ _ with h | ⟨_, _, _, ht, _⟩
      · exact Or.inl h
      · exact absurd ht (of_decide_eq_true hw)
  · split
    · exact Or.inl rfl
    · rcases find_fail s.rows t _ waitTimeoutError "" with h | ⟨q, hq, hcan, _, h⟩
      · exact Or.inl h
      · rw [hp] at hq
        cases hq
        exact Or.inr (Or.inr ⟨TaskPayload.active_of_canFail hcan, h⟩)
  · exact Or.inl rfl

theorem openTo_step {ns t w : String} {s s' : Sys δ} {a : Action δ} (h : OpenTo s.rows t w)
    (hw : onlyWaiters t s a = true) (hstep : step ns s a = some s') : OpenTo s'.rows t w := by
  cases a with
  | tick d =>
    obtain ⟨_, rfl⟩ := step_tick hstep
    exact h
  | op i o =>
    obtain ⟨p, hp, hid, hst⟩ := h
    rcases find_of_onlyWaiters hp hw hstep with h | ⟨hrun, l, h⟩ | ⟨_, h⟩
    · exact ⟨p, h, hid, hst⟩
    · exact ⟨_, h, hid, Or.inl hrun⟩
    · exact ⟨_, h, hid, Or.inr ⟨rfl, rfl⟩⟩

theorem succeeded_step {ns t : String} {r : δ} {s s' : Sys δ} {a : Action δ}
    (h : Succeeded s.rows t r) (hw : onlyWaiters t s a = true)
    (hstep : step ns s a = some s') : Succeeded s'.rows t r := by
  cases a with
  | tick d =>
    obtain ⟨_, rfl⟩ := step_tick hstep
    exact h
  | op i o =>
    obtain ⟨p, hp, hst, hr⟩ := h
    rcases find_of_onlyWaiters hp hw hstep with h | ⟨hrun, _⟩ | ⟨hact, _⟩
    · exact ⟨p, h, hst, hr⟩
    · rw [hst] at hrun
      cases hrun
    · rw [TaskPayload.active_iff, hst] at hact
      simp at hact

/-- An open task accepts its worker's result. -/
theorem canComplete_of_openTo {p : TaskPayload δ} {w : String} (hw : w ≠ "")
    (h : p.openTo w) : p.canComplete w = true := by
  obtain ⟨hid, hrun | ⟨hfail, herr⟩⟩ := h
  · simp [TaskPayload.canComplete, hrun, hid]
  · simp [TaskPayload.canComplete, hfail, herr, hid, hw]

/-- A claim that returns a task leaves it open to its worker. -/
theorem openTo_of_claimed {i : Nat} {s s' : Shared δ} {t w : String} {p : TaskPayload δ}
    (h : resume i s (.claimRow w t) = some (s', .idle (.task (some p)))) :
    OpenTo s'.rows t w := by
  simp only [resume] at h
  split at h
  · unfold Rows.claim at h
    split at h
    · rename_i rows q hq
      split at hq
      · rename_i x hx
        split at hq <;> cases hq
        cases h
        refine ⟨x.claimed w s.now, ?_, rfl, Or.inl rfl⟩
        rw [← Table.key_of_find hx]
        exact Table.find_put_self s.rows (x.claimed w s.now)
      · cases hq
    · cases h
  · cases h

theorem LateComplete.result_kept {ns t w : String} {r : δ} {i j : Nat}
    {mid post : List (Action δ)} {s₀ s₁ s₂ s₃ s₄ : Sys δ} (hw : w ≠ "")
    (h : LateComplete ns t w r i j mid post s₀ s₁ s₂ s₃ s₄) :
    s₃.points j = .idle (.bool true) ∧ Succeeded s₄.rows t r := by
  have hclaimed : OpenTo s₁.rows t w := by
    obtain ⟨pt, hpt, hpts⟩ := step_op h.claimed
    obtain ⟨p, hp⟩ := h.returned
    rw [hpts, Function.update_self] at hp
    rw [h.popped, hp] at hpt
    exact openTo_of_claimed hpt
  have hopen : OpenTo s₂.rows t w :=
    (machine ns).run_invariant_of_meets (fun _ _ _ hI hC hs => openTo_step hI hC hs)
      hclaimed h.waiting h.working
  obtain ⟨p, hp, hpo⟩ := hopen
  have hcan := canComplete_of_openTo hw hpo
  obtain ⟨pt, hpt, hpts⟩ := step_op h.completed
  obtain ⟨⟨v, _⟩, hstart⟩ := stepPoint_start (by simp) (by simp) hpt
  have hout : s₂.rows.complete t r w = (s₂.rows.put (p.succeeded r), true) := by
    simp [Rows.complete, hp, hcan]
  simp only [start, hout, Option.map_eq_some_iff] at hstart
  obtain ⟨u, hu, heq⟩ := hstart
  have hrows := commitRow_eq_some hu
  cases heq
  refine ⟨by rw [hpts, Function.update_self], ?_⟩
  have hdone : Succeeded s₃.rows t r := by
    refine ⟨p.succeeded r, ?_, rfl, rfl⟩
    rw [hrows, ← Table.key_of_find hp]
    exact Table.find_put_self s₂.rows (p.succeeded r)
  exact (machine ns).run_invariant_of_meets (fun _ _ _ hI hC hs => succeeded_step hI hC hs)
    hdone h.waitingLater h.later

end Persisted

/-! ## Over Redis -/

namespace RedisQueue

/-- The payload a waiter's `fail` tested before the `SET` it is about to send. -/
def waiterSnapshot : Point δ → Op δ → Option (TaskPayload δ)
  | .waitFailSet _ _ snapshot _ _ _, .next => some snapshot
  | _, _ => none

/-- A step that saves task `t` is a waiter's. -/
def onlyWaiters (ns t : String) (s : Sys δ) : Action δ → Bool
  | .tick _ => true
  | .op i o =>
      (waiterSnapshot (s.points i) o).isSome ||
        (pointSet ns s.now (s.points i) o).all (fun q => q.taskId ≠ t)

/-- A waiter about to save `t` tested it in the present hands, and the task
has not been completed since. -/
def waiterSeesSnapshot (t : String) (s : Sys δ) : Action δ → Bool
  | .tick _ => true
  | .op i o =>
      (waiterSnapshot (s.points i) o).all fun p =>
        decide (p.taskId ≠ t) ||
          (s.keys.find t).all fun q =>
            decide (q.status ≠ .succeeded) && decide (q.workerId = p.workerId)

/-- `w` claims `t` and later completes it, with a `GET` (after `mid`) and a
`SET` (after `between`); apart from that only waiters save `t`. -/
structure LateComplete (ns t w : String) (r : δ) (i j : Nat)
    (mid between post : List (Action δ)) (s₀ s₁ s₂ s₃ s₄ s₅ s₆ : Sys δ) : Prop where
  claiming : ∃ p, s₀.points i = .claimSet p ∧ p.taskId = t ∧ p.workerId = w ∧ p.status = .running
  claimed : step ns s₀ (.op i .next) = some s₁
  working : (machine ns).run s₁ mid = some s₂
  waiting : (machine ns).Meets (fun s a => onlyWaiters ns t s a = true) s₁ mid
  completing : step ns s₂ (.op j (.complete t r w)) = some s₃
  meanwhile : (machine ns).run s₃ between = some s₄
  completer : some j ∉ between.map Action.actor
  completed : step ns s₄ (.op j .next) = some s₅
  later : (machine ns).run s₅ post = some s₆
  waitingLater : (machine ns).Meets (fun s a => onlyWaiters ns t s a = true) s₅ post

/-- What waiters can do to the key of `t`: nothing, or fail it as they saw it. -/
theorem find_of_onlyWaiters {ns t : String} {i : Nat} {s s' : Sys δ} {o : Op δ}
    (hw : onlyWaiters ns t s (.op i o) = true) (hstep : step ns s (.op i o) = some s') :
    s'.keys.find t = s.keys.find t ∨
      ∃ p, waiterSnapshot (s.points i) o = some p ∧ p.taskId = t ∧
        s'.keys.find t = some (p.failedCleared waitTimeoutError) := by
  obtain ⟨pt, hpt, _⟩ := step_op hstep
  rw [stepPoint_keys hpt]
  simp only [onlyWaiters, Bool.or_eq_true] at hw
  generalize s.points i = here at hw ⊢
  rcases hw with hsnap | hother
  · unfold waiterSnapshot at hsnap ⊢
    split at hsnap
    · rename_i snapshot p todo final
      simp only [pointSet, keysAfter]
      rw [Table.find_put]
      split
      · rename_i ht
        exact Or.inr ⟨snapshot, rfl, ht.symm, rfl⟩
      · exact Or.inl rfl
    · cases hsnap
  · left
    cases hset : pointSet ns s.now here o with
    | none => rfl
    | some q =>
      rw [hset] at hother
      exact Table.find_put_of_ne s.keys fun he => (of_decide_eq_true hother) he.symm

theorem openTo_step {ns t w : String} {s s' : Sys δ} {a : Action δ} (h : OpenTo s.keys t w)
    (hw : onlyWaiters ns t s a = true) (hsees : waiterSeesSnapshot t s a = true)
    (hstep : step ns s a = some s') : OpenTo s'.keys t w := by
  cases a with
  | tick d =>
    obtain ⟨_, rfl⟩ := step_tick hstep
    exact h
  | op i o =>
    obtain ⟨q, hq, hid, hst⟩ := h
    rcases find_of_onlyWaiters hw hstep with hsame | ⟨p, hp, ht, hset⟩
    · exact ⟨q, hsame.trans hq, hid, hst⟩
    · simp only [waiterSeesSnapshot, hp, Option.all_some, hq, ht, ne_eq, not_true_eq_false,
        decide_false, Bool.false_or, Bool.and_eq_true, decide_eq_true_eq] at hsees
      exact ⟨_, hset, hsees.2.symm.trans hid, Or.inr ⟨rfl, rfl⟩⟩

theorem succeeded_step {ns t : String} {r : δ} {s s' : Sys δ} {a : Action δ}
    (h : Succeeded s.keys t r) (hw : onlyWaiters ns t s a = true)
    (hsees : waiterSeesSnapshot t s a = true) (hstep : step ns s a = some s') :
    Succeeded s'.keys t r := by
  cases a with
  | tick d =>
    obtain ⟨_, rfl⟩ := step_tick hstep
    exact h
  | op i o =>
    obtain ⟨q, hq, hst, hr⟩ := h
    rcases find_of_onlyWaiters hw hstep with hsame | ⟨p, hp, ht, _⟩
    · exact ⟨q, hsame.trans hq, hst, hr⟩
    · simp [waiterSeesSnapshot, hp, hq, ht, hst] at hsees

/-- An open task accepts its worker's result. -/
theorem updateTerminal_of_openTo {p : TaskPayload δ} {w : String} {r : δ} (hw : w ≠ "")
    (h : p.openTo w) :
    updateTerminal p .succeeded (some r) "" w = some (p.succeeded r) := by
  obtain ⟨hid, hrun | ⟨hfail, herr⟩⟩ := h
  · simp [updateTerminal, TaskPayload.canUpdateTerminal, TaskPayload.succeeded, hrun, hid]
  · simp [updateTerminal, TaskPayload.canUpdateTerminal, TaskPayload.succeeded, hfail, herr, hid,
      hw]

theorem LateComplete.result_kept {ns t w : String} {r : δ} {i j : Nat}
    {mid between post : List (Action δ)} {s₀ s₁ s₂ s₃ s₄ s₅ s₆ : Sys δ} (hw : w ≠ "")
    (h : LateComplete ns t w r i j mid between post s₀ s₁ s₂ s₃ s₄ s₅ s₆)
    (hmid : (machine ns).Meets (fun s a => waiterSeesSnapshot t s a = true) s₁ mid)
    (hpost : (machine ns).Meets (fun s a => waiterSeesSnapshot t s a = true) s₅ post) :
    s₅.points j = .idle (.bool true) ∧ Succeeded s₆.keys t r := by
  have hclaimed : OpenTo s₁.keys t w := by
    obtain ⟨q, hq, ht, hid, hrun⟩ := h.claiming
    obtain ⟨pt, hpt, _⟩ := step_op h.claimed
    have hkeys := stepPoint_keys hpt
    rw [hq] at hkeys
    exact ⟨q, by rw [hkeys, ← ht]; exact Table.find_put_self s₀.keys q, hid, Or.inl hrun⟩
  obtain ⟨p, hp, hopen⟩ : OpenTo s₂.keys t w :=
    (machine ns).run_invariant_of_meets
      (fun _ _ _ hI hC hs => openTo_step hI hC.1 hC.2 hs) hclaimed
      ((machine ns).meets_and.mpr ⟨h.waiting, hmid⟩) h.working
  have htested : s₃.points j = .updateSet (p.succeeded r) := by
    obtain ⟨pt, hpt, hpts⟩ := step_op h.completing
    obtain ⟨_, hstart⟩ := stepPoint_start (by simp) hpt
    simp only [start, update, hp, updateTerminal_of_openTo hw hopen, Option.some.injEq,
      Prod.mk.injEq] at hstart
    rw [hpts, Function.update_self, ← hstart.2]
  have hstill : s₄.points j = .updateSet (p.succeeded r) :=
    (points_run_of_notMem h.completer h.meanwhile).trans htested
  obtain ⟨pt, hpt, hpts⟩ := step_op h.completed
  rw [hstill] at hpt
  have hkeys := stepPoint_keys hpt
  have hdone : Succeeded s₅.keys t r := by
    refine ⟨p.succeeded r, ?_, rfl, rfl⟩
    rw [hkeys, ← Table.key_of_find hp]
    exact Table.find_put_self s₄.keys (p.succeeded r)
  refine ⟨?_, (machine ns).run_invariant_of_meets
    (fun _ _ _ hI hC hs => succeeded_step hI hC.1 hC.2 hs) hdone
    ((machine ns).meets_and.mpr ⟨h.waitingLater, hpost⟩) h.later⟩
  simp only [stepPoint, resume, Option.some.injEq, Prod.mk.injEq] at hpt
  rw [hpts, Function.update_self, ← hpt.2]

/-! ### Atomic waiters -/

/-- Process `i` is a waiter that has tested `t` and not yet sent its `SET`. -/
def WaiterBetween (t : String) (s : Sys δ) (i : Nat) : Prop :=
  ∃ p, waiterSnapshot (s.points i) .next = some p ∧ p.taskId = t

/-- Nobody gets in between a waiter's test of `t` and its `SET`. -/
def waitersAtomic (t : String) (s : Sys δ) (a : Action δ) : Prop :=
  ∀ i, WaiterBetween t s i → a = .op i .next

/-- A waiter that has tested `t` saw its present payload, and saw it active. -/
def SnapshotsCurrent (t : String) (s : Sys δ) : Prop :=
  ∀ i p, waiterSnapshot (s.points i) .next = some p → p.taskId = t →
    s.keys.find t = some p ∧ p.status ≠ .succeeded

theorem status_of_updateTerminal_failed {p : TaskPayload δ} {e : String}
    (h : (updateTerminal p .failed none e "").isSome = true) : p.status ≠ .succeeded := by
  intro hs
  simp [updateTerminal, TaskPayload.canUpdateTerminal, hs] at h

/-- The only way to a waiter's `SET` is its test, which reads the key and writes nothing. -/
theorem waiterSnapshot_of_stepPoint {ns : String} {s s' : Shared δ} {pt pt' : Point δ} {o : Op δ}
    {p : TaskPayload δ} (h : stepPoint ns s pt o = some (s', pt'))
    (hp : waiterSnapshot pt' .next = some p) :
    s'.keys.find p.taskId = some p ∧ p.status ≠ .succeeded := by
  unfold waiterSnapshot at hp
  split at hp
  · cases hp
    by_cases hn : o = .next
    · subst hn
      cases pt with
      | waitFail now todo final =>
        match todo, h with
        | [], h => cases h
        | (_, none) :: todo, h => cases h
        | (t, some q) :: todo, h =>
          simp only [stepPoint, resume] at h
          split at h
          · cases h
          · split at h
            · cases h
            · split at h
              · cases h
              · rename_i snapshot hfind
                split at h
                · rename_i hcan
                  cases h
                  rw [Table.key_of_find hfind]
                  exact ⟨hfind, status_of_updateTerminal_failed hcan⟩
                · cases h
      | recoverEach todo n =>
        cases todo with
        | nil => cases h
        | cons q todo =>
          simp only [stepPoint, resume] at h
          split at h
          · cases h
          · split at h <;> cases h
      | recoverScan now ids stale =>
        cases ids with
        | nil => cases h
        | cons t ids =>
          simp only [stepPoint, resume] at h
          split at h
          · cases h
          · split at h <;> cases h
      | waitRead ids deadline todo statuses =>
        cases todo with
        | nil =>
          simp only [stepPoint, resume] at h
          split at h
          · cases h
          · split at h <;> cases h
        | cons t todo => cases h
      | claimPop w =>
        simp only [stepPoint, resume] at h
        split at h <;> cases h
      | claimGet w t =>
        simp only [stepPoint, resume] at h
        split at h
        · split at h <;> cases h
        · cases h
      | _ => cases h
    · obtain ⟨_, hstart⟩ := stepPoint_start hn h
      exact absurd hstart (by
        cases o with
        | complete t r w =>
          simp only [start, update]
          split
          · simp
          · split <;> simp
        | fail t e w =>
          simp only [start, update]
          split
          · simp
          · split <;> simp
        | cancel t =>
          simp only [start]
          split
          · simp
          · split
            · simp
            · split <;> simp
        | recover ids =>
          simp only [start]
          split <;> simp
        | wait ids timeout =>
          simp only [start]
          split <;> simp
        | _ => simp [start])
  · cases hp

theorem snapshotsCurrent_step {ns t : String} {s s' : Sys δ} {a : Action δ}
    (h : SnapshotsCurrent t s) (hatomic : waitersAtomic t s a) (hstep : step ns s a = some s') :
    SnapshotsCurrent t s' := by
  cases a with
  | tick d =>
    obtain ⟨_, rfl⟩ := step_tick hstep
    exact h
  | op i o =>
    obtain ⟨pt, hpt, hpts⟩ := step_op hstep
    intro j p hj ht
    rw [hpts] at hj
    by_cases hji : j = i
    · subst hji
      rw [Function.update_self] at hj
      rw [← ht]
      exact waiterSnapshot_of_stepPoint hpt hj
    · -- the waiter `j` was between its two commands, so `i` could not have moved
      rw [Function.update_of_ne hji] at hj
      have hmoved := hatomic j ⟨p, hj, ht⟩
      cases hmoved
      exact absurd rfl hji

/-- Waiters whose `fail` is atomic see what they overwrite. -/
theorem meets_waiterSeesSnapshot {ns t : String} {s : Sys δ} {as : List (Action δ)}
    (hnone : ∀ i, ¬ WaiterBetween t s i) (hatomic : (machine ns).Meets (waitersAtomic t) s as) :
    (machine ns).Meets (fun s a => waiterSeesSnapshot t s a = true) s as := by
  refine (machine ns).meets_of_invariant
    (fun _ _ _ hI hD hs => snapshotsCurrent_step hI hD hs) (fun u a hI _ => ?_)
    (fun i p hp ht => absurd ⟨p, hp, ht⟩ (hnone i)) hatomic
  cases a with
  | tick d => rfl
  | op i o =>
    rw [waiterSeesSnapshot, Option.all_eq_true]
    intro p hp
    by_cases ht : p.taskId = t
    · have hnext : waiterSnapshot (u.points i) .next = some p := by
        unfold waiterSnapshot at hp
        split at hp <;> cases hp
        rename_i hpoint
        rw [hpoint]
        rfl
      obtain ⟨hfind, hne⟩ := hI i p hnext ht
      simp [hfind, hne]
    · simp [ht]

end RedisQueue

/-! ## Both back ends -/

/-- **A wait timeout keeps the worker's result**, over the database always,
and over Redis whenever no waiter saves `t` from a test that is out of date;
in particular when each waiter's `fail` runs without interruption. To keep
it means that `complete` returns `True`, and that from then on `t` is
SUCCEEDED with the result. -/
theorem wait_timeout_keeps_result (ns t w : String) (r : δ) (hw : w ≠ "") :
    (∀ i j mid post s₀ s₁ s₂ s₃ s₄,
      Persisted.LateComplete ns t w r i j mid post s₀ s₁ s₂ s₃ s₄ →
        s₃.points j = .idle (.bool true) ∧ Succeeded s₄.rows t r) ∧
    (∀ i j mid between post s₀ s₁ s₂ s₃ s₄ s₅ s₆,
      RedisQueue.LateComplete ns t w r i j mid between post s₀ s₁ s₂ s₃ s₄ s₅ s₆ →
      (RedisQueue.machine ns).Meets (fun s a => RedisQueue.waiterSeesSnapshot t s a = true) s₁ mid →
      (RedisQueue.machine ns).Meets (fun s a => RedisQueue.waiterSeesSnapshot t s a = true) s₅ post →
        s₅.points j = .idle (.bool true) ∧ Succeeded s₆.keys t r) ∧
    (∀ i j mid between post s₀ s₁ s₂ s₃ s₄ s₅ s₆,
      RedisQueue.LateComplete ns t w r i j mid between post s₀ s₁ s₂ s₃ s₄ s₅ s₆ →
      (∀ k, ¬ RedisQueue.WaiterBetween t s₁ k) → (∀ k, ¬ RedisQueue.WaiterBetween t s₅ k) →
      (RedisQueue.machine ns).Meets (RedisQueue.waitersAtomic t) s₁ mid →
      (RedisQueue.machine ns).Meets (RedisQueue.waitersAtomic t) s₅ post →
        s₅.points j = .idle (.bool true) ∧ Succeeded s₆.keys t r) := by
  refine ⟨fun _ _ _ _ _ _ _ _ _ h => h.result_kept hw,
    fun _ _ _ _ _ _ _ _ _ _ _ _ h hmid hpost => h.result_kept hw hmid hpost, ?_⟩
  intro i j mid between post s₀ s₁ s₂ s₃ s₄ s₅ s₆ h h₁ h₅ hmid hpost
  exact h.result_kept hw (RedisQueue.meets_waiterSeesSnapshot h₁ hmid)
    (RedisQueue.meets_waiterSeesSnapshot h₅ hpost)

/-! ## A repaired and a discarded result -/

namespace Persisted

/-- Process 0 submits `t`; process 2 waits for it, reads it as pending and
runs into its timeout; process 1 claims `t`; process 2 fails it; process 1
completes it all the same. -/
def repairing : List (Action String) :=
  [.op 0 (.submit { taskId := "t", inputData := { rest := "" } }), .op 0 .next,
   .op 2 (.wait ["t"] 1), .op 2 .next, .tick 5, .op 2 .next,
   .op 1 (.claim "w"), .op 1 .next, .op 1 .next, .op 2 .next, .op 1 (.complete "t" "r" "w")]

/-- The state after the first `n` steps of `repairing`. -/
def repairingAt (n : Nat) (h : ((machine "ns").run (init 0) (repairing.take n)).isSome) :
    Sys String :=
  (machine "ns").after (init 0) (repairing.take n) h

theorem lateComplete_repairing :
    LateComplete "ns" "t" "w" "r" 1 1 [.op 2 .next] []
      (repairingAt 8 (by decide)) (repairingAt 9 (by decide)) (repairingAt 10 (by decide))
      (repairingAt 11 (by decide)) (repairingAt 11 (by decide)) where
  popped := rfl
  claimed := (machine "ns").step_after (init 0) (repairing.take 8) (.op 1 .next) (by decide)
    (by decide)
  returned := ⟨_, rfl⟩
  working := (machine "ns").run_after (by decide) (by decide)
  waiting := by decide
  completed := (machine "ns").step_after (init 0) (repairing.take 10)
    (.op 1 (.complete "t" "r" "w")) (by decide) (by decide)
  later := rfl
  waitingLater := by decide

end Persisted

namespace RedisQueue

/-- Process 0 submits `t`; process 2 waits for it, reads it as pending and
runs into its timeout; process 1 claims `t`. -/
def claimedLate : List (Action String) :=
  [.op 0 (.submit { taskId := "t", inputData := { rest := "" } }), .op 0 .next, .op 0 .next,
   .op 2 (.wait ["t"] 1), .op 2 .next, .tick 5, .op 2 .next,
   .op 1 (.claim "w"), .op 1 .next, .op 1 .next, .op 1 .next]

/-- Process 2 fails `t`, and process 1 completes it all the same. -/
def repairing : List (Action String) :=
  claimedLate ++ [.op 2 .next, .op 2 .next, .op 1 (.complete "t" "r" "w"), .op 1 .next]

def repairingAt (n : Nat) (h : ((machine "ns").run (init 0) (repairing.take n)).isSome) :
    Sys String :=
  (machine "ns").after (init 0) (repairing.take n) h

theorem lateComplete_repairing :
    LateComplete "ns" "t" "w" "r" 1 1 [.op 2 .next, .op 2 .next] [] []
      (repairingAt 10 (by decide)) (repairingAt 11 (by decide)) (repairingAt 13 (by decide))
      (repairingAt 14 (by decide)) (repairingAt 14 (by decide)) (repairingAt 15 (by decide))
      (repairingAt 15 (by decide)) where
  claiming := ⟨_, rfl, rfl, rfl, rfl⟩
  claimed := (machine "ns").step_after (init 0) (repairing.take 10) (.op 1 .next) (by decide)
    (by decide)
  working := (machine "ns").run_after (by decide) (by decide)
  waiting := by decide
  completing := (machine "ns").step_after (init 0) (repairing.take 13)
    (.op 1 (.complete "t" "r" "w")) (by decide) (by decide)
  meanwhile := rfl
  completer := by simp
  completed := (machine "ns").step_after (init 0) (repairing.take 14) (.op 1 .next) (by decide)
    (by decide)
  later := rfl
  waitingLater := by decide

/-- Process 2 tests `t`, and sends its `SET` only after process 1 has completed it. -/
def discarding : List (Action String) :=
  claimedLate ++ [.op 2 .next, .op 1 (.complete "t" "r" "w"), .op 1 .next, .op 2 .next]

def discardingAt (n : Nat) (h : ((machine "ns").run (init 0) (discarding.take n)).isSome) :
    Sys String :=
  (machine "ns").after (init 0) (discarding.take n) h

theorem lateComplete_discarding :
    LateComplete "ns" "t" "w" "r" 1 1 [.op 2 .next] [] [.op 2 .next]
      (discardingAt 10 (by decide)) (discardingAt 11 (by decide)) (discardingAt 12 (by decide))
      (discardingAt 13 (by decide)) (discardingAt 13 (by decide)) (discardingAt 14 (by decide))
      (discardingAt 15 (by decide)) where
  claiming := ⟨_, rfl, rfl, rfl, rfl⟩
  claimed := (machine "ns").step_after (init 0) (discarding.take 10) (.op 1 .next) (by decide)
    (by decide)
  working := (machine "ns").run_after (by decide) (by decide)
  waiting := by decide
  completing := (machine "ns").step_after (init 0) (discarding.take 12)
    (.op 1 (.complete "t" "r" "w")) (by decide) (by decide)
  meanwhile := rfl
  completer := by simp
  completed := (machine "ns").step_after (init 0) (discarding.take 13) (.op 1 .next) (by decide)
    (by decide)
  later := (machine "ns").run_after (by decide) (by decide)
  waitingLater := by decide

end RedisQueue

theorem wait_timeout_keeps_result_repaired :
    Succeeded (Persisted.repairingAt 11 (by decide)).rows "t" "r" ∧
      Succeeded (RedisQueue.repairingAt 15 (by decide)).keys "t" "r" :=
  have h := wait_timeout_keeps_result "ns" "t" "w" "r" (by decide)
  ⟨(h.1 _ _ _ _ _ _ _ _ _ Persisted.lateComplete_repairing).2,
    (h.2.1 _ _ _ _ _ _ _ _ _ _ _ _ RedisQueue.lateComplete_repairing (by decide) (by decide)).2⟩

/-- Over Redis, in `discarding`, the completed task ends as FAILED. -/
theorem redis_waiter_discards_result :
    ¬ ∀ (ns t w r : String), w ≠ "" → ∀ i j mid between post s₀ s₁ s₂ s₃ s₄ s₅ s₆,
      RedisQueue.LateComplete ns t w r i j mid between post s₀ s₁ s₂ s₃ s₄ s₅ s₆ →
        s₅.points j = .idle (.bool true) ∧ Succeeded s₆.keys t r := by
  intro h
  obtain ⟨q, hq, hs, _⟩ := (h "ns" "t" "w" "r" (by decide) _ _ _ _ _ _ _ _ _ _ _ _
    RedisQueue.lateComplete_discarding).2
  have hfailed : ((RedisQueue.discardingAt 15 (by decide)).keys.find "t").map (·.status) =
      some .failed := by decide
  rw [hq] at hfailed
  rw [Option.map_some, hs] at hfailed
  cases hfailed

end NeuralHub.TaskQueue
