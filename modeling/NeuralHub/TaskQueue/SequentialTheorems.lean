/-
NeuralHub.TaskQueue.SequentialTheorems — what a whole call does to the rows,
for any back end.

`Turn` lists the changes a call that has the queue to itself can make to
an existing row. Unlike `Transition` it includes the two whole-payload
overwrites: nobody came in between, so the snapshot they are computed from
is the row. `LawfulBackend` says of each operation of `Backend` which turn
it may take; both back ends are instances. From the laws alone,
`exec_steps` shows that every call is a chain of `Step`s.

The parameter `P` is what is known of the leases a call writes (nothing,
or that they are positive). `Step` also counts the claims that returned
each task.
-/
import Mathlib.Logic.Function.Basic
import Mathlib.Logic.Relation
import NeuralHub.TaskQueue.Sequential

namespace NeuralHub.TaskQueue.Sequential

open NeuralHub.Lib

variable {σ δ : Type}

/-! ## Turns of one row -/

/-- A change of row `p` by a call that has the queue to itself, other than a claim. -/
inductive Turn (P : Int → Prop) (p : TaskPayload δ) : TaskPayload δ → Prop
  | complete (r : δ) (h : p.status = .running ∨ p.status = .failed) : Turn P p (p.succeeded r)
  | fail (e : String) (h : p.active = true) : Turn P p (p.failed e)
  | failClear (e : String) (h : p.active = true) : Turn P p (p.failedCleared e)
  | renew (lease : Int) (h : p.status = .running) (hP : P lease) : Turn P p (p.renewed lease)
  | cancel (h : p.status = .pending) : Turn P p p.cancelled
  | requeue (h : p.status = .running) (hlt : p.retryCount < p.maxRetries) : Turn P p p.requeued

theorem Turn.taskId_eq {P : Int → Prop} {p q : TaskPayload δ} (h : Turn P p q) :
    q.taskId = p.taskId := by
  cases h <;> rfl

/-- At most a turn of row `t`. -/
def Turns (P : Int → Prop) (t : String) (rows rows' : Rows δ) : Prop :=
  rows' = rows ∨ ∃ p q, rows.find t = some p ∧ Turn P p q ∧ rows' = rows.put q

theorem find_of_turns {P : Int → Prop} {t u : String} {rows rows' : Rows δ}
    (h : Turns P t rows rows') (hu : u ≠ t) : rows'.find u = rows.find u := by
  rcases h with rfl | ⟨p, q, hp, hturn, rfl⟩
  · rfl
  · refine Table.find_put_of_ne rows ?_
    rw [hturn.taskId_eq, Table.key_of_find hp]
    exact hu

/-! ## The laws -/

/-- What a back end promises about its rows. -/
class LawfulBackend (σ : Type) {δ : outParam Type} [Backend σ δ] where
  rows : σ → Rows δ
  rows_getStatus (s : σ) (t : String) : rows (Backend.getStatus s t).1 = rows s
  getStatus_snd (s : σ) (t : String) : (Backend.getStatus s t).2 = (rows s).find t
  rows_savePayload (s : σ) (p : TaskPayload δ) : rows (Backend.savePayload s p) = (rows s).put p
  rows_enqueue (s : σ) (p : TaskPayload δ) : rows (Backend.enqueue s p) = rows s
  rows_setQueue (s : σ) (q : List String) : rows (Backend.setQueue s q) = rows s
  claimPopped_cases (s : σ) (t w : String) (now : Int) :
    ((Backend.claimPopped s t w now).2 = none ∧
        rows (Backend.claimPopped s t w now).1 = rows s) ∨
      ∃ p, (rows s).find t = some p ∧ p.status = .pending ∧
        (Backend.claimPopped s t w now).2 = some (p.claimed w now) ∧
        rows (Backend.claimPopped s t w now).1 = (rows s).put (p.claimed w now)
  complete_turns (P : Int → Prop) (s : σ) (t : String) (r : δ) (w : String) :
    Turns P t (rows s) (rows (Backend.complete s t r w).1)
  fail_turns (P : Int → Prop) (s : σ) (t e w : String) :
    Turns P t (rows s) (rows (Backend.fail s t e w).1)
  renewLease_turns (P : Int → Prop) (s : σ) (t : String) (extension now : Int)
    (hP : P (now + extension)) : Turns P t (rows s) (rows (Backend.renewLease s t extension now))
  nodup_taskIds (s : σ) : (Backend.taskIds s).Nodup
  rows_staleTasks (s : σ) (order : List String) (now : Int) :
    rows (Backend.staleTasks s order now).1 = rows s
  staleTasks_snd (s : σ) (order : List String) (now : Int) :
    ∃ stale : TaskPayload δ → Bool, (Backend.staleTasks s order now).2 =
        (order.filterMap (rows s).find).filter stale ∧
      ∀ p, stale p = true → p.status = .running
  rows_submitMany (s : σ) (ps : List (TaskPayload δ)) (n : Nat) (order : List String) :
    rows (Backend.submitManyWithCapacity s ps n order).1 = rows s ∨
      rows (Backend.submitManyWithCapacity s ps n order).1 = (rows s).putAll ps
  refuse_spec (ns : String) (s : σ) (call : Call δ) (out : σ × Value δ) :
    Backend.refuse ns s call = some out → rows out.1 = rows s ∧ ∃ code, out.2 = .raised code

open LawfulBackend

/-! ### Redis only -/

namespace RedisState

theorem status_of_updateTerminal {p q : TaskPayload δ} {status : TaskStatus} {r : Option δ}
    {e w : String} (h : updateTerminal p status r e w = some q) :
    p.canUpdateTerminal status w = true ∧
      q = { p with status := status, result := r, error := e } := by
  unfold updateTerminal at h
  split at h
  · cases h
  · rename_i hcan
    split at h <;> cases h
    exact ⟨by simpa using hcan, rfl⟩

theorem update_turns {P : Int → Prop} (s : RedisState δ) (t : String) (status : TaskStatus)
    (r : Option δ) (e w code : String)
    (hturn : ∀ p : TaskPayload δ, p.canUpdateTerminal status w = true →
      Turn P p { p with status := status, result := r, error := e }) :
    Turns P t s.keys (s.update t status r e w code).1.keys := by
  unfold update
  split
  · exact Or.inl rfl
  · rename_i p hp
    split
    · exact Or.inl rfl
    · rename_i q hq
      obtain ⟨hcan, rfl⟩ := status_of_updateTerminal hq
      exact Or.inr ⟨p, _, hp, hturn p hcan, rfl⟩

theorem canUpdateTerminal_succeeded {p : TaskPayload δ} {w : String}
    (h : p.canUpdateTerminal .succeeded w = true) :
    p.status = .running ∨ p.status = .failed := by
  unfold TaskPayload.canUpdateTerminal at h
  cases hs : p.status <;> simp [hs] at h ⊢

theorem canUpdateTerminal_failed {p : TaskPayload δ} {w : String}
    (h : p.canUpdateTerminal .failed w = true) : p.active = true := by
  unfold TaskPayload.canUpdateTerminal at h
  cases hs : p.status <;> simp [hs, TaskPayload.active] at h ⊢

theorem keys_foldl_add (ps : List (TaskPayload δ)) (s : RedisState δ) :
    (ps.foldl (fun s p => (s.set p).add p) s).keys = s.keys.putAll ps := by
  induction ps generalizing s with
  | nil => rfl
  | cons p ps ih => exact ih ((s.set p).add p)

instance : LawfulBackend (RedisState δ) where
  rows := keys
  rows_getStatus _ _ := rfl
  getStatus_snd _ _ := rfl
  rows_savePayload _ _ := rfl
  rows_enqueue _ _ := rfl
  rows_setQueue _ _ := rfl
  claimPopped_cases s t w now := by
    change ((claimPopped s t w now).2 = none ∧ (claimPopped s t w now).1.keys = s.keys) ∨ _
    simp only [Backend.claimPopped]
    unfold claimPopped
    split
    · rename_i p hp
      split
      · rename_i hpend
        exact Or.inr ⟨p, hp, hpend, rfl, rfl⟩
      · exact Or.inl ⟨rfl, rfl⟩
    · exact Or.inl ⟨rfl, rfl⟩
  complete_turns P s t r w :=
    update_turns s t _ _ _ _ _ fun p hcan => Turn.complete r (canUpdateTerminal_succeeded hcan)
  fail_turns P s t e w :=
    update_turns s t _ _ _ _ _ fun p hcan => Turn.failClear e (canUpdateTerminal_failed hcan)
  renewLease_turns _ _ _ _ _ _ := Or.inl rfl
  nodup_taskIds s := s.nodup
  rows_staleTasks _ _ _ := rfl
  staleTasks_snd s order now :=
    ⟨fun p => decide (p.status = .running) && p.leaseExpired now, rfl, fun p h => by
      simp only [Bool.and_eq_true, decide_eq_true_eq] at h
      exact h.1⟩
  rows_submitMany s ps n order := by
    change (submitMany s ps n order).1.keys = s.keys ∨ (submitMany s ps n order).1.keys = _
    unfold submitMany
    split
    · exact Or.inl rfl
    · dsimp only
      split
      · exact Or.inl rfl
      · exact Or.inr (keys_foldl_add ps s)
  refuse_spec _ _ _ _ h := by cases h

end RedisState

/-! ### Over the store -/

namespace StoreState

/-- The cache never answers for a row that is missing. -/
theorem getStatus_eq (s : StoreState δ) (t : String) :
    (s.getStatus t).2 = s.rows.find t := by
  unfold getStatus
  cases hfind : s.rows.find t with
  | some p => rfl
  | none =>
    have hcache : s.cache.find t = none := by
      rw [← Option.not_isSome_iff_eq_none]
      intro hsome
      have hrow := s.cached t hsome
      rw [hfind] at hrow
      cases hrow
    simp [hcache]

theorem rows_refreshAll (ids : List String) (s : StoreState δ) :
    (s.refreshAll ids).rows = s.rows := by
  induction ids generalizing s with
  | nil => rfl
  | cons t ids ih => exact ih (s.refreshCache t)

/-- A refused call leaves the rows and raises. -/
theorem refuse_eq_some {ns : String} {s : StoreState δ} {call : Call δ}
    {out : StoreState δ × Value δ} (h : s.refuse ns call = some out) :
    out.1.rows = s.rows ∧ ∃ code, out.2 = .raised code := by
  cases call with
  | claim worker =>
    simp only [refuse] at h
    split at h
    · cases h
    · obtain ⟨rest, _, rfl⟩ := Option.map_eq_some_iff.mp h
      exact ⟨rfl, _, rfl⟩
  | recover order => cases h
  | wait ids timeout polls =>
    simp only [refuse] at h
    split at h <;> cases h
    exact ⟨rows_refreshAll _ s, _, rfl⟩
  | _ =>
    simp only [refuse] at h
    split at h <;> cases h
    exact ⟨rfl, _, rfl⟩

instance : LawfulBackend (StoreState δ) where
  rows := rows
  rows_getStatus _ _ := rfl
  getStatus_snd := getStatus_eq
  rows_savePayload _ _ := rfl
  rows_enqueue _ _ := rfl
  rows_setQueue _ _ := rfl
  claimPopped_cases s t w now := by
    change ((claimPopped s t w now).2 = none ∧ (claimPopped s t w now).1.rows = s.rows) ∨ _
    have hrows : (claimPopped s t w now).1.rows = (s.rows.claim t w now).1 := by
      unfold claimPopped
      dsimp only
      split <;> rfl
    have hval : (claimPopped s t w now).2 = (s.rows.claim t w now).2 := rfl
    simp only [Backend.claimPopped]
    rw [hrows, hval]
    unfold Rows.claim
    split
    · rename_i p hp
      split
      · rename_i hpend
        exact Or.inr ⟨p, hp, hpend, rfl, rfl⟩
      · exact Or.inl ⟨rfl, rfl⟩
    · exact Or.inl ⟨rfl, rfl⟩
  complete_turns P s t r w := by
    change Turns P t s.rows (s.rows.complete t r w).1
    unfold Rows.complete
    split
    · rename_i p hp
      split
      · rename_i hcan
        refine Or.inr ⟨p, _, hp, .complete r ?_, rfl⟩
        exact (TaskPayload.status_of_canComplete hcan).imp_right And.left
      · exact Or.inl rfl
    · exact Or.inl rfl
  fail_turns P s t e w := by
    change Turns P t s.rows (s.rows.fail t e w).1
    unfold Rows.fail
    split
    · rename_i p hp
      split
      · rename_i hcan
        exact Or.inr ⟨p, _, hp, .fail e (TaskPayload.active_of_canFail hcan), rfl⟩
      · exact Or.inl rfl
    · exact Or.inl rfl
  renewLease_turns P s t extension now hP := by
    change Turns P t s.rows (s.rows.renewLease t extension now)
    unfold Rows.renewLease
    split
    · rename_i p hp
      split
      · rename_i hrun
        exact Or.inr ⟨p, _, hp, .renew _ hrun hP, rfl⟩
      · exact Or.inl rfl
    · exact Or.inl rfl
  nodup_taskIds s := s.rows.nodup
  rows_staleTasks _ _ _ := rfl
  staleTasks_snd s order now :=
    ⟨fun p => p.staleRunning now, rfl, fun p h => (TaskPayload.staleRunning_iff.mp h).1⟩
  rows_submitMany s ps n order := by
    change (submitMany s ps n).1.rows = s.rows ∨ (submitMany s ps n).1.rows = _
    unfold submitMany
    split
    · exact Or.inl rfl
    · split
      · exact Or.inl rfl
      · split
        · exact Or.inl rfl
        · split
          · exact Or.inl rfl
          · exact Or.inr rfl
  refuse_spec _ _ _ _ := refuse_eq_some

end StoreState

/-! ## Steps of the whole table -/

/-- The rows, and how often each task was claimed. -/
abbrev Counted (δ : Type) := Rows δ × (String → Nat)

/-- A payload as `build_payload` makes it. -/
structure IsNew (p : TaskPayload δ) : Prop where
  status : p.status = .pending
  worker : p.workerId = ""
  lease : p.leaseExpiresAt = 0
  result : p.result = none
  retries : p.retryCount = 0

theorem isNew_buildPayload (ns : String) (spec : QueueSubmitSpec δ) (now : Int) :
    IsNew (buildPayload ns spec now) := ⟨rfl, rfl, rfl, rfl, rfl⟩

/-- One more claim of `t`. -/
def countClaim (t : String) (c : String → Nat) : String → Nat := Function.update c t (c t + 1)

inductive Step (P : Int → Prop) : Counted δ → Counted δ → Prop
  | insert {rows : Rows δ} {c : String → Nat} {p : TaskPayload δ}
      (hnone : rows.find p.taskId = none) (hnew : IsNew p) : Step P (rows, c) (rows.put p, c)
  | claim {rows : Rows δ} {c : String → Nat} {p : TaskPayload δ} {w : String} {now : Int}
      (hp : rows.find p.taskId = some p) (hpend : p.status = .pending) (hw : w ≠ "")
      (hP : P (now + p.timeoutSeconds)) :
      Step P (rows, c) (rows.put (p.claimed w now), countClaim p.taskId c)
  | turn {rows : Rows δ} {c : String → Nat} {p q : TaskPayload δ}
      (hp : rows.find p.taskId = some p) (hturn : Turn P p q) : Step P (rows, c) (rows.put q, c)

/-- A chain of steps. -/
abbrev Steps (P : Int → Prop) : Counted δ → Counted δ → Prop := Relation.ReflTransGen (Step P)

theorem steps_of_turns {P : Int → Prop} {t : String} {rows rows' : Rows δ} {c : String → Nat}
    (h : Turns P t rows rows') : Steps P (rows, c) (rows', c) := by
  rcases h with rfl | ⟨p, q, hp, hturn, rfl⟩
  · exact .refl
  · refine .single (.turn ?_ hturn)
    rw [Table.key_of_find hp]
    exact hp

theorem steps_putAll {P : Int → Prop} {c : String → Nat} {ps : List (TaskPayload δ)} :
    ∀ {rows : Rows δ}, (ps.map (·.taskId)).Nodup → (∀ p ∈ ps, rows.find p.taskId = none) →
      (∀ p ∈ ps, IsNew p) → Steps P (rows, c) (rows.putAll ps, c) := by
  induction ps with
  | nil => exact fun _ _ _ => .refl
  | cons p ps ih =>
    intro rows hnd hnone hnew
    rw [List.map_cons, List.nodup_cons] at hnd
    have hfirst : Step P (rows, c) (rows.put p, c) :=
      .insert (hnone p (List.mem_cons_self ..)) (hnew p (List.mem_cons_self ..))
    refine .head hfirst (ih hnd.2 (fun q hq => ?_) fun q hq => hnew q (List.mem_cons_of_mem _ hq))
    have hne : q.taskId ≠ p.taskId := fun he => hnd.1 (he ▸ List.mem_map_of_mem hq)
    rw [Table.find_put_of_ne rows hne]
    exact hnone q (List.mem_cons_of_mem _ hq)

/-! ## Each shared function is a chain of steps -/

section Shared

variable [Backend σ δ] [LawfulBackend σ] {P : Int → Prop} {c : String → Nat}

/-- How a returned value of `claim` is counted. -/
def countReturned (v : Value δ) (c : String → Nat) : String → Nat :=
  match v with
  | .task (some p) => countClaim p.taskId c
  | _ => c

theorem claimTask_steps {w : String} {now : Int} (hw : w ≠ "") (ids : List String) :
    ∀ (s : σ), (∀ t p, (rows s).find t = some p → p.status = .pending →
        P (now + p.timeoutSeconds)) →
      Steps P (rows s, c) (rows (claimTask w now ids s).1,
        countReturned (claimTask w now ids s).2 c) := by
  induction ids with
  | nil =>
    intro s _
    rw [claimTask, rows_setQueue]
    exact .refl
  | cons t rest ih =>
    intro s hP
    have hset : rows (Backend.setQueue s rest) = rows s := rows_setQueue s rest
    have hcases := claimPopped_cases (Backend.setQueue s rest) t w now
    rw [hset] at hcases
    rw [claimTask]
    rcases hout : Backend.claimPopped (Backend.setQueue s rest) t w now with ⟨s', v⟩
    rw [hout] at hcases
    rcases hcases with ⟨hnone, hrows⟩ | ⟨p, hp, hpend, hval, hrows⟩
    · dsimp only at hnone hrows
      subst hnone
      rw [← hrows]
      exact ih s' (by rw [hrows]; exact hP)
    · dsimp only at hval hrows
      subst hval
      have hid : p.taskId = t := Table.key_of_find hp
      rw [hrows]
      refine .single (.claim ?_ hpend hw (hP t p hp hpend))
      rw [hid]
      exact hp

theorem cancelPayloadTask_steps (s : σ) (t : String) :
    Steps P (rows s, c) (rows (cancelPayloadTask s t).1, c) := by
  unfold cancelPayloadTask
  have hrows := rows_getStatus s t
  have hval := getStatus_snd s t
  rcases hout : Backend.getStatus s t with ⟨s', v⟩
  rw [hout] at hrows hval
  dsimp only at hrows hval
  cases v with
  | none =>
    dsimp only
    rw [hrows]
  | some p =>
    have hid : p.taskId = t := Table.key_of_find hval.symm
    dsimp only
    split
    · rw [hrows]
    · split
      · rename_i hpend
        rw [rows_savePayload, rows_setQueue, hrows]
        refine .single (.turn ?_ (.cancel hpend))
        rw [hid]
        exact hval.symm
      · rw [hrows]

/-- The snapshots still to be recovered are the present, running rows. -/
def Current (s : σ) (todo : List (TaskPayload δ)) : Prop :=
  ∀ p ∈ todo, (rows s).find p.taskId = some p ∧ p.status = .running

theorem recoverOneStale_turns (s : σ) (n : Nat) {p : TaskPayload δ}
    (hp : (rows s).find p.taskId = some p) (hrun : p.status = .running) :
    Turns P p.taskId (rows s) (rows (recoverOneStale (s, n) p).1) := by
  unfold recoverOneStale
  split
  · rename_i hlt
    dsimp only
    rw [rows_setQueue, rows_savePayload]
    exact Or.inr ⟨p, _, hp, .requeue hrun hlt, rfl⟩
  · dsimp only
    rw [rows_getStatus]
    exact fail_turns P s p.taskId _ _

theorem recover_steps (todo : List (TaskPayload δ)) :
    ∀ (acc : σ × Nat), (todo.map (·.taskId)).Nodup → Current acc.1 todo →
      Steps P (rows acc.1, c) (rows (todo.foldl recoverOneStale acc).1, c) := by
  induction todo with
  | nil => exact fun _ _ _ => .refl
  | cons p todo ih =>
    rintro ⟨s, n⟩ hnd hcur
    rw [List.map_cons, List.nodup_cons] at hnd
    obtain ⟨hp, hrun⟩ := hcur p (List.mem_cons_self ..)
    have hturns : Turns P p.taskId (rows s) (rows (recoverOneStale (s, n) p).1) :=
      recoverOneStale_turns s n hp hrun
    rw [List.foldl_cons]
    refine (steps_of_turns hturns).trans (ih _ hnd.2 fun q hq => ?_)
    have hne : q.taskId ≠ p.taskId := fun he => hnd.1 (he ▸ List.mem_map_of_mem hq)
    rw [find_of_turns hturns hne]
    exact hcur q (List.mem_cons_of_mem _ hq)

theorem recoverStaleTaskPayloads_steps (s : σ) {order : List String} (now : Int)
    (hnd : order.Nodup) :
    Steps P (rows s, c) (rows (recoverStaleTaskPayloads s order now).1, c) := by
  obtain ⟨stale, hstale, hrun⟩ := staleTasks_snd s order now
  have hrows := rows_staleTasks s order now
  have hids : ((Backend.staleTasks s order now).2.map (·.taskId)).Nodup := by
    rw [hstale]
    refine hnd.sublist ((List.filter_sublist.map _).trans ?_)
    rw [Table.map_key_filterMap_find]
    exact List.filter_sublist
  have hcur : Current (Backend.staleTasks s order now).1 (Backend.staleTasks s order now).2 := by
    intro p hp
    rw [hstale, List.mem_filter] at hp
    rw [hrows]
    exact ⟨Table.find_of_mem_filterMap_find hp.1, hrun p hp.2⟩
  have hsteps := recover_steps (P := P) (c := c) _ ((Backend.staleTasks s order now).1, 0) hids hcur
  rw [hrows] at hsteps
  exact hsteps

theorem rows_readStatuses (ids : List String) (s : σ) :
    rows (readStatuses ids s).1 = rows s := by
  induction ids generalizing s with
  | nil => rfl
  | cons t ids ih =>
    rw [readStatuses]
    dsimp only
    rw [ih, rows_getStatus]

theorem failStuckTasks_steps (now : Int) (todo : List (String × Option (TaskPayload δ))) :
    ∀ (s : σ), Steps P (rows s, c) (rows (failStuckTasks now todo s).1, c) := by
  induction todo with
  | nil => exact fun _ => .refl
  | cons st todo ih =>
    intro s
    obtain ⟨t, v⟩ := st
    cases v with
    | none => exact ih s
    | some p =>
      rw [failStuckTasks]
      split
      · exact ih s
      · split
        · exact ih s
        · have hfail : Steps P (rows s, c)
              (rows (Backend.getStatus (Backend.fail s t waitTimeoutError "").1 t).1, c) := by
            rw [rows_getStatus]
            exact steps_of_turns (fail_turns P s t waitTimeoutError "")
          exact hfail.trans (ih _)

theorem waitPolls_steps {ids : List String} {deadline : Option Int} {clock : Nat → Int}
    (polls : Nat) : ∀ (k : Nat) (s : σ) (out : σ × Value δ),
      waitPolls ids deadline clock polls k s = some out →
        Steps P (rows s, c) (rows out.1, c) := by
  induction polls with
  | zero => exact fun _ _ _ h => nomatch h
  | succ polls ih =>
    intro k s out h
    rw [waitPolls] at h
    dsimp only at h
    have hread := rows_readStatuses ids s
    split at h
    · cases h
      rw [hread]
    · split at h
      · cases h
        rw [← hread]
        exact failStuckTasks_steps _ _ _
      · rw [← hread]
        exact ih (k + 1) _ out h

/-! ## Calls -/

/-- Ids are fresh and worker ids are not empty. -/
def orderly (s : σ) (req : Request δ) : Prop :=
  match req.call with
  | .submit spec => (rows s).find spec.taskId = none
  | .submitMany specs _ _ =>
      (specs.map (·.taskId)).Nodup ∧ ∀ spec ∈ specs, (rows s).find spec.taskId = none
  | .claim w => w ≠ ""
  | _ => True

/-- The leases the call can write satisfy `P`. -/
def leasesSatisfy (P : Int → Prop) (s : σ) (req : Request δ) : Prop :=
  match req.call with
  | .claim _ =>
      ∀ t p, (rows s).find t = some p → p.status = .pending → P (req.clock 0 + p.timeoutSeconds)
  | .renewLease _ extension => P (req.clock 0 + extension)
  | _ => True

/-- The claims counted after a call that returned `v`. -/
def countCall (req : Request δ) (v : Value δ) (c : String → Nat) : String → Nat :=
  match req.call with
  | .claim _ => countReturned v c
  | _ => c

theorem mem_buildPayloads {ns : String} {specs : List (QueueSubmitSpec δ)} {clock : Nat → Int}
    {p : TaskPayload δ} (h : p ∈ buildPayloads ns specs clock) :
    ∃ spec ∈ specs, ∃ now, p = buildPayload ns spec now := by
  obtain ⟨k, hk, rfl⟩ := List.mem_mapIdx.mp h
  exact ⟨specs[k], List.getElem_mem hk, clock k, rfl⟩

theorem taskIds_buildPayloads (ns : String) (specs : List (QueueSubmitSpec δ))
    (clock : Nat → Int) :
    (buildPayloads ns specs clock).map (·.taskId) = specs.map (·.taskId) := by
  refine List.ext_getElem (by simp [buildPayloads]) fun k h₁ h₂ => ?_
  simp [buildPayloads, buildPayload]

/-- Every call that is not refused is a chain of steps. -/
theorem accepted_steps {ns : String} {s : σ} {req : Request δ} {out : σ × Value δ}
    (h : accepted ns s req = some out) (hord : orderly s req) (hP : leasesSatisfy P s req) :
    Steps P (rows s, c) (rows out.1, countCall req out.2 c) := by
  obtain ⟨call, clock⟩ := req
  cases call with
  | submit spec =>
    cases h
    dsimp only
    rw [rows_enqueue, rows_savePayload]
    exact .single (.insert hord (isNew_buildPayload ns spec _))
  | submitMany specs n order =>
    simp only [accepted] at h
    split at h <;> cases h
    rcases rows_submitMany s (buildPayloads ns specs clock) n order with hsame | hput
    · rw [hsame]
      exact .refl
    · rw [hput]
      refine steps_putAll ?_ (fun p hp => ?_) fun p hp => ?_
      · rw [taskIds_buildPayloads]
        exact hord.1
      · obtain ⟨spec, hspec, now, rfl⟩ := mem_buildPayloads hp
        exact hord.2 spec hspec
      · obtain ⟨spec, _, now, rfl⟩ := mem_buildPayloads hp
        exact isNew_buildPayload ns spec now
  | claim w =>
    cases h
    exact claimTask_steps hord _ s hP
  | complete t r w =>
    cases h
    exact steps_of_turns (complete_turns P s t r w)
  | fail t e w =>
    cases h
    exact steps_of_turns (fail_turns P s t e w)
  | cancel t =>
    cases h
    exact cancelPayloadTask_steps s t
  | renewLease t extension =>
    cases h
    exact steps_of_turns (renewLease_turns P s t extension _ hP)
  | recover order =>
    simp only [accepted] at h
    split at h <;> cases h
    rename_i hperm
    exact recoverStaleTaskPayloads_steps s _ (hperm.nodup_iff.mpr (nodup_taskIds s))
  | getStatus t =>
    cases h
    dsimp only
    rw [rows_getStatus]
    exact .refl
  | getChildren parent order =>
    simp only [accepted] at h
    split at h <;> cases h
    exact .refl
  | wait ids timeout polls =>
    simp only [accepted, waitForTaskPayloads] at h
    split at h
    · cases h
      exact .refl
    · exact waitPolls_steps polls 1 s out h

/-- **Every call is a chain of steps**, over either back end. -/
theorem exec_steps {ns : String} {s : σ} {req : Request δ} {out : σ × Value δ}
    (h : exec ns s req = some out) (hord : orderly s req) (hP : leasesSatisfy P s req) :
    Steps P (rows s, c) (rows out.1, countCall req out.2 c) := by
  unfold exec at h
  cases hrefuse : Backend.refuse ns s req.call with
  | none =>
    rw [hrefuse, Option.none_or] at h
    exact accepted_steps h hord hP
  | some refused =>
    rw [hrefuse, Option.some_or, Option.some.injEq] at h
    subst h
    obtain ⟨hrows, code, hcode⟩ := refuse_spec ns s req.call refused hrefuse
    have hcount : countCall req refused.2 c = c := by
      rw [hcode]
      unfold countCall
      split
      · rfl
      · rfl
    rw [hrows, hcount]

end Shared

end NeuralHub.TaskQueue.Sequential
