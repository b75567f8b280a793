/-
NeuralHub.TaskQueue.Agreement — do the two back ends agree?

`Agree r s` relates a Redis-only queue to a queue over the store: the keys
are the rows, the lists are equal, the index holds exactly the ids with a
key, and every payload is `Sound`. Soundness is what makes the separately
written guards equal: a pending task has no worker (so `fail` with a
worker id is refused by both), an active one has no result (so clearing it
is no difference), and a running one has the lease its claim gave it (so
the two expiry tests agree).

The back ends do differ, in the six ways that `back_ends_disagree` lists:
a `complete` or `fail` of an unknown task raises over Redis and returns
`False` over the store; a heartbeat is ignored over Redis; a batch without
a parent is not counted over Redis; a batch with a used id overwrites the
task over Redis and raises over the store; what does not fit the columns
raises over the store only. `agreeable` excludes these calls, and a scan is
assumed to enumerate the tasks in the same order. `back_ends_agree` says
that there is no other difference.

`RedisState` keeps the payloads apart from the list, the index and the
flags, which in Redis are keys of one form: a task is not to have the name
of one of those (`ownKey`).
-/
import NeuralHub.TaskQueue.SequentialTheorems

namespace NeuralHub.TaskQueue.Sequential

open NeuralHub.Lib

variable {σ δ : Type}

/-- What both back ends know of a payload while no heartbeat arrives. -/
structure Sound (p : TaskPayload δ) : Prop where
  pending : p.status = .pending → p.workerId = ""
  active : p.active = true → p.result = none
  running : p.status = .running → p.leaseExpiresAt = p.startedAt + p.timeoutSeconds

structure Agree (r : RedisState δ) (s : StoreState δ) : Prop where
  rows : s.rows = r.keys
  queue : s.queue = r.queue
  indexed : ∀ t, t ∈ r.index ↔ (r.keys.find t).isSome
  sound : ∀ t p, r.keys.find t = some p → Sound p

def Value.raises : Value δ → Bool
  | .raised _ => true
  | _ => false

/-- Equal values, or both raised. -/
def Value.Agrees (v v' : Value δ) : Prop := v = v' ∨ (Value.raises v && Value.raises v') = true

instance [DecidableEq δ] (v v' : Value δ) : Decidable (Value.Agrees v v') :=
  inferInstanceAs (Decidable (_ ∨ _))

theorem Value.Agrees.refl (v : Value δ) : Value.Agrees v v := Or.inl rfl

/-- `_task_key` of `t` is none of `_queue_key`, `_index_key` and the `_cancel_key`s. -/
def ownKey (t : String) : Bool :=
  decide (t ≠ "queue" ∧ t ≠ "index") && !"cancel:".toList.isPrefixOf t.toList

/-- The tasks that a call names. -/
def Call.names : Call δ → List String
  | .submit spec => [spec.taskId]
  | .submitMany specs _ _ => specs.map (·.taskId)
  | .claim _ => []
  | .complete t _ _ => [t]
  | .fail t _ _ => [t]
  | .cancel t => [t]
  | .renewLease t _ => [t]
  | .recover _ => []
  | .getStatus t => [t]
  | .getChildren _ _ => []
  | .wait ids _ _ => ids

/-- The columns take every text and number of the call. -/
def fits (ns : String) : Call δ → Bool
  | .submit spec => StoreState.storable ns spec
  | .submitMany specs _ _ => specs.all (StoreState.storable ns)
  | .claim worker => varchar 100 worker
  | .complete t _ _ => textual t.toList
  | .fail t e _ => textual t.toList && textual e.toList
  | .cancel t => textual t.toList
  | .renewLease t _ => textual t.toList
  | .recover _ => true
  | .getStatus t => textual t.toList
  | .getChildren parent _ => textual parent.toList
  | .wait ids _ _ => ids.all fun t => textual t.toList

/-- The calls on which the back ends agree. -/
def agreeable (ns : String) (r : RedisState δ) (req : Request δ) : Bool :=
  fits ns req.call && req.call.names.all ownKey &&
    match req.call with
    | .submitMany specs _ _ =>
        specs.all (fun spec => decide (spec.inputData.parentTaskId ≠ "") &&
          (r.keys.find spec.taskId).isNone) && decide ((specs.map (·.taskId)).Nodup)
    | .complete t _ _ => (r.keys.find t).isSome
    | .fail t _ _ => (r.keys.find t).isSome
    | .renewLease t _ => (r.keys.find t).all (fun p => p.status ≠ .running)
    | _ => true

/-! ## Soundness -/

theorem Sound.of_terminal {p : TaskPayload δ} (h : p.status.terminal = true) : Sound p where
  pending hs := by
    rw [hs] at h
    cases h
  active ha := by
    rw [TaskPayload.active_iff_not_terminal, h] at ha
    cases ha
  running hs := by
    rw [hs] at h
    cases h

theorem Sound.buildPayload (ns : String) (spec : QueueSubmitSpec δ) (now : Int) :
    Sound (buildPayload ns spec now) where
  pending _ := rfl
  active _ := rfl
  running hs := by cases hs

theorem Sound.claimed {p : TaskPayload δ} (h : Sound p) (hpend : p.status = .pending) (w : String)
    (now : Int) : Sound (p.claimed w now) where
  pending hs := by cases hs
  active _ := h.active (TaskPayload.active_iff.mpr (Or.inl hpend))
  running _ := rfl

theorem Sound.requeued (p : TaskPayload δ) : Sound p.requeued where
  pending _ := rfl
  active _ := rfl
  running hs := by cases hs

/-! ## The guards agree -/

theorem canUpdateTerminal_succeeded_eq (p : TaskPayload δ) (w : String) :
    p.canUpdateTerminal .succeeded w = p.canComplete w := by
  unfold TaskPayload.canUpdateTerminal TaskPayload.canComplete
  cases hs : p.status <;> simp
  by_cases he : p.error = waitTimeoutError <;> simp [he]

theorem canUpdateTerminal_failed_eq {p : TaskPayload δ} (h : Sound p) (w : String) :
    p.canUpdateTerminal .failed w = p.canFail w := by
  unfold TaskPayload.canUpdateTerminal TaskPayload.canFail TaskPayload.active
  cases hs : p.status
  case pending =>
    have hw := h.pending hs
    by_cases he : w = "" <;> simp [he, hw]
  all_goals simp

/-- `complete`'s two tests over Redis are the one test of the store. -/
theorem updateTerminal_succeeded_eq (p : TaskPayload δ) (r : δ) (w : String) :
    updateTerminal p .succeeded (some r) "" w =
      if p.canComplete w then some (p.succeeded r) else none := by
  unfold updateTerminal
  rw [canUpdateTerminal_succeeded_eq]
  by_cases hcan : p.canComplete w = true
  · have hworker : ¬ (w ≠ "" ∧ p.workerId ≠ w) := by
      rintro ⟨hw, hne⟩
      simp only [TaskPayload.canComplete] at hcan
      split at hcan
      · simp [hw, hne] at hcan
      · split at hcan
        · cases hcan
        · simp [hne] at hcan
    simp only [hcan, Bool.not_true, Bool.false_eq_true, if_false, if_true, if_neg hworker]
    rfl
  · simp [hcan]

theorem updateTerminal_failed_eq {p : TaskPayload δ} (h : Sound p) (e w : String) :
    updateTerminal p .failed none e w = if p.canFail w then some (p.failed e) else none := by
  unfold updateTerminal
  rw [canUpdateTerminal_failed_eq h]
  by_cases hcan : p.canFail w = true
  · have hcan' := hcan
    simp only [TaskPayload.canFail, Bool.and_eq_true, Bool.or_eq_true, decide_eq_true_eq] at hcan'
    have hworker : ¬ (w ≠ "" ∧ p.workerId ≠ w) := by
      rintro ⟨hw, hne⟩
      exact hcan'.2.elim hw hne
    simp only [hcan, Bool.not_true, Bool.false_eq_true, if_false, if_true, if_neg hworker,
      TaskPayload.failed, h.active hcan'.1]
  · simp [hcan]

theorem staleRunning_eq {p : TaskPayload δ} (h : Sound p) (now : Int) :
    (decide (p.status = .running) && p.leaseExpired now) = p.staleRunning now := by
  by_cases hrun : p.status = .running
  · have hlease := h.running hrun
    unfold TaskPayload.leaseExpired TaskPayload.staleRunning
    by_cases hzero : p.leaseExpiresAt = 0
    · rw [hzero] at hlease
      simp [hrun, hzero, ← hlease]
    · simp [hrun, hzero]
  · simp [TaskPayload.staleRunning, hrun]

/-! ## Each operation keeps the agreement -/

variable {r : RedisState δ} {s : StoreState δ}

theorem Agree.init : Agree (RedisState.init : RedisState δ) (StoreState.init : StoreState δ) where
  rows := rfl
  queue := rfl
  indexed t := by simp [RedisState.init]
  sound t p hp := by cases hp

/-- Only the rows and the list of the store matter. -/
theorem Agree.congr {s' : StoreState δ} (h : Agree r s) (hrows : s'.rows = s.rows)
    (hqueue : s'.queue = s.queue) : Agree r s' where
  rows := hrows.trans h.rows
  queue := hqueue.trans h.queue
  indexed := h.indexed
  sound := h.sound

theorem Agree.getStatus (h : Agree r s) (t : String) :
    Agree (Backend.getStatus r t).1 (Backend.getStatus s t).1 ∧
      (Backend.getStatus r t).2 = (Backend.getStatus s t).2 := by
  refine ⟨h.congr rfl rfl, ?_⟩
  have hs : (Backend.getStatus s t).2 = s.rows.find t := LawfulBackend.getStatus_snd s t
  rw [hs, h.rows]
  rfl

theorem Agree.setQueue (h : Agree r s) (q : List String) :
    Agree (Backend.setQueue r q) (Backend.setQueue s q) where
  rows := h.rows
  queue := rfl
  indexed := h.indexed
  sound := h.sound

theorem Agree.queue_eq (h : Agree r s) : Backend.queue r = Backend.queue s := h.queue.symm

/-- Overwriting an existing payload with a sound one. -/
theorem Agree.put {s' : StoreState δ} {q : TaskPayload δ} (h : Agree r s)
    (hold : (r.keys.find q.taskId).isSome) (hq : Sound q) (hrows : s'.rows = s.rows.put q)
    (hqueue : s'.queue = s.queue) : Agree (r.set q) s' where
  rows := by
    rw [hrows, h.rows]
    rfl
  queue := hqueue.trans h.queue
  indexed t := by
    change t ∈ r.index ↔ ((r.keys.put q).find t).isSome
    rw [Table.find_put]
    split
    · rename_i ht
      subst ht
      simp [h.indexed, hold]
    · exact h.indexed t
  sound t p hp := by
    change (r.keys.put q).find t = some p at hp
    rw [Table.find_put] at hp
    split at hp
    · cases hp
      exact hq
    · exact h.sound t p hp

/-- Saving and enqueueing a new payload. -/
theorem Agree.add {s' : StoreState δ} {q : TaskPayload δ} (h : Agree r s) (hq : Sound q)
    (hrows : s'.rows = s.rows.put q) (hqueue : s'.queue = s.queue ++ [q.taskId]) :
    Agree ((r.set q).add q) s' where
  rows := by
    rw [hrows, h.rows]
    rfl
  queue := by
    rw [hqueue, h.queue]
    rfl
  indexed t := by
    change t ∈ r.index.insert q.taskId ↔ ((r.keys.put q).find t).isSome
    rw [List.mem_insert_iff, Table.find_put]
    split
    · rename_i ht
      simp [ht]
    · rename_i ht
      simp [ht, h.indexed]
  sound t p hp := by
    change (r.keys.put q).find t = some p at hp
    rw [Table.find_put] at hp
    split at hp
    · cases hp
      exact hq
    · exact h.sound t p hp

theorem Agree.savePayload {q : TaskPayload δ} (h : Agree r s)
    (hold : (r.keys.find q.taskId).isSome) (hq : Sound q) :
    Agree (Backend.savePayload r q) (Backend.savePayload s q) :=
  h.put hold hq rfl rfl

theorem Agree.complete (h : Agree r s) {t : String} (res : δ) (w : String)
    (ht : (r.keys.find t).isSome) :
    Agree (Backend.complete r t res w).1 (Backend.complete s t res w).1 ∧
      (Backend.complete r t res w).2 = (Backend.complete s t res w).2 := by
  obtain ⟨p, hp⟩ := Option.isSome_iff_exists.mp ht
  have hid : p.taskId = t := Table.key_of_find hp
  change Agree (r.update t .succeeded (some res) "" w _).1 (s.complete t res w).1 ∧
    (r.update t .succeeded (some res) "" w _).2 = (s.complete t res w).2
  have hrows : (s.complete t res w).1.rows = (s.rows.complete t res w).1 := rfl
  have hval : (s.complete t res w).2 = .bool (s.rows.complete t res w).2 := rfl
  have hstore : s.rows.complete t res w =
      if p.canComplete w then (s.rows.put (p.succeeded res), true) else (s.rows, false) := by
    rw [h.rows]
    simp only [Rows.complete, hp]
  rw [hstore] at hrows hval
  simp only [RedisState.update, hp, updateTerminal_succeeded_eq]
  by_cases hcan : p.canComplete w = true
  · rw [if_pos hcan] at hrows hval ⊢
    refine ⟨h.put ?_ (.of_terminal rfl) hrows rfl, hval.symm⟩
    rw [TaskPayload.taskId_succeeded, hid]
    exact ht
  · rw [if_neg hcan] at hrows hval ⊢
    exact ⟨h.congr hrows rfl, hval.symm⟩

theorem Agree.fail (h : Agree r s) {t : String} (e w : String)
    (ht : (r.keys.find t).isSome) :
    Agree (Backend.fail r t e w).1 (Backend.fail s t e w).1 ∧
      (Backend.fail r t e w).2 = (Backend.fail s t e w).2 := by
  obtain ⟨p, hp⟩ := Option.isSome_iff_exists.mp ht
  have hid : p.taskId = t := Table.key_of_find hp
  change Agree (r.update t .failed none e w _).1 (s.fail t e w).1 ∧
    (r.update t .failed none e w _).2 = (s.fail t e w).2
  have hrows : (s.fail t e w).1.rows = (s.rows.fail t e w).1 := rfl
  have hval : (s.fail t e w).2 = .bool (s.rows.fail t e w).2 := rfl
  have hstore : s.rows.fail t e w =
      if p.canFail w then (s.rows.put (p.failed e), true) else (s.rows, false) := by
    rw [h.rows]
    simp only [Rows.fail, hp]
  rw [hstore] at hrows hval
  simp only [RedisState.update, hp, updateTerminal_failed_eq (h.sound t p hp)]
  by_cases hcan : p.canFail w = true
  · rw [if_pos hcan] at hrows hval ⊢
    refine ⟨h.put ?_ (.of_terminal rfl) hrows rfl, hval.symm⟩
    rw [TaskPayload.taskId_failed, hid]
    exact ht
  · rw [if_neg hcan] at hrows hval ⊢
    exact ⟨h.congr hrows rfl, hval.symm⟩

theorem Agree.claimPopped (h : Agree r s) (t w : String) (now : Int) :
    Agree (Backend.claimPopped r t w now).1 (Backend.claimPopped s t w now).1 ∧
      (Backend.claimPopped r t w now).2 = (Backend.claimPopped s t w now).2 := by
  change Agree (r.claimPopped t w now).1 (s.claimPopped t w now).1 ∧
    (r.claimPopped t w now).2 = (s.claimPopped t w now).2
  have hrows : (s.claimPopped t w now).1.rows = (s.rows.claim t w now).1 := by
    unfold StoreState.claimPopped
    dsimp only
    split <;> rfl
  have hqueue : (s.claimPopped t w now).1.queue = s.queue := by
    unfold StoreState.claimPopped
    dsimp only
    split <;> rfl
  have hval : (s.claimPopped t w now).2 = (s.rows.claim t w now).2 := rfl
  rw [h.rows] at hrows hval
  unfold Rows.claim at hrows hval
  unfold RedisState.claimPopped
  cases hp : r.keys.find t with
  | none =>
    simp only [hp] at hrows hval ⊢
    exact ⟨h.congr (hrows.trans h.rows.symm) hqueue, hval.symm⟩
  | some p =>
    simp only [hp] at hrows hval ⊢
    by_cases hpend : p.status = .pending
    · rw [if_pos hpend] at hrows hval ⊢
      refine ⟨h.put ?_ ((h.sound t p hp).claimed hpend w now) ?_ hqueue, hval.symm⟩
      · rw [TaskPayload.taskId_claimed, Table.key_of_find hp, hp]
        rfl
      · rw [hrows, h.rows]
    · rw [if_neg hpend] at hrows hval ⊢
      exact ⟨h.congr (hrows.trans h.rows.symm) hqueue, hval.symm⟩

theorem Agree.staleTasks (h : Agree r s) (order : List String) (now : Int) :
    Agree (Backend.staleTasks r order now).1 (Backend.staleTasks s order now).1 ∧
      (Backend.staleTasks r order now).2 = (Backend.staleTasks s order now).2 := by
  change Agree (r.scanStale order now).1 s ∧
    (r.scanStale order now).2 = s.rows.listStaleRunning order now
  refine ⟨⟨h.rows, h.queue, fun t => ?_, h.sound⟩, ?_⟩
  · change t ∈ r.index.filter (fun t => (r.keys.find t).isSome) ↔ _
    rw [List.mem_filter, h.indexed]
    exact and_self_iff
  · simp only [RedisState.scanStale, Rows.listStaleRunning, h.rows]
    refine List.filter_congr fun p hp => ?_
    exact staleRunning_eq (h.sound p.taskId p (Table.find_of_mem_filterMap_find hp)) now

/-- Both scans enumerate the same ids. -/
theorem Agree.taskIds_perm (h : Agree r s) : (Backend.taskIds r).Perm (Backend.taskIds s) := by
  refine (List.perm_ext_iff_of_nodup r.nodup s.rows.nodup).mpr fun t => ?_
  rw [h.indexed, Table.find_isSome_iff, h.rows]

/-! ## The shared functions keep the agreement -/

/-- Agreeing states with equal answers. -/
def SameOutcome {α : Type} (x : RedisState δ × α) (y : StoreState δ × α) : Prop :=
  Agree x.1 y.1 ∧ x.2 = y.2

theorem Agree.claimTask (w : String) (now : Int) (ids : List String) :
    ∀ {r : RedisState δ} {s : StoreState δ}, Agree r s →
      SameOutcome (claimTask w now ids r) (claimTask w now ids s) := by
  induction ids with
  | nil => exact fun h => ⟨h.setQueue [], rfl⟩
  | cons t rest ih =>
    intro r s h
    have hpop := (h.setQueue rest).claimPopped t w now
    simp only [Sequential.claimTask]
    rcases hr : Backend.claimPopped (Backend.setQueue r rest) t w now with ⟨r', v⟩
    rcases hs : Backend.claimPopped (Backend.setQueue s rest) t w now with ⟨s', v'⟩
    rw [hr, hs] at hpop
    obtain ⟨hagree, rfl⟩ := hpop
    cases v with
    | none => exact ih hagree
    | some p => exact ⟨hagree, rfl⟩

theorem Agree.cancelPayloadTask (h : Agree r s) (t : String) :
    SameOutcome (cancelPayloadTask r t) (cancelPayloadTask s t) := by
  have hval : (Backend.getStatus r t).2 = r.keys.find t := rfl
  have hstatus := h.getStatus t
  simp only [Sequential.cancelPayloadTask]
  rcases hr : Backend.getStatus r t with ⟨r', v⟩
  rcases hs : Backend.getStatus s t with ⟨s', v'⟩
  rw [hr, hs] at hstatus
  rw [hr] at hval
  have hkeys : r' = r := congrArg Prod.fst hr.symm
  subst hkeys
  obtain ⟨hagree, rfl⟩ := hstatus
  cases v with
  | none => exact ⟨hagree, rfl⟩
  | some p =>
    dsimp only at hval ⊢
    split
    · exact ⟨hagree, rfl⟩
    · split
      · rw [hagree.queue_eq]
        refine ⟨(hagree.setQueue _).savePayload ?_ (.of_terminal rfl), rfl⟩
        have hfind : r'.keys.find p.cancelled.taskId = some p := by
          rw [TaskPayload.taskId_cancelled, Table.key_of_find hval.symm]
          exact hval.symm
        exact Option.isSome_iff_exists.mpr ⟨p, hfind⟩
      · exact ⟨hagree, rfl⟩

/-- Every snapshot still to be recovered has a payload. -/
def Present (r : RedisState δ) (todo : List (TaskPayload δ)) : Prop :=
  ∀ p ∈ todo, (r.keys.find p.taskId).isSome

/-- No operation removes a payload. -/
theorem isSome_find_of_turns {P : Int → Prop} {t u : String} {rows rows' : Rows δ}
    (h : Turns P t rows rows') (hu : (rows.find u).isSome) : (rows'.find u).isSome := by
  rcases h with rfl | ⟨p, q, _, _, rfl⟩
  · exact hu
  · rw [Table.find_put]
    split
    · rfl
    · exact hu

theorem isSome_find_fail (r : RedisState δ) (t e w u : String) (hu : (r.keys.find u).isSome) :
    ((Backend.fail r t e w).1.keys.find u).isSome :=
  isSome_find_of_turns (LawfulBackend.fail_turns (fun _ => True) r t e w) hu

theorem Agree.recoverOneStale {n : Nat} {p : TaskPayload δ} (h : Agree r s)
    (hp : (r.keys.find p.taskId).isSome) :
    SameOutcome (recoverOneStale (r, n) p) (recoverOneStale (s, n) p) := by
  unfold Sequential.recoverOneStale
  split
  · have hsaved := h.savePayload (show (r.keys.find p.requeued.taskId).isSome from hp)
      (.requeued p)
    dsimp only
    rw [hsaved.queue_eq]
    exact ⟨hsaved.setQueue _, rfl⟩
  · exact ⟨((h.fail p.expiredError "" hp).1.getStatus p.taskId).1, rfl⟩

theorem present_recoverOneStale {n : Nat} {p : TaskPayload δ} {todo : List (TaskPayload δ)}
    (hpresent : Present r todo) : Present (recoverOneStale (r, n) p).1 todo := by
  intro q hq
  unfold Sequential.recoverOneStale
  split
  · change ((r.keys.put p.requeued).find q.taskId).isSome
    rw [Table.find_put]
    split
    · rfl
    · exact hpresent q hq
  · exact isSome_find_fail r p.taskId _ _ q.taskId (hpresent q hq)

theorem Agree.recoverAll (todo : List (TaskPayload δ)) :
    ∀ {r : RedisState δ} {s : StoreState δ} {n : Nat}, Agree r s → Present r todo →
      SameOutcome (todo.foldl Sequential.recoverOneStale (r, n))
        (todo.foldl Sequential.recoverOneStale (s, n)) := by
  induction todo with
  | nil => exact fun h _ => ⟨h, rfl⟩
  | cons p todo ih =>
    intro r s n h hpresent
    have hone := h.recoverOneStale (n := n) (hpresent p (List.mem_cons_self ..))
    have hrest := present_recoverOneStale (n := n) (p := p)
      (fun q hq => hpresent q (List.mem_cons_of_mem _ hq))
    simp only [List.foldl_cons]
    rcases hr : Sequential.recoverOneStale (r, n) p with ⟨r', n'⟩
    rcases hs : Sequential.recoverOneStale (s, n) p with ⟨s', m'⟩
    rw [hr, hs] at hone
    rw [hr] at hrest
    obtain ⟨hagree, hn⟩ := hone
    dsimp only at hn
    rw [← hn]
    exact ih hagree hrest

theorem Agree.recoverStaleTaskPayloads (h : Agree r s) (order : List String) (now : Int) :
    SameOutcome (recoverStaleTaskPayloads r order now) (recoverStaleTaskPayloads s order now) := by
  obtain ⟨hagree, hstale⟩ := h.staleTasks order now
  have hpresent : Present (Backend.staleTasks r order now).1 (Backend.staleTasks r order now).2 := by
    intro p hp
    change p ∈ (order.filterMap r.keys.find).filter _ at hp
    change (r.keys.find p.taskId).isSome
    rw [Table.find_of_mem_filterMap_find (List.mem_filter.mp hp).1]
    rfl
  have hall := Agree.recoverAll (n := 0) _ hagree hpresent
  unfold Sequential.recoverStaleTaskPayloads
  dsimp only
  rw [← hstale]
  exact ⟨hall.1, congrArg Value.count hall.2⟩

/-- The statuses of one poll: equal over both back ends, and those found have a key. -/
theorem Agree.readStatuses (ids : List String) :
    ∀ {r : RedisState δ} {s : StoreState δ}, Agree r s →
      SameOutcome (readStatuses ids r) (readStatuses ids s) ∧
        (Sequential.readStatuses ids r).1 = r ∧
        ∀ st ∈ (Sequential.readStatuses ids r).2, st.2.isSome → (r.keys.find st.1).isSome := by
  induction ids with
  | nil => exact fun h => ⟨⟨h, rfl⟩, rfl, fun _ hst => by cases hst⟩
  | cons t ids ih =>
    intro r s h
    obtain ⟨hagree, hval⟩ := h.getStatus t
    obtain ⟨⟨hrest, hvals⟩, hsame, hfound⟩ := ih hagree
    refine ⟨⟨hrest, ?_⟩, hsame, ?_⟩
    · simp only [Sequential.readStatuses]
      rw [hval, hvals]
    · intro st hst hsome
      rcases List.mem_cons.mp hst with rfl | hmem
      · exact hsome
      · exact hfound st hmem hsome

theorem Agree.failStuckTasks (now : Int) (todo : List (String × Option (TaskPayload δ))) :
    ∀ {r : RedisState δ} {s : StoreState δ}, Agree r s →
      (∀ st ∈ todo, st.2.isSome → (r.keys.find st.1).isSome) →
      SameOutcome (failStuckTasks now todo r) (failStuckTasks now todo s) := by
  induction todo with
  | nil => exact fun h _ => ⟨h, rfl⟩
  | cons st todo ih =>
    intro r s h hfound
    have hrest : ∀ st ∈ todo, st.2.isSome → (r.keys.find st.1).isSome := fun x hx =>
      hfound x (List.mem_cons_of_mem _ hx)
    obtain ⟨t, v⟩ := st
    cases v with
    | none => exact ih h hrest
    | some p =>
      simp only [Sequential.failStuckTasks]
      split
      · have htail := ih h hrest
        exact ⟨htail.1, by rw [htail.2]⟩
      · split
        · have htail := ih h hrest
          exact ⟨htail.1, by rw [htail.2]⟩
        · have ht : (r.keys.find t).isSome := hfound (t, some p) (List.mem_cons_self ..) rfl
          obtain ⟨hagree, hval⟩ := (h.fail waitTimeoutError "" ht).1.getStatus t
          have htail := ih hagree fun x hx hs =>
            isSome_find_fail r t waitTimeoutError "" x.1 (hrest x hx hs)
          exact ⟨htail.1, by rw [htail.2, hval]⟩

theorem Agree.waitPolls (ids : List String) (deadline : Option Int) (clock : Nat → Int)
    (polls : Nat) : ∀ (k : Nat) {r : RedisState δ} {s : StoreState δ}, Agree r s →
      Option.Rel SameOutcome (waitPolls ids deadline clock polls k r)
        (waitPolls ids deadline clock polls k s) := by
  induction polls with
  | zero => exact fun _ _ _ _ => .none
  | succ polls ih =>
    intro k r s h
    obtain ⟨⟨hagree, hvals⟩, hsame, hfound⟩ := h.readStatuses ids
    simp only [Sequential.waitPolls]
    rw [← hvals]
    split
    · exact .some ⟨hagree, rfl⟩
    · split
      · have hfail := Agree.failStuckTasks (clock (k + 1)) _ hagree (by rw [hsame]; exact hfound)
        exact .some ⟨hfail.1, by rw [hfail.2]⟩
      · exact ih (k + 1) hagree

/-! ## Batches -/

theorem parent_of_batchParent {p : TaskPayload δ} {ps : List (TaskPayload δ)} {parent : String}
    (h : batchParent (p :: ps) = some parent) : p.parentTaskId = parent := by
  simp only [batchParent] at h
  split at h <;> cases h
  rfl

/-- Both back ends count the same active children of a parent. -/
theorem Agree.activeCount (h : Agree r s) {order : List String} (hperm : order.Perm r.index)
    {parent : String} (hparent : parent ≠ "") :
    ((r.keys.getChildren order parent).filter (·.active)).length =
      (s.rows.activeIds parent).length := by
  have hrows : (order.filterMap r.keys.find).Perm r.keys.entries :=
    Table.filterMap_find_perm r.keys (hperm.nodup_iff.mpr r.nodup) fun t =>
      hperm.mem_iff.trans (h.indexed t)
  simp only [Rows.getChildren, if_neg hparent, Rows.activeIds, List.length_map,
    List.filter_filter, h.rows]
  calc ((order.filterMap r.keys.find).filter
          (fun p => p.active && decide (p.parentTaskId = parent))).length
      = (r.keys.entries.filter
          (fun p => p.active && decide (p.parentTaskId = parent))).length :=
        (hrows.filter _).length_eq
    _ = (r.keys.entries.filter
          (fun p => decide (p.parentTaskId = parent) && p.active)).length := by
        simp only [Bool.and_comm]

theorem Agree.addAll {ps : List (TaskPayload δ)} : ∀ {r : RedisState δ} {s s' : StoreState δ},
    Agree r s → (∀ p ∈ ps, Sound p) → s'.rows = s.rows.putAll ps →
      s'.queue = s.queue ++ ps.map (·.taskId) →
      Agree (ps.foldl (fun r p => (r.set p).add p) r) s' := by
  induction ps with
  | nil =>
    intro r s s' h _ hrows hqueue
    exact h.congr hrows (by simpa using hqueue)
  | cons p ps ih =>
    intro r s s' h hsound hrows hqueue
    -- the store after the first payload only
    have hfirst : Agree ((r.set p).add p) (Backend.enqueue (Backend.savePayload s p) p) :=
      h.add (hsound p (List.mem_cons_self ..)) rfl rfl
    refine ih hfirst (fun q hq => hsound q (List.mem_cons_of_mem _ hq)) hrows ?_
    rw [hqueue, List.map_cons]
    exact (List.append_assoc s.queue [p.taskId] _).symm

theorem Agree.submitMany (h : Agree r s) {ps : List (TaskPayload δ)} (n : Nat)
    {order : List String} (hperm : order.Perm r.index) (hsound : ∀ p ∈ ps, Sound p)
    (hparents : ∀ p ∈ ps, p.parentTaskId ≠ "") (hfresh : ∀ p ∈ ps, r.keys.find p.taskId = none)
    (hnodup : (ps.map (·.taskId)).Nodup) :
    Agree (r.submitMany ps n order).1 (s.submitMany ps n).1 ∧
      Value.Agrees (r.submitMany ps n order).2 (s.submitMany ps n).2 := by
  unfold RedisState.submitMany StoreState.submitMany
  cases ps with
  | nil =>
    have hcount : ¬ n < (((r.keys.getChildren order "").filter (·.active)).length + 0) := by
      simp [Rows.getChildren]
    simp only [batchParent, List.length_nil, if_neg hcount, List.foldl_nil]
    exact ⟨h, Value.Agrees.refl _⟩
  | cons p ps =>
    rw [if_neg (by simp)]
    cases hparent : batchParent (p :: ps) with
    | none => exact ⟨h, Or.inr rfl⟩
    | some parent =>
      have hne : parent ≠ "" := by
        rw [← parent_of_batchParent hparent]
        exact hparents p (List.mem_cons_self ..)
      have hconflict : s.rows.insertConflicts (p :: ps) = false := by
        rw [Rows.insertConflicts, h.rows]
        simp only [Bool.or_eq_false_iff, Bool.not_eq_false', decide_eq_true_eq,
          List.any_eq_false]
        exact ⟨hnodup, fun q hq => by simp [hfresh q hq]⟩
      dsimp only
      rw [h.activeCount hperm hne]
      split
      · exact ⟨h, Or.inr rfl⟩
      · rw [if_neg (by simp [hconflict])]
        exact ⟨h.addAll hsound rfl rfl, Value.Agrees.refl _⟩

/-! ## Calls -/

/-- Agreeing states, and answers that are equal or both errors. -/
def AgreeingOutcome (x : RedisState δ × Value δ) (y : StoreState δ × Value δ) : Prop :=
  Agree x.1 y.1 ∧ Value.Agrees x.2 y.2

theorem SameOutcome.agreeing {x : RedisState δ × Value δ} {y : StoreState δ × Value δ}
    (h : SameOutcome x y) : AgreeingOutcome x y :=
  ⟨h.1, h.2 ▸ Value.Agrees.refl x.2⟩

theorem renewLease_of_not_running {rows : Rows δ} {t : String} (extension now : Int)
    (h : ∀ p, rows.find t = some p → p.status ≠ .running) :
    rows.renewLease t extension now = rows := by
  unfold Rows.renewLease
  split
  · rename_i p hp
    rw [if_neg (h p hp)]
  · rfl

theorem parent_buildPayloads {ns : String} {specs : List (QueueSubmitSpec δ)} {clock : Nat → Int}
    {r : RedisState δ} (h : specs.all (fun spec => decide (spec.inputData.parentTaskId ≠ "") &&
      (r.keys.find spec.taskId).isNone) = true) {p : TaskPayload δ}
    (hp : p ∈ buildPayloads ns specs clock) :
    Sound p ∧ p.parentTaskId ≠ "" ∧ r.keys.find p.taskId = none := by
  obtain ⟨spec, hspec, now, rfl⟩ := mem_buildPayloads hp
  have hcond := List.all_eq_true.mp h spec hspec
  simp only [Bool.and_eq_true, decide_eq_true_eq, Option.isNone_iff_eq_none] at hcond
  exact ⟨.buildPayload ns spec now, hcond.1, hcond.2⟩

/-- A call that fits the columns is not refused. -/
theorem refuse_eq_none {ns : String} {s : StoreState δ} {call : Call δ}
    (h : fits ns call = true) : s.refuse ns call = none := by
  cases call with
  | recover order => rfl
  | fail t e w =>
    simp only [fits, Bool.and_eq_true] at h
    simp [StoreState.refuse, h.1, h.2]
  | _ => exact if_pos h

theorem exec_agrees (ns : String) {req : Request δ} (h : Agree r s)
    (hreq : agreeable ns r req = true) :
    Option.Rel AgreeingOutcome (exec ns r req) (exec ns s req) := by
  obtain ⟨hnamed, hreq⟩ := Bool.and_eq_true_iff.mp hreq
  have hfits := (Bool.and_eq_true_iff.mp hnamed).1
  have hredis : exec ns r req = accepted ns r req := rfl
  have hstore : exec ns s req = accepted ns s req := by
    have hnone : Backend.refuse ns s req.call = none := refuse_eq_none hfits
    rw [exec, hnone, Option.none_or]
  rw [hredis, hstore]
  obtain ⟨call, clock⟩ := req
  cases call with
  | submit spec =>
    exact .some ⟨h.add (.buildPayload ns spec (clock 0)) rfl rfl, Value.Agrees.refl _⟩
  | submitMany specs n order =>
    simp only [Bool.and_eq_true, decide_eq_true_eq] at hreq
    simp only [accepted]
    by_cases hperm : order.Perm (Backend.taskIds r)
    · rw [if_pos hperm, if_pos (hperm.trans h.taskIds_perm)]
      refine .some (h.submitMany n hperm ?_ ?_ ?_ ?_)
      · exact fun p hp => (parent_buildPayloads hreq.1 hp).1
      · exact fun p hp => (parent_buildPayloads hreq.1 hp).2.1
      · exact fun p hp => (parent_buildPayloads hreq.1 hp).2.2
      · rw [taskIds_buildPayloads]
        exact hreq.2
    · rw [if_neg hperm, if_neg fun hs => hperm (hs.trans h.taskIds_perm.symm)]
      exact .none
  | claim w =>
    simp only [accepted, h.queue_eq]
    exact .some (h.claimTask w (clock 0) _).agreeing
  | complete t res w => exact .some (SameOutcome.agreeing (h.complete res w hreq))
  | fail t e w => exact .some (SameOutcome.agreeing (h.fail e w hreq))
  | cancel t => exact .some (h.cancelPayloadTask t).agreeing
  | renewLease t extension =>
    have hsame : s.rows.renewLease t extension (clock 0) = s.rows := by
      refine renewLease_of_not_running _ _ fun p hp => ?_
      rw [h.rows] at hp
      simpa [hp] using hreq
    exact .some ⟨h.congr hsame rfl, Value.Agrees.refl _⟩
  | recover order =>
    simp only [accepted]
    by_cases hperm : order.Perm (Backend.taskIds r)
    · rw [if_pos hperm, if_pos (hperm.trans h.taskIds_perm)]
      exact .some (h.recoverStaleTaskPayloads order (clock 0)).agreeing
    · rw [if_neg hperm, if_neg fun hs => hperm (hs.trans h.taskIds_perm.symm)]
      exact .none
  | getStatus t =>
    obtain ⟨hagree, hval⟩ := h.getStatus t
    exact .some (SameOutcome.agreeing ⟨hagree, congrArg Value.task hval⟩)
  | getChildren parent order =>
    simp only [accepted]
    by_cases hperm : order.Perm (Backend.taskIds r)
    · rw [if_pos hperm, if_pos (hperm.trans h.taskIds_perm)]
      refine .some (SameOutcome.agreeing ⟨h, ?_⟩)
      change Value.tasks (r.keys.getChildren order parent) =
        .tasks (s.rows.getChildren order parent)
      rw [h.rows]
    · rw [if_neg hperm, if_neg fun hs => hperm (hs.trans h.taskIds_perm.symm)]
      exact .none
  | wait ids timeout polls =>
    simp only [accepted, waitForTaskPayloads]
    split
    · exact .some (SameOutcome.agreeing ⟨h, rfl⟩)
    · have hwait := h.waitPolls ids (if 0 < timeout then some (clock 0 + timeout) else none) clock
        polls 1
      generalize waitPolls ids _ clock polls 1 r = x at hwait ⊢
      generalize waitPolls ids _ clock polls 1 s = y at hwait ⊢
      cases hwait with
      | none => exact .none
      | some hxy => exact .some hxy.agreeing

/-- `get_status` reports the same of every task. -/
def SameReports (r : RedisState δ) (s : StoreState δ) : Prop :=
  ∀ t, ownKey t = true → textual t.toList = true →
    (Backend.getStatus r t).2 = (Backend.getStatus s t).2

/-- The back ends agree on a sequence of calls: each call returns the same
or raises on both, and then every task's payload is the same. -/
def BackEndsAgree (ns : String) (reqs : List (Request δ)) : Prop :=
  Reactive.Alike (answering ns) (answering ns) Value.Agrees SameReports
    (RedisState.init : RedisState δ) (StoreState.init : StoreState δ) reqs

/-- **The two back ends agree** on every sequence of agreeable calls. -/
theorem back_ends_agree (ns : String) (reqs : List (Request δ))
    (h : (machine ns).Meets (fun (r : RedisState δ) req => agreeable ns r req = true)
      RedisState.init reqs) : BackEndsAgree ns reqs :=
  Reactive.alike_of_simulation (R := Agree) (C := fun r req => agreeable ns r req = true)
    (fun _ _ _ hagree hreq => exec_agrees ns hagree hreq)
    (fun _ _ hagree t _ _ => (hagree.getStatus t).2) Agree.init h

/-! ## Where they disagree -/

/-- The answer to `req` after `reqs`, and then the status of `t`. -/
def answerAfter [Backend σ String] (s₀ : σ) (reqs : List (Request String)) (req : Request String)
    (t : String) : Option (Value String × Option (TaskPayload String)) :=
  ((machine "ns").run s₀ reqs).bind fun s =>
    (exec "ns" s req).map fun out => (out.2, (Backend.getStatus out.1 t).2)

/-- Two last answers that tell the back ends apart. -/
def tellApart :
    Option (Value String × Option (TaskPayload String)) →
      Option (Value String × Option (TaskPayload String)) → Bool
  | some (v, p), some (v', p') => !decide (Value.Agrees v v' ∧ p = p')
  | _, _ => false

theorem not_agree_of_tellApart (reqs : List (Request String)) (req : Request String) {t : String}
    (hkey : ownKey t = true) (htext : textual t.toList = true)
    (h : tellApart (answerAfter (RedisState.init : RedisState String) reqs req t)
      (answerAfter (StoreState.init : StoreState String) reqs req t) = true) :
    ¬ BackEndsAgree "ns" (reqs ++ [req]) := by
  intro hagree
  unfold tellApart at h
  split at h
  · rename_i v p v' p' hr hs
    obtain ⟨r, hrun, hr⟩ := Option.bind_eq_some_iff.mp hr
    obtain ⟨s, hrun', hs⟩ := Option.bind_eq_some_iff.mp hs
    obtain ⟨x, hx, heq⟩ := Option.map_eq_some_iff.mp hr
    obtain ⟨y, hy, heq'⟩ := Option.map_eq_some_iff.mp hs
    cases heq
    cases heq'
    obtain ⟨hval, hreport⟩ := Reactive.Alike.last hagree hrun hrun' hx hy
    simp [hval, hreport t hkey htext] at h
  · cases h

/-- A request at time 1. -/
def atOne (call : Call String) : Request String := ⟨call, fun _ => 1⟩

def specOf (t parent : String) : QueueSubmitSpec String :=
  { taskId := t, inputData := { parentTaskId := parent, rest := "" } }

/-- `t` is submitted and claimed. -/
def submitAndClaim (parent : String) : List (Request String) :=
  [atOne (.submit (specOf "t" parent)), atOne (.claim "w")]

theorem back_ends_agree_claimed :
    BackEndsAgree "ns" (submitAndClaim "p" ++ [atOne (.complete "t" "r" "w")]) :=
  back_ends_agree "ns" _ (by decide)

/-- A worker id of 101 characters. -/
def longWorker : String := String.ofList (List.replicate 101 'w')

/-- The back ends differ in six ways: for a task that does not exist,
`complete` and `fail` raise over Redis only; a heartbeat renews the lease
over the store only; a batch without a parent is counted over the store
only; a batch with a used id raises over the store only, and so does a
claim by a worker whose id is too long for its column. -/
theorem back_ends_disagree :
    ¬ BackEndsAgree "ns" [atOne (.complete "t" "r" "w")] ∧
    ¬ BackEndsAgree "ns" [atOne (.fail "t" "e" "w")] ∧
    ¬ BackEndsAgree "ns" (submitAndClaim "p" ++ [atOne (.renewLease "t" 90)]) ∧
    ¬ BackEndsAgree "ns" (submitAndClaim "" ++ [atOne (.submitMany [specOf "u" ""] 1 ["t"])]) ∧
    ¬ BackEndsAgree "ns" (submitAndClaim "p" ++ [atOne (.submitMany [specOf "t" "p"] 2 ["t"])]) ∧
    ¬ BackEndsAgree "ns" ([atOne (.submit (specOf "t" "p"))] ++ [atOne (.claim longWorker)]) :=
  have ht : ownKey "t" = true := by decide
  have htext : textual "t".toList = true := by decide
  ⟨not_agree_of_tellApart [] _ ht htext (by decide),
    not_agree_of_tellApart [] _ ht htext (by decide),
    not_agree_of_tellApart _ _ ht htext (by decide),
    not_agree_of_tellApart _ _ (t := "u") (by decide) (by decide) (by decide),
    not_agree_of_tellApart _ _ ht htext (by decide),
    not_agree_of_tellApart _ _ ht htext (by decide)⟩

end NeuralHub.TaskQueue.Sequential
